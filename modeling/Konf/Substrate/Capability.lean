import Mathlib.Order.UpperLower.Closure
import Konf.Foundations.Text
import Konf.Substrate.Error

/-! # Capabilities

Model of `Capability` and `CapSet` (`konflux-substrate/src/envelope.rs`) and of the string
wrappers in `capability.rs`.

The abstract reading: a pattern is also a name, `Covers q p` says that pattern `p` matches `q` read
as a name, and this is a preorder (`matches_self`, `matches_trans`). The authority of a capability
set is the lower set its patterns generate, so `attenuate`, which only asks whether the child's
patterns *as names* lie in the parent's authority, decides containment of authorities
(`attenuate_iff_authority_le`). -/

namespace Konf.Substrate
open Konf.Text
set_option autoImplicit false

structure Capability where
  pattern : String
deriving DecidableEq, Repr

/-- `"memory:search"` (exact), `"memory:*"` (prefix), `"*"` (all). -/
def Capability.matches (c : Capability) (toolName : String) : Bool :=
  if c.pattern = "*" then true
  else match stripSuffix c.pattern ":*" with
    | some p =>
      startsWith toolName p &&
        (getRange toolName (byteLen p.toList) (byteLen p.toList + 1) == some ":")
    | none => c.pattern == toolName

structure CapSet where
  caps : List Capability
deriving DecidableEq, Repr

namespace CapSet

def fromPatterns (patterns : List String) : CapSet := ⟨patterns.map Capability.mk⟩

def checkAccess (s : CapSet) (toolName : String) : Except ToolError Unit :=
  if s.caps.isEmpty then .error (.capabilityDenied "ALL (empty capability set)")
  else if s.caps.any (fun c => c.matches toolName) then .ok ()
  else .error (.capabilityDenied toolName)

def firstUncovered (s : CapSet) (childPatterns : List String) : Option String :=
  childPatterns.find? fun p => !s.caps.any (fun parent => parent.matches p)

/-- Create a child set; every child pattern must be covered by a parent pattern. -/
def attenuate (s : CapSet) (childPatterns : List String) : Except String CapSet :=
  if childPatterns.isEmpty then .ok ⟨[]⟩
  else if s.caps.isEmpty then .error "parent has no capabilities to grant from"
  else match s.firstUncovered childPatterns with
    | some p => .error ("capability '" ++ p ++ "' cannot be granted — parent does not have it")
    | none => .ok (fromPatterns childPatterns)

def toPatterns (s : CapSet) : List String := s.caps.map Capability.pattern

end CapSet

def checkToolAccess (toolName : String) (capabilities : List String) : Except ToolError Unit :=
  (CapSet.fromPatterns capabilities).checkAccess toolName

def validateGrant (grant parentCapabilities : List String) : Except String Unit :=
  ((CapSet.fromPatterns parentCapabilities).attenuate grant).map fun _ => ()

/-! ## What a pattern matches -/

theorem matches_all (t : String) : (Capability.mk "*").matches t = true := rfl

theorem matches_family (p t : String) :
    (Capability.mk (p ++ ":*")).matches t = true ↔ p.toList ++ [':'] <+: t.toList := by
  have hne : p ++ ":*" ≠ "*" := by
    intro h
    have hl := congrArg (fun s => s.toList.length) h
    simp [String.toList_append] at hl
  have hc : (':' : Char).utf8Size = 1 := by decide
  unfold Capability.matches
  rw [if_neg hne, stripSuffix_eq_some.mpr rfl, Bool.and_eq_true, beq_iff_eq]
  exact startsWith_and_getRange hc

theorem matches_exact {q : String} (hall : q ≠ "*") (hpre : ∀ p, q ≠ p ++ ":*") (t : String) :
    (Capability.mk q).matches t = true ↔ q = t := by
  unfold Capability.matches
  rw [if_neg hall, stripSuffix_eq_none.mpr hpre, beq_iff_eq]

theorem pattern_cases (q : String) :
    q = "*" ∨ (∃ p, q = p ++ ":*") ∨ (q ≠ "*" ∧ ∀ p, q ≠ p ++ ":*") := by
  by_cases hall : q = "*"
  · exact .inl hall
  · by_cases hpre : ∃ p, q = p ++ ":*"
    · exact .inr (.inl hpre)
    · exact .inr (.inr ⟨hall, fun p hp => hpre ⟨p, hp⟩⟩)

theorem matches_self (q : String) : (Capability.mk q).matches q = true := by
  obtain rfl | ⟨p, rfl⟩ | ⟨hall, hpre⟩ := pattern_cases q
  · exact matches_all _
  · rw [matches_family, String.toList_append]
    exact (List.prefix_append_right_inj _).mpr ⟨['*'], rfl⟩
  · exact (matches_exact hall hpre q).mpr rfl

/-- Matching is transitive: a name matched by a matched pattern is matched. -/
theorem matches_trans {p q t : String} (hpq : (Capability.mk p).matches q = true)
    (hqt : (Capability.mk q).matches t = true) : (Capability.mk p).matches t = true := by
  obtain rfl | ⟨a, rfl⟩ | ⟨hall, hpre⟩ := pattern_cases p
  · exact matches_all _
  · rw [matches_family] at hpq ⊢
    obtain rfl | ⟨b, rfl⟩ | ⟨hall, hpre⟩ := pattern_cases q
    · -- `a ++ ":"` is no prefix of the one-character name `*`
      obtain ⟨rest, hrest⟩ := hpq
      cases ha : a.toList with
      | nil => rw [ha] at hrest; simp at hrest
      | cons c l =>
        rw [ha] at hrest
        have hl := congrArg List.length hrest
        simp at hl
    · -- `a ++ ":"` is a prefix of `b ++ ":*"` and not all of it, hence of `b ++ ":"`
      rw [matches_family] at hqt
      have hsplit : (b ++ ":*").toList = (b.toList ++ [':']) ++ ['*'] := by
        rw [String.toList_append, List.append_assoc]; rfl
      rw [hsplit] at hpq
      obtain heq | hshort := List.prefix_concat_iff.mp hpq
      · have hlast := congrArg List.getLast? heq
        simp at hlast
      · exact hshort.trans hqt
    · rw [matches_exact hall hpre] at hqt
      exact hqt ▸ hpq
  · rw [matches_exact hall hpre] at hpq
    exact hpq ▸ hqt

/-! ## Authority as a lower set -/

/-- A name under the pattern preorder: `a ≤ b` when `b`, as a pattern, matches `a`. -/
structure PatternName where
  text : String

instance : Preorder PatternName where
  le a b := (Capability.mk b.text).matches a.text = true
  le_refl a := matches_self a.text
  le_trans _ _ _ hab hbc := matches_trans hbc hab

def CapSet.names (s : CapSet) : Set PatternName := {n | ⟨n.text⟩ ∈ s.caps}

/-- The names a capability set grants. -/
def CapSet.authority (s : CapSet) : LowerSet PatternName := lowerClosure s.names

theorem any_matches_iff (s : CapSet) (t : String) :
    s.caps.any (fun c => c.matches t) = true ↔ ⟨t⟩ ∈ s.authority := by
  rw [List.any_eq_true, CapSet.authority, mem_lowerClosure]
  constructor
  · rintro ⟨c, hc, hm⟩
    exact ⟨⟨c.pattern⟩, hc, hm⟩
  · rintro ⟨n, hn, hm⟩
    exact ⟨⟨n.text⟩, hn, hm⟩

theorem checkAccess_ok_iff (s : CapSet) (t : String) :
    s.checkAccess t = .ok () ↔ ⟨t⟩ ∈ s.authority := by
  rw [← any_matches_iff]
  unfold CapSet.checkAccess
  by_cases hempty : s.caps.isEmpty = true
  · rw [if_pos hempty, List.isEmpty_iff.mp hempty]
    simp
  · rw [if_neg hempty]
    split_ifs with hany
    · simp [hany]
    · simp [hany]

theorem firstUncovered_eq_none (s : CapSet) (child : List String) :
    s.firstUncovered child = none ↔ ∀ p ∈ child, (⟨p⟩ : PatternName) ∈ s.authority := by
  rw [CapSet.firstUncovered, List.find?_eq_none]
  simp only [Bool.not_eq_true, Bool.not_eq_false', any_matches_iff]

theorem names_fromPatterns (child : List String) :
    (CapSet.fromPatterns child).names = {n | n.text ∈ child} := by
  ext n
  simp [CapSet.names, CapSet.fromPatterns]

theorem attenuate_ok_iff_covered (s : CapSet) (child : List String) :
    (∃ c, s.attenuate child = .ok c) ↔ ∀ p ∈ child, (⟨p⟩ : PatternName) ∈ s.authority := by
  rw [← firstUncovered_eq_none]
  unfold CapSet.attenuate
  by_cases hchild : child = []
  · subst hchild
    simp [CapSet.firstUncovered]
  · rw [if_neg (by simpa using hchild)]
    by_cases hempty : s.caps.isEmpty = true
    · -- an empty parent covers nothing, and there is a child pattern
      obtain ⟨p, rest, rfl⟩ := List.exists_cons_of_ne_nil hchild
      rw [if_pos hempty]
      simp [CapSet.firstUncovered, List.isEmpty_iff.mp hempty]
    · rw [if_neg hempty]
      cases s.firstUncovered child <;> simp

/-- `attenuate` succeeds exactly when the child's authority lies in the parent's. -/
theorem attenuate_iff_authority_le (s : CapSet) (child : List String) :
    (∃ c, s.attenuate child = .ok c) ↔ (CapSet.fromPatterns child).authority ≤ s.authority := by
  rw [attenuate_ok_iff_covered]
  conv_rhs => rw [CapSet.authority, lowerClosure_le, names_fromPatterns]
  constructor
  · intro h n hn
    exact h n.text hn
  · intro h p hp
    exact h (show p ∈ child from hp)

theorem validateGrant_ok_iff (grant parent : List String) :
    validateGrant grant parent = .ok () ↔
      (CapSet.fromPatterns grant).authority ≤ (CapSet.fromPatterns parent).authority := by
  rw [← attenuate_iff_authority_le, validateGrant]
  cases (CapSet.fromPatterns parent).attenuate grant <;> simp [Except.map]

/-- Attenuation is containment of the sets of tool names granted: for every parent set and every
list of child pattern strings. -/
theorem attenuate_ok_iff_contained (parent : CapSet) (child : List String) :
    (∃ c, parent.attenuate child = .ok c) ↔
      ∀ t, (CapSet.fromPatterns child).checkAccess t = .ok () → parent.checkAccess t = .ok () := by
  rw [attenuate_iff_authority_le]
  constructor
  · intro h t ht
    rw [checkAccess_ok_iff] at ht ⊢
    exact h ht
  · intro h n hn
    have ht := h n.text ((checkAccess_ok_iff _ _).mpr hn)
    exact (checkAccess_ok_iff _ _).mp ht

end Konf.Substrate
