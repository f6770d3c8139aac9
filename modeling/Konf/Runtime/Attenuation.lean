import Konf.Runtime.Scope

/-! # Two attenuation checks

`child_scope` and `CapSet::attenuate` both decide whether a child's patterns lie under the parent's.
The runtime tests the two shapes of a child pattern apart and looks at one byte after the common
start; the substrate matches the child's pattern as a name. Pattern by pattern the two tests are the
same. -/

namespace Konf.Runtime
open Konf.Text Konf.Substrate
set_option autoImplicit false

/-- A family under a family: the child's start goes on with a colon, or is the parent's. -/
theorem family_matches_family (a b : String) :
    (Capability.mk (a ++ ":*")).matches (b ++ ":*") = true ↔
      a = b ∨ a.toList ++ [':'] <+: b.toList := by
  have hsplit : (b ++ ":*").toList = (b.toList ++ [':']) ++ ['*'] := by
    rw [String.toList_append, List.append_assoc]
    rfl
  rw [matches_family, hsplit, List.prefix_concat_iff, List.prefix_concat_iff]
  have hstar : a.toList ++ [':'] ≠ b.toList ++ [':'] ++ ['*'] := by
    intro h
    have hlast := congrArg List.getLast? h
    simp at hlast
  have hsame : a.toList ++ [':'] = b.toList ++ [':'] ↔ a = b := by
    rw [List.append_left_inj, String.toList_inj]
  rw [hsame]
  exact or_iff_right hstar

/-- The runtime's test of one parent pattern is the substrate's match. -/
theorem patternCovers_eq_matches (parent child : String) :
    patternCovers parent child = (Capability.mk parent).matches child := by
  unfold patternCovers
  by_cases hall : parent = "*"
  · rw [if_pos hall, hall]
    rfl
  by_cases hself : parent = child
  · rw [if_neg hall, if_pos hself, hself]
    exact (matches_self child).symm
  rw [if_neg hall, if_neg hself]
  obtain rfl | ⟨a, rfl⟩ | ⟨-, hpre⟩ := pattern_cases parent
  · exact absurd rfl hall
  · rw [stripSuffix_eq_some.mpr rfl]
    simp only
    cases hchild : stripSuffix child ":*" with
    | none =>
      have hends : endsWith child ":*" = false := by
        unfold stripSuffix at hchild
        split_ifs at hchild with hends
        exact Bool.eq_false_iff.mpr hends
      rw [hends]
      rfl
    | some b =>
      obtain rfl := stripSuffix_eq_some.mp hchild
      have hends : endsWith (b ++ ":*") ":*" = true := by
        unfold stripSuffix at hchild
        split_ifs at hchild with hends
        exact hends
      have hne : a ≠ b := fun h => hself (h ▸ rfl)
      have hcolon : (':' : Char).toNat ≤ 127 := by decide
      rw [hends]
      simp only [Bool.not_true, Bool.false_eq_true, if_false]
      rw [Bool.eq_iff_iff, family_matches_family, or_iff_right hne, Bool.and_eq_true,
        Bool.or_eq_true, beq_iff_eq, beq_iff_eq, or_iff_right hne.symm]
      exact startsWith_and_byteAt hcolon
  · rw [stripSuffix_eq_none.mpr hpre]
    have hexact := (matches_exact hall hpre child).not.mpr hself
    exact (Bool.eq_false_iff.mpr hexact).symm

section Checks
variable {scope : ExecutionScope} {child : List CapabilityGrant}

/-- `child_scope` succeeds exactly when the child's patterns lie in the authority of the scope. -/
theorem childScope_ok_iff_covered (childNamespace : Option String) :
    (∃ s, scope.childScope child childNamespace = .ok s) ↔
      ∀ p ∈ child.map CapabilityGrant.pattern,
        (⟨p⟩ : PatternName) ∈ (CapSet.fromPatterns scope.capabilityPatterns).authority := by
  have hcovered : ∀ p, (scope.capabilities.any fun parent => patternCovers parent.pattern p) = true ↔
      (⟨p⟩ : PatternName) ∈ (CapSet.fromPatterns scope.capabilityPatterns).authority := by
    intro p
    rw [← any_matches_iff]
    simp only [patternCovers_eq_matches, CapSet.fromPatterns, ExecutionScope.capabilityPatterns,
      List.map_map, List.any_map]
    rfl
  simp only [List.forall_mem_map, ← hcovered]
  unfold ExecutionScope.childScope
  cases hfind : child.find? fun c =>
      !scope.capabilities.any fun parent => patternCovers parent.pattern c.pattern with
  | none =>
    refine iff_of_true ⟨_, rfl⟩ ?_
    intro c hc
    have hgranted := List.find?_eq_none.mp hfind c hc
    simpa using hgranted
  | some c =>
    have hrefused := List.find?_some hfind
    have hmem := List.mem_of_find?_eq_some hfind
    refine iff_of_false ?_ ?_
    · rintro ⟨s, hs⟩
      cases hs
    · intro hall
      rw [hall c hmem] at hrefused
      cases hrefused

end Checks

/-- The runtime's `child_scope`, the substrate's `attenuate` and the engine's `validate_grant` accept
the same pairs of parent and child patterns. -/
theorem child_scope_agrees_with_attenuate (scope : ExecutionScope) (child : List CapabilityGrant)
    (childNamespace : Option String) :
    ((∃ s, scope.childScope child childNamespace = .ok s) ↔
      ∃ c, (CapSet.fromPatterns scope.capabilityPatterns).attenuate
        (child.map CapabilityGrant.pattern) = .ok c) ∧
    ((∃ s, scope.childScope child childNamespace = .ok s) ↔
      validateGrant (child.map CapabilityGrant.pattern) scope.capabilityPatterns = .ok ()) := by
  have hchild : (∃ s, scope.childScope child childNamespace = .ok s) ↔
      ∀ p ∈ child.map CapabilityGrant.pattern,
        (⟨p⟩ : PatternName) ∈ (CapSet.fromPatterns scope.capabilityPatterns).authority :=
    childScope_ok_iff_covered childNamespace
  refine ⟨?_, ?_⟩
  · rw [hchild, attenuate_ok_iff_covered]
  · rw [hchild, validateGrant_ok_iff, ← attenuate_iff_authority_le, attenuate_ok_iff_covered]

end Konf.Runtime
