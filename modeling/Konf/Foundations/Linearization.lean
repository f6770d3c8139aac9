import Mathlib.Data.List.Basic
import Mathlib.Data.List.Perm.Basic

/-! # Linearizable histories

Calls that overlap in time, and an order of them that a sequential specification explains. A call is
stamped when it is invoked and when it returns. -/

namespace Konf.Linearization
set_option autoImplicit false

variable {σ ι : Type}

structure Completed (ι : Type) where
  op : ι
  invoked : ℕ
  returned : ℕ

/-- The first call had returned when the second was invoked. -/
def Precedes (a b : Completed ι) : Prop := a.returned < b.invoked

/-- The operations happen one after the other, as the specification allows. -/
inductive Sequential (spec : σ → ι → σ → Prop) : σ → List ι → σ → Prop
  | nil (s : σ) : Sequential spec s [] s
  | cons {s s' s'' : σ} {op : ι} {ops : List ι} (h : spec s op s')
      (hrest : Sequential spec s' ops s'') : Sequential spec s (op :: ops) s''

/-- Some order of the calls, in which none comes before one that had returned when it was invoked, is
sequential. -/
def Linearizable (spec : σ → ι → σ → Prop) (s₀ : σ) (history : List (Completed ι)) : Prop :=
  ∃ (order : List (Completed ι)) (final : σ), order.Perm history ∧
    order.Pairwise (fun a b => ¬ Precedes b a) ∧ Sequential spec s₀ (order.map Completed.op) final

section Sequences
variable {spec : σ → ι → σ → Prop} {s s' : σ} {ops ops' : List ι}

theorem Sequential.append (h : Sequential spec s ops s') {s'' : σ}
    (h' : Sequential spec s' ops' s'') : Sequential spec s (ops ++ ops') s'' := by
  induction h with
  | nil s => exact h'
  | cons hop _ ih => exact .cons hop (ih h')

theorem Sequential.concat (h : Sequential spec s ops s') {s'' : σ} {op : ι} (hop : spec s' op s'') :
    Sequential spec s (ops ++ [op]) s'' := h.append (.cons hop (.nil _))

theorem Sequential.of_append (h : Sequential spec s (ops ++ ops') s') :
    ∃ t, Sequential spec s ops t ∧ Sequential spec t ops' s' := by
  induction ops generalizing s with
  | nil => exact ⟨s, .nil s, h⟩
  | cons op ops ih =>
    cases h with
    | cons hop hrest =>
      obtain ⟨t, hfirst, hsecond⟩ := ih hrest
      exact ⟨t, .cons hop hfirst, hsecond⟩

/-- What every operation of a sequence keeps holds after it. -/
theorem Sequential.invariant {P : σ → Prop} (h : Sequential spec s ops s')
    (hkeep : ∀ op ∈ ops, ∀ t t', P t → spec t op t' → P t') (hs : P s) : P s' := by
  induction h with
  | nil s => exact hs
  | cons hop _ ih =>
    refine ih (fun op hmem => hkeep op (List.mem_cons_of_mem _ hmem)) ?_
    exact hkeep _ List.mem_cons_self _ _ hs hop

end Sequences

section Histories
variable {spec : σ → ι → σ → Prop} {s₀ : σ} {history : List (Completed ι)}

/-- The calls are listed in the order of their returns, all before `now`. -/
structure Stamped (history : List (Completed ι)) (now : ℕ) : Prop where
  returned : ∀ c ∈ history, c.invoked ≤ c.returned ∧ c.returned < now
  ordered : history.Pairwise fun a b => a.returned < b.returned

theorem Stamped.nil (now : ℕ) : Stamped ([] : List (Completed ι)) now := ⟨by simp, .nil⟩

theorem Stamped.mono {now now' : ℕ} (h : Stamped history now) (hle : now ≤ now') :
    Stamped history now' :=
  ⟨fun c hc => ⟨(h.returned c hc).1, Nat.lt_of_lt_of_le (h.returned c hc).2 hle⟩, h.ordered⟩

theorem Stamped.concat {now : ℕ} (h : Stamped history now) {c : Completed ι}
    (hc : c.invoked ≤ c.returned) (hnow : c.returned = now) : Stamped (history ++ [c]) (now + 1) := by
  refine ⟨?_, List.pairwise_append.mpr ⟨h.ordered, List.pairwise_singleton _ _, ?_⟩⟩
  · intro d hd
    obtain hd | hd := List.mem_append.mp hd
    · exact (h.mono (Nat.le_succ now)).returned d hd
    · rw [List.mem_singleton] at hd
      subst hd
      exact ⟨hc, by omega⟩
  · intro a ha b hb
    rw [List.mem_singleton] at hb
    subst hb
    exact hnow ▸ (h.returned a ha).2

/-- A history that takes effect at the returns is linearizable. -/
theorem Stamped.linearizable {now : ℕ} (h : Stamped history now) {s : σ}
    (hseq : Sequential spec s₀ (history.map Completed.op) s) : Linearizable spec s₀ history := by
  refine ⟨history, s, .refl _, ?_, hseq⟩
  refine h.ordered.imp_of_mem ?_
  intro a b ha hb hlt hprecedes
  have hinvoked := (h.returned a ha).1
  unfold Precedes at hprecedes
  omega

/-- A property that one call brings about and no call takes away holds when a later call happens. -/
theorem Linearizable.holds_at (h : Linearizable spec s₀ history) {a b : Completed ι}
    (ha : a ∈ history) (hb : b ∈ history) (hne : b ≠ a) (hab : Precedes a b) {P : σ → Prop}
    (hmake : ∀ s s', spec s a.op s' → P s')
    (hkeep : ∀ c ∈ history, ∀ s s', P s → spec s c.op s' → P s') :
    ∃ s s', P s ∧ spec s b.op s' := by
  obtain ⟨order, final, hperm, hpairwise, hseq⟩ := h
  obtain ⟨pre, rest, rfl⟩ := List.append_of_mem (hperm.mem_iff.mpr ha)
  have hbrest : b ∈ rest := by
    obtain hpre | hcons := List.mem_append.mp (hperm.mem_iff.mpr hb)
    · exact absurd hab ((List.pairwise_append.mp hpairwise).2.2 b hpre a List.mem_cons_self)
    · exact (List.mem_cons.mp hcons).resolve_left hne
  obtain ⟨mid, post, rfl⟩ := List.append_of_mem hbrest
  rw [List.map_append, List.map_cons, List.map_append, List.map_cons] at hseq
  obtain ⟨s₁, -, h₁⟩ := hseq.of_append
  cases h₁ with
  | cons hmade h₂ =>
    obtain ⟨s₂, hmid, h₃⟩ := h₂.of_append
    have hP : P s₂ := by
      refine hmid.invariant ?_ (hmake _ _ hmade)
      intro op hop t t' ht hspec
      obtain ⟨c, hc, rfl⟩ := List.mem_map.mp hop
      exact hkeep c (hperm.mem_iff.mp (by simp [hc])) t t' ht hspec
    cases h₃ with
    | cons hspec _ => exact ⟨s₂, _, hP, hspec⟩

end Histories
end Konf.Linearization
