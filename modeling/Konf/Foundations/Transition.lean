import Mathlib.Logic.Basic

/-! # Labelled transition systems

Runs of a labelled step relation, the invariant rule, and the bridge from an executable step
function to the relation. A condition on steps (`ok`) restricts which runs are considered: a
result about `ReachesBy step ok init` is about every run whose steps all meet the condition. -/

namespace Konf.Transition
set_option autoImplicit false

variable {σ ℓ : Type} {step : σ → ℓ → σ → Prop} {ok ok' : σ → ℓ → Prop} {init : σ → Prop}

/-- The states reached by runs whose steps all satisfy `ok`. -/
inductive ReachesBy (step : σ → ℓ → σ → Prop) (ok : σ → ℓ → Prop) (init : σ → Prop) : σ → Prop
  | start {s : σ} (h : init s) : ReachesBy step ok init s
  | tail {s s' : σ} {a : ℓ} (h : ReachesBy step ok init s) (hok : ok s a) (hs : step s a s') :
      ReachesBy step ok init s'

/-- The states reached by any run. -/
def Reaches (step : σ → ℓ → σ → Prop) (init : σ → Prop) : σ → Prop :=
  ReachesBy step (fun _ _ => True) init

theorem ReachesBy.mono (hok : ∀ s a, ok s a → ok' s a) {s : σ} (h : ReachesBy step ok init s) :
    ReachesBy step ok' init s := by
  induction h with
  | start h => exact .start h
  | tail _ hk hs ih => exact .tail ih (hok _ _ hk) hs

theorem ReachesBy.reaches {s : σ} (h : ReachesBy step ok init s) : Reaches step init s :=
  h.mono fun _ _ _ => trivial

/-- The invariant rule: what holds initially and is kept by every permitted step holds in every
reached state. The step case may use that its source is itself reached. -/
theorem ReachesBy.invariant {Inv : σ → Prop} (h0 : ∀ s, init s → Inv s)
    (hstep : ∀ s a s', ReachesBy step ok init s → Inv s → ok s a → step s a s' → Inv s')
    {s : σ} (h : ReachesBy step ok init s) : Inv s := by
  induction h with
  | start h => exact h0 _ h
  | tail h hk hs ih => exact hstep _ _ _ h ih hk hs

theorem Reaches.invariant {Inv : σ → Prop} (h0 : ∀ s, init s → Inv s)
    (hstep : ∀ s a s', Reaches step init s → Inv s → step s a s' → Inv s')
    {s : σ} (h : Reaches step init s) : Inv s :=
  ReachesBy.invariant h0 (fun s a s' hr hi _ hs => hstep s a s' hr hi hs) h

/-! ## Paths -/

/-- The runs that end in a state, with the states they have passed through, oldest first. -/
inductive Path (step : σ → ℓ → σ → Prop) (init : σ → Prop) : List σ → σ → Prop
  | start {s : σ} (h : init s) : Path step init [] s
  | tail {ss : List σ} {s s' : σ} {a : ℓ} (h : Path step init ss s) (hs : step s a s') :
      Path step init (ss ++ [s]) s'

theorem Path.reaches {ss : List σ} {s : σ} (h : Path step init ss s) : Reaches step init s := by
  induction h with
  | start h => exact .start h
  | tail _ hs ih => exact ih.tail trivial hs

/-- What relates each state to the next one, and is transitive, relates each state to all later ones. -/
theorem Path.pairwise {R : σ → σ → Prop} (htrans : ∀ a b c, R a b → R b c → R a c)
    (hstep : ∀ s a s', Reaches step init s → step s a s' → R s s') {ss : List σ} {s : σ}
    (h : Path step init ss s) : (ss ++ [s]).Pairwise R := by
  induction h with
  | start h => exact List.pairwise_singleton _ _
  | @tail ss s s' a h hs ih =>
    have hlast := hstep s a s' h.reaches hs
    rw [List.pairwise_append]
    refine ⟨ih, List.pairwise_singleton _ _, ?_⟩
    intro x hx y hy
    rw [List.mem_singleton] at hy
    subst hy
    obtain hx | hx := List.mem_append.mp hx
    · have hxs := (List.pairwise_append.mp ih).2.2 x hx s (List.mem_singleton_self s)
      exact htrans x s _ hxs hlast
    · rw [List.mem_singleton] at hx
      exact hx ▸ hlast

theorem Path.mem_reaches {ss : List σ} {s : σ} (h : Path step init ss s) :
    ∀ x ∈ ss ++ [s], Reaches step init x := by
  induction h with
  | start h =>
    intro x hx
    rw [List.nil_append, List.mem_singleton] at hx
    exact hx ▸ .start h
  | tail h hs ih =>
    intro x hx
    obtain hx | hx := List.mem_append.mp hx
    · exact ih x hx
    · rw [List.mem_singleton] at hx
      exact hx ▸ h.reaches.tail trivial hs

/-! ## Executable runs -/

/-- Run a list of choices through a step function. -/
def exec (apply : σ → ℓ → Option σ) : σ → List ℓ → Option σ
  | s, [] => some s
  | s, a :: as => (apply s a).bind fun s' => exec apply s' as

theorem exec_append {apply : σ → ℓ → Option σ} {as bs : List ℓ} {s s' s'' : σ}
    (h : exec apply s as = some s') (h' : exec apply s' bs = some s'') :
    exec apply s (as ++ bs) = some s'' := by
  induction as generalizing s with
  | nil =>
    rw [exec, Option.some.injEq] at h
    exact h ▸ h'
  | cons a as ih =>
    rw [exec, Option.bind_eq_some_iff] at h
    obtain ⟨s₁, h₁, h₂⟩ := h
    rw [List.cons_append, exec, h₁, Option.bind_some]
    exact ih h₂

/-- A run that an executable step function accepts, each step meeting the condition, is a run of
the relation. -/
theorem exec_reachesBy {apply : σ → ℓ → Option σ}
    (happly : ∀ s a s', apply s a = some s' → ok s a ∧ step s a s') {as : List ℓ} {s s' : σ}
    (hs : ReachesBy step ok init s) (h : exec apply s as = some s') :
    ReachesBy step ok init s' := by
  induction as generalizing s with
  | nil =>
    rw [exec, Option.some.injEq] at h
    exact h ▸ hs
  | cons a as ih =>
    rw [exec, Option.bind_eq_some_iff] at h
    obtain ⟨s₁, h₁, h₂⟩ := h
    obtain ⟨hok, hstep⟩ := happly _ _ _ h₁
    exact ih (hs.tail hok hstep) h₂

/-- The same for a step function that is tried only where the condition holds. -/
theorem exec_guarded_reachesBy [∀ s a, Decidable (ok s a)] {apply : σ → ℓ → Option σ}
    (happly : ∀ s a s', apply s a = some s' → step s a s') {as : List ℓ} {s s' : σ}
    (hs : ReachesBy step ok init s)
    (h : exec (fun s a => if ok s a then apply s a else none) s as = some s') :
    ReachesBy step ok init s' := by
  refine exec_reachesBy ?_ hs h
  intro s a s' hguard
  by_cases hok : ok s a
  · rw [if_pos hok] at hguard
    exact ⟨hok, happly s a s' hguard⟩
  · rw [if_neg hok] at hguard
    cases hguard

theorem exec_reaches {apply : σ → ℓ → Option σ}
    (happly : ∀ s a s', apply s a = some s' → step s a s') {as : List ℓ} {s s' : σ}
    (hs : Reaches step init s) (h : exec apply s as = some s') : Reaches step init s' :=
  exec_reachesBy (fun s a s' ha => ⟨trivial, happly s a s' ha⟩) hs h

/-- The projection rule: a step that is seen as a step of another system, or not seen at all, is one
there, and so is a run. -/
theorem exec_project {τ κ : Type} {apply : σ → ℓ → Option σ} {apply' : τ → κ → Option τ}
    {view : ℓ → Option κ} {ok : ℓ → Prop} {R : σ → τ → Prop}
    (hstep : ∀ s a s' t, R s t → ok a → apply s a = some s' →
      ∃ t', exec apply' t (view a).toList = some t' ∧ R s' t')
    {as : List ℓ} (hok : ∀ a ∈ as, ok a) {s s' : σ} {t : τ} (hR : R s t)
    (h : exec apply s as = some s') : ∃ t', exec apply' t (as.filterMap view) = some t' ∧ R s' t' := by
  induction as generalizing s t with
  | nil =>
    rw [exec, Option.some.injEq] at h
    exact ⟨t, rfl, h ▸ hR⟩
  | cons a as ih =>
    rw [exec, Option.bind_eq_some_iff] at h
    obtain ⟨s₁, h₁, hrest⟩ := h
    obtain ⟨t₁, ht₁, hR₁⟩ := hstep s a s₁ t hR (hok a List.mem_cons_self) h₁
    obtain ⟨t', ht', hR'⟩ := ih (fun b hb => hok b (List.mem_cons_of_mem _ hb)) hR₁ hrest
    refine ⟨t', ?_, hR'⟩
    cases hview : view a with
    | none =>
      rw [hview, Option.toList_none, exec, Option.some.injEq] at ht₁
      rw [List.filterMap_cons_none hview, ht₁]
      exact ht'
    | some b =>
      rw [hview, Option.toList_some, exec, Option.bind_eq_some_iff] at ht₁
      obtain ⟨t₂, ht₂, heq⟩ := ht₁
      rw [exec, Option.some.injEq] at heq
      rw [List.filterMap_cons_some hview, exec, ht₂, Option.bind_some, heq]
      exact ht'

end Konf.Transition
