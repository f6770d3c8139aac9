import Konf.Runtime.Process
import Mathlib.Data.List.Forall2

/-! # Comparing two interaction traces

Model of `konf-runtime/src/bisimulation.rs`: the comparison of two traces by the state hashes
their interactions carry, and the relation its documentation describes. -/

namespace Konf.Runtime
set_option autoImplicit false

abbrev StateHash := Vector UInt8 32

/-- The fields of an `Interaction` that the comparison and its documentation speak of. -/
structure Interaction where
  actor : Actor
  stepIndex : UInt64
  stateBeforeHash : Option StateHash
  stateAfterHash : Option StateHash
deriving DecidableEq

def Interaction.isStateful (i : Interaction) : Bool :=
  i.stateBeforeHash.isSome || i.stateAfterHash.isSome

inductive BisimulationResult
  | equivalent
  | diverged (atStep : UInt64) (reason : String)
deriving DecidableEq, Repr

/-- The loop over the zipped traces. -/
def compareHashes : List (Interaction × Interaction) → BisimulationResult
  | [] => .equivalent
  | (a, b) :: rest =>
    if a.stateBeforeHash ≠ b.stateBeforeHash then
      .diverged a.stepIndex "state_before_hash mismatch"
    else if a.stateAfterHash ≠ b.stateAfterHash then
      .diverged a.stepIndex "state_after_hash mismatch"
    else compareHashes rest

def bisimulate (traceA traceB : List Interaction) : BisimulationResult :=
  let statefulA := traceA.filter Interaction.isStateful
  let statefulB := traceB.filter Interaction.isStateful
  if statefulA.length ≠ statefulB.length then
    .diverged 0 ("different number of stateful interactions: " ++ toString statefulA.length ++
      " vs " ++ toString statefulB.length)
  else compareHashes (statefulA.zip statefulB)

/-! ## What the comparison decides -/

def SameHashes (a b : Interaction) : Prop :=
  a.stateBeforeHash = b.stateBeforeHash ∧ a.stateAfterHash = b.stateAfterHash

instance (a b : Interaction) : Decidable (SameHashes a b) :=
  inferInstanceAs (Decidable (_ ∧ _))

/-- The traces carry the same hashes, position by position. -/
def HashesAgree (traceA traceB : List Interaction) : Prop :=
  List.Forall₂ SameHashes (traceA.filter Interaction.isStateful)
    (traceB.filter Interaction.isStateful)

theorem compareHashes_zip (as bs : List Interaction) (hlen : as.length = bs.length) :
    compareHashes (as.zip bs) = .equivalent ↔ List.Forall₂ SameHashes as bs := by
  induction as generalizing bs with
  | nil =>
    have hbs : bs = [] := by simpa using hlen.symm
    simp [hbs, compareHashes]
  | cons a as ih =>
    cases bs with
    | nil => simp at hlen
    | cons b bs =>
      have hlen' : as.length = bs.length := by simpa using hlen
      rw [List.zip_cons_cons, compareHashes, List.forall₂_cons, ← ih bs hlen']
      by_cases hbefore : a.stateBeforeHash = b.stateBeforeHash
      · by_cases hafter : a.stateAfterHash = b.stateAfterHash
        · simp [SameHashes, hbefore, hafter]
        · simp [SameHashes, hbefore, hafter]
      · simp [SameHashes, hbefore]

theorem bisimulate_equivalent_iff (traceA traceB : List Interaction) :
    bisimulate traceA traceB = .equivalent ↔ HashesAgree traceA traceB := by
  unfold bisimulate
  by_cases hlen : (traceA.filter Interaction.isStateful).length =
      (traceB.filter Interaction.isStateful).length
  · rw [if_neg (not_not_intro hlen)]
    exact compareHashes_zip _ _ hlen
  · constructor
    · intro h
      simp [hlen] at h
    · intro h
      exact absurd h.length_eq hlen

theorem HashesAgree.symm {traceA traceB : List Interaction} (h : HashesAgree traceA traceB) :
    HashesAgree traceB traceA := by
  have hflip := h.flip
  exact hflip.imp fun _ _ hab => ⟨hab.1.symm, hab.2.symm⟩

theorem HashesAgree.trans {traceA traceB traceC : List Interaction}
    (hab : HashesAgree traceA traceB) (hbc : HashesAgree traceB traceC) :
    HashesAgree traceA traceC := by
  unfold HashesAgree at *
  generalize traceA.filter Interaction.isStateful = as at *
  generalize traceB.filter Interaction.isStateful = bs at *
  generalize traceC.filter Interaction.isStateful = cs at *
  induction hab generalizing cs with
  | nil => exact hbc
  | cons hhead _ ih =>
    cases hbc with
    | cons hhead' htail' =>
      exact .cons ⟨hhead.1.trans hhead'.1, hhead.2.trans hhead'.2⟩ (ih _ htail')

/-! ## The documented relation -/

/-- Consecutive interactions of one actor, with those of other actors in between. -/
def NextOfActor (trace : List Interaction) (a b : Interaction) : Prop :=
  ∃ before between after, trace = before ++ a :: between ++ b :: after ∧ a.actor = b.actor ∧
    ∀ i ∈ between, i.actor ≠ a.actor

/-- `state_after[i] == state_before[i+1]` for the same actor. -/
def ChainContinuous (trace : List Interaction) : Prop :=
  ∀ a b, NextOfActor (trace.filter Interaction.isStateful) a b →
    a.stateAfterHash = b.stateBeforeHash

def SameStep (a b : Interaction) : Prop :=
  a.stepIndex = b.stepIndex ∧ SameHashes a b

/-- The checks that the documentation of `bisimulate` lists. -/
structure Bisimilar (traceA traceB : List Interaction) : Prop where
  samePairs : List.Forall₂ SameStep (traceA.filter Interaction.isStateful)
    (traceB.filter Interaction.isStateful)
  continuousA : ChainContinuous traceA
  continuousB : ChainContinuous traceB

def StepsAgree (traceA traceB : List Interaction) : Prop :=
  (traceA.filter Interaction.isStateful).map Interaction.stepIndex =
    (traceB.filter Interaction.isStateful).map Interaction.stepIndex

theorem forall₂_sameStep_iff (as bs : List Interaction) :
    List.Forall₂ SameStep as bs ↔
      List.Forall₂ SameHashes as bs ∧ as.map Interaction.stepIndex = bs.map Interaction.stepIndex := by
  induction as generalizing bs with
  | nil => cases bs <;> simp
  | cons a as ih =>
    cases bs with
    | nil => simp
    | cons b bs =>
      rw [List.forall₂_cons, List.forall₂_cons, ih bs, List.map_cons, List.map_cons,
        List.cons.injEq, SameStep]
      tauto

theorem bisimilar_iff (traceA traceB : List Interaction) :
    Bisimilar traceA traceB ↔ HashesAgree traceA traceB ∧ StepsAgree traceA traceB ∧
      ChainContinuous traceA ∧ ChainContinuous traceB := by
  constructor
  · intro h
    obtain ⟨hhashes, hsteps⟩ := (forall₂_sameStep_iff _ _).mp h.samePairs
    exact ⟨hhashes, hsteps, h.continuousA, h.continuousB⟩
  · intro h
    obtain ⟨hhashes, hsteps, hcontA, hcontB⟩ := h
    exact ⟨(forall₂_sameStep_iff _ _).mpr ⟨hhashes, hsteps⟩, hcontA, hcontB⟩

/-- The verdict is an equivalence of hash sequences. It is the documented relation on a pair of
traces unless their hashes agree while their steps differ or a chain is broken. -/
theorem bisimulate_decides_documented_relation (traceA traceB traceC : List Interaction) :
    ((bisimulate traceA traceB = .equivalent ↔ Bisimilar traceA traceB) ↔
      (HashesAgree traceA traceB →
        StepsAgree traceA traceB ∧ ChainContinuous traceA ∧ ChainContinuous traceB)) ∧
    (bisimulate traceA traceB = .equivalent → bisimulate traceB traceA = .equivalent) ∧
    (bisimulate traceA traceB = .equivalent → bisimulate traceB traceC = .equivalent →
      bisimulate traceA traceC = .equivalent) := by
  refine ⟨?_, ?_, ?_⟩
  · rw [bisimulate_equivalent_iff, bisimilar_iff]
    tauto
  · intro h
    rw [bisimulate_equivalent_iff] at *
    exact h.symm
  · intro hab hbc
    rw [bisimulate_equivalent_iff] at *
    exact hab.trans hbc

/-- A one-step trace of a user whose state hash goes from `before` to `after`. -/
def hashStep (step : UInt64) (before after : UInt8) : Interaction where
  actor := ⟨"test", .user⟩
  stepIndex := step
  stateBeforeHash := some (Vector.replicate 32 before)
  stateAfterHash := some (Vector.replicate 32 after)

/-- Steps 0 and 5 count as the same step, and a chain broken in the middle is equivalent to
itself. -/
theorem bisimulate_certifies_other_step_and_broken_chain :
    (bisimulate [hashStep 0 1 2] [hashStep 5 1 2] = .equivalent ∧
      ¬ Bisimilar [hashStep 0 1 2] [hashStep 5 1 2]) ∧
    (bisimulate [hashStep 0 1 2, hashStep 1 3 4] [hashStep 0 1 2, hashStep 1 3 4] = .equivalent ∧
      ¬ Bisimilar [hashStep 0 1 2, hashStep 1 3 4] [hashStep 0 1 2, hashStep 1 3 4]) := by
  refine ⟨⟨by decide, ?_⟩, by decide, ?_⟩
  · intro h
    have hsteps := (bisimilar_iff _ _).mp h
    exact absurd hsteps.2.1 (by unfold StepsAgree; decide)
  · intro h
    have hnext : NextOfActor [hashStep 0 1 2, hashStep 1 3 4] (hashStep 0 1 2) (hashStep 1 3 4) :=
      ⟨[], [], [], rfl, rfl, by simp⟩
    exact absurd (h.continuousA _ _ hnext) (by decide)

end Konf.Runtime
