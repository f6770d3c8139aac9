import Konf.Runtime.Nesting

/-! # The quota of a namespace under concurrent starts

`Runtime::start` and `start_streaming` ask `validate_start` for a place in the namespace and insert
the run afterwards, as two actions on a concurrent map. Any number of calls can stand between the
two, each of them with a count that the others do not know of. The quota holds as long as a call
still finds room when it inserts. -/

namespace Konf.Runtime
open Konf.Substrate Konf.Text Konf.Transition
set_option autoImplicit false

/-! ## Counting the runs of one namespace -/

/-- A run of exactly this namespace, in status `Running`. -/
def WorkflowRun.runsIn (namespace_ : String) (run : WorkflowRun) : Bool :=
  run.status.isRunning && run.namespace_ == namespace_

def ProcessTable.runningIn (table : ProcessTable) (namespace_ : String) : ℕ :=
  table.entries.countP fun e => e.2.runsIn namespace_

/-- `update`, as the end of a run uses it. -/
def ProcessTable.setStatus (table : ProcessTable) (id : RunId) (status : RunStatus) : ProcessTable :=
  match table.lookup id with
  | some run => table.insert id { run with status := status }
  | none => table

section Counts
variable {table : ProcessTable} {n : String}

theorem runningIn_le_active : table.runningIn n ≤ table.activeCountInNamespace n := by
  refine List.countP_mono_left ?_
  intro e _ he
  rw [WorkflowRun.runsIn, Bool.and_eq_true, beq_iff_eq] at he
  rw [ProcessTable.activeIn, Bool.and_eq_true, startsWith_iff, he.2]
  exact ⟨he.1, List.prefix_refl _⟩

theorem runningIn_insertRun {run : WorkflowRun} (hfresh : run.id ∉ table) :
    (table.insertRun run).runningIn n = table.runningIn n + (run.runsIn n).toNat := by
  unfold ProcessTable.insertRun ProcessTable.runningIn
  rw [AList.entries_insert_of_notMem hfresh, List.countP_cons]
  cases run.runsIn n <;> rfl

theorem runningIn_setStatus_le (id : RunId) {status : RunStatus} (h : status.isTerminal = true) :
    (table.setStatus id status).runningIn n ≤ table.runningIn n := by
  unfold ProcessTable.setStatus
  split
  · rename_i run hrun
    have hended : WorkflowRun.runsIn n { run with status := status } = false := by
      unfold WorkflowRun.runsIn
      cases status with
      | pending => rfl
      | running => cases h
      | completed output | failed error | cancelled reason => rfl
    unfold ProcessTable.runningIn
    rw [AList.entries_insert, List.countP_cons, if_neg (by simp [hended]), Nat.add_zero]
    exact (List.kerase_sublist ..).countP_le
  · exact Nat.le_refl _

theorem runningIn_newRun {id : RunId} (scope : ExecutionScope) (wf : Workflow) (hfresh : id ∉ table) :
    (table.insertRun (newRun id scope wf)).runningIn n =
      table.runningIn n + (scope.namespace_ == n).toNat :=
  runningIn_insertRun hfresh

end Counts

/-! ## Calls between their check and their insert -/

/-- A call of `start` or `start_streaming` that has passed `validate_start` and has not inserted its
run. `undisturbed` is a ghost: no other call of the namespace has inserted since the check. -/
structure Starter where
  scope : ExecutionScope
  workflow : Workflow
  undisturbed : Bool

def Starter.overtaken (namespace_ : String) (c : Starter) : Starter :=
  { c with undisturbed := c.undisturbed && !(c.scope.namespace_ == namespace_) }

structure Starts where
  table : ProcessTable
  starters : List Starter

inductive StartMove
  | validate (scope : ExecutionScope)
  | insert (starter : Starter)
  | finish (id : RunId)

/-- Calls from any scopes, those of namespace `n` with the limit `k`. A call that `validate_start`
refuses changes nothing, and a run id is new. -/
inductive StartStep (n : String) (k : ℕ) (s : Starts) : StartMove → Starts → Prop
  | validate (scope : ExecutionScope) (workflow : Workflow)
      (hlimit : scope.namespace_ = n → scope.limits.maxActiveRunsPerNamespace = k)
      (hok : scope.validateStart s.table = .ok ()) :
      StartStep n k s (.validate scope)
        { s with starters := ⟨scope, workflow, true⟩ :: s.starters }
  | insert (pre post : List Starter) (c : Starter) (id : RunId) (h : s.starters = pre ++ c :: post)
      (hfresh : id ∉ s.table) :
      StartStep n k s (.insert c)
        { table := s.table.insertRun (newRun id c.scope c.workflow)
          starters := (pre ++ post).map (Starter.overtaken c.scope.namespace_) }
  | finish (id : RunId) (status : RunStatus) (h : status.isTerminal = true) :
      StartStep n k s (.finish id) { s with table := s.table.setStatus id status }

def Starts.Boot (s : Starts) : Prop := s.table = ∅ ∧ s.starters = []

def Starts.Within (n : String) (k : ℕ) (s : Starts) : Prop := s.table.runningIn n ≤ k

/-- The place that the check has seen is still there when the call inserts. -/
def Starts.HasRoom (n : String) (k : ℕ) (s : Starts) : StartMove → Prop
  | .insert c => c.scope.namespace_ = n → s.table.runningIn n < k
  | _ => True

def Starts.Undisturbed (n : String) (_ : Starts) : StartMove → Prop
  | .insert c => c.scope.namespace_ = n → c.undisturbed = true
  | _ => True

section Steps
variable {n : String} {k : ℕ} {s s' : Starts} {a : StartMove}

/-- What a step does to the count: an insert of the namespace adds one, nothing else adds any. -/
theorem StartStep.runningIn_le (hs : StartStep n k s a s') :
    s'.table.runningIn n ≤ s.table.runningIn n ∨
      ∃ c, a = .insert c ∧ c.scope.namespace_ = n ∧
        s'.table.runningIn n = s.table.runningIn n + 1 := by
  cases hs with
  | validate scope workflow hlimit hok => exact .inl (Nat.le_refl _)
  | insert pre post c id h hfresh =>
    have hcount := runningIn_newRun (n := n) c.scope c.workflow hfresh
    by_cases hns : c.scope.namespace_ = n
    · refine .inr ⟨c, rfl, hns, ?_⟩
      rw [hcount, beq_iff_eq.mpr hns]
      rfl
    · have hother : (c.scope.namespace_ == n) = false := beq_eq_false_iff_ne.mpr hns
      rw [hother] at hcount
      exact .inl (Nat.le_of_eq hcount)
  | finish id status h => exact .inl (runningIn_setStatus_le id h)

theorem Starts.Within.step (h : s.Within n k) (hok : s.HasRoom n k a)
    (hs : StartStep n k s a s') : s'.Within n k := by
  obtain hle | ⟨c, rfl, hns, hadd⟩ := hs.runningIn_le
  · exact hle.trans h
  · rw [Starts.Within, hadd]
    exact hok hns

theorem Starts.Boot.within (h : s.Boot) : s.Within n k := by
  rw [Starts.Within, h.1]
  exact Nat.zero_le k

/-- A call that nobody has overtaken still has the place that its check has seen. -/
def Starts.Reserved (n : String) (k : ℕ) (s : Starts) : Prop :=
  ∀ c ∈ s.starters, c.undisturbed = true → c.scope.namespace_ = n → s.table.runningIn n < k

theorem validateStart_room {scope : ExecutionScope} {table : ProcessTable}
    (h : scope.validateStart table = .ok ()) :
    table.activeCountInNamespace scope.namespace_ < scope.limits.maxActiveRunsPerNamespace := by
  unfold ExecutionScope.validateStart at h
  split_ifs at h with hfull hdepth
  exact Nat.lt_of_not_le hfull

theorem Starts.Reserved.step (h : s.Reserved n k) (hs : StartStep n k s a s') : s'.Reserved n k := by
  intro c hc hundisturbed hns
  cases hs with
  | validate scope workflow hlimit hok =>
    obtain rfl | hc := List.mem_cons.mp hc
    · change scope.namespace_ = n at hns
      have hroom := validateStart_room hok
      rw [hlimit hns, hns] at hroom
      exact runningIn_le_active.trans_lt hroom
    · exact h c hc hundisturbed hns
  | insert pre post d id hd hfresh =>
    obtain ⟨old, hold, rfl⟩ := List.mem_map.mp hc
    change (old.undisturbed && !(old.scope.namespace_ == d.scope.namespace_)) = true at hundisturbed
    change old.scope.namespace_ = n at hns
    rw [Bool.and_eq_true, Bool.not_eq_true', beq_eq_false_iff_ne, hns] at hundisturbed
    have hother : (d.scope.namespace_ == n) = false := beq_eq_false_iff_ne.mpr hundisturbed.2.symm
    have hmem : old ∈ s.starters := by
      rw [hd]
      obtain hold | hold := List.mem_append.mp hold
      · exact List.mem_append_left _ hold
      · exact List.mem_append_right _ (List.mem_cons_of_mem _ hold)
    have hcount := runningIn_newRun (n := n) d.scope d.workflow hfresh
    rw [hother] at hcount
    exact (Nat.le_of_eq hcount).trans_lt (h old hmem hundisturbed.1 hns)
  | finish id status hterminal =>
    exact (runningIn_setStatus_le id hterminal).trans_lt (h c hc hundisturbed hns)

theorem Starts.Boot.reserved (h : s.Boot) : s.Reserved n k := by
  intro c hc
  rw [h.2] at hc
  cases hc

theorem Starts.reaches_reserved (h : Reaches (StartStep n k) Starts.Boot s) : s.Reserved n k :=
  Reaches.invariant (fun _ hs => hs.reserved) (fun _ _ _ _ hs hstep => hs.step hstep) h

theorem Starts.Reserved.hasRoom (h : s.Reserved n k) (hs : StartStep n k s a s')
    (hok : s.Undisturbed n a) : s.HasRoom n k a := by
  cases hs with
  | insert pre post c id hc hfresh =>
    intro hns
    have hmem : c ∈ s.starters := by
      rw [hc]
      exact List.mem_append_right _ (List.mem_cons_self ..)
    exact h c hmem (hok hns) hns
  | validate _ _ _ _ | finish _ _ _ => trivial

end Steps

/-- The quota `k` of namespace `n` holds in every run of concurrent starts and completions where no call
of the namespace inserts between another's check and insert, because then the place that the check saw is
still there. More generally it holds in every run whose inserts find room, and an insert that finds no
room breaks it at once. -/
theorem quota_kept_when_undisturbed (n : String) (k : ℕ) :
    (∀ s, ReachesBy (StartStep n k) (Starts.Undisturbed n) Starts.Boot s → s.Within n k) ∧
    (∀ s, ReachesBy (StartStep n k) (Starts.HasRoom n k) Starts.Boot s → s.Within n k) ∧
    ∀ s a s', Reaches (StartStep n k) Starts.Boot s → StartStep n k s a s' →
      ¬ s.HasRoom n k a → ¬ s'.Within n k := by
  refine ⟨?_, ?_, ?_⟩
  · intro s h
    refine ReachesBy.invariant (fun _ hs => hs.within) ?_ h
    intro s a s' hreach hs hok hstep
    exact hs.step ((Starts.reaches_reserved hreach.reaches).hasRoom hstep hok) hstep
  · intro s h
    exact ReachesBy.invariant (fun _ hs => hs.within)
      (fun _ _ _ _ hs hok hstep => hs.step hok hstep) h
  · intro s a s' _ hstep hfull
    cases hstep with
    | insert pre post c id hc hfresh =>
      unfold Starts.HasRoom at hfull
      push Not at hfull
      obtain ⟨hns, hfull⟩ := hfull
      have hcount := runningIn_newRun (n := n) c.scope c.workflow hfresh
      rw [beq_iff_eq.mpr hns] at hcount
      rw [Starts.Within, hcount]
      exact Nat.not_le_of_lt (Nat.lt_succ_of_le hfull)
    | validate _ _ _ _ | finish _ _ _ => exact absurd trivial hfull

/-! ## A namespace with one place -/

def oneRunScope : ExecutionScope :=
  { demoScope [.new "echo"] with
    limits := { ResourceLimits.default with maxActiveRunsPerNamespace := 1 } }

/-- One run after the other: the place that the first gives back goes to the second. -/
theorem quota_place_reused : ∃ s,
    ReachesBy (StartStep oneRunScope.namespace_ 1) (Starts.Undisturbed oneRunScope.namespace_)
      Starts.Boot s ∧
    s.table.keys = [2, 1] ∧ s.table.runningIn oneRunScope.namespace_ = 1 ∧
    s.Within oneRunScope.namespace_ 1 := by
  have hstart : ReachesBy (StartStep oneRunScope.namespace_ 1)
      (Starts.Undisturbed oneRunScope.namespace_) Starts.Boot ⟨∅, []⟩ := .start ⟨rfl, rfl⟩
  have hfirst := hstart.tail (a := StartMove.validate oneRunScope) trivial
    (.validate oneRunScope loopWf (fun _ => rfl) rfl)
  have hone := hfirst.tail (a := StartMove.insert ⟨oneRunScope, loopWf, true⟩) (fun _ => rfl)
    (.insert [] [] _ 1 rfl (by decide))
  have hended := hone.tail (a := StartMove.finish 1) trivial (.finish 1 (.cancelled "done") rfl)
  have hsecond := hended.tail (a := StartMove.validate oneRunScope) trivial
    (.validate oneRunScope loopWf (fun _ => rfl) rfl)
  have htwo := hsecond.tail (a := StartMove.insert ⟨oneRunScope, loopWf, true⟩)
    (fun _ => rfl) (.insert [] [] _ 2 rfl (by decide))
  exact ⟨_, htwo, rfl, rfl, (quota_kept_when_undisturbed _ _).1 _ htwo⟩

/-- Two calls that both check before either inserts: two runs where one is allowed. -/
theorem quota_overrun : ∃ s, Reaches (StartStep oneRunScope.namespace_ 1) Starts.Boot s ∧
    ¬ s.Within oneRunScope.namespace_ 1 := by
  have hstart : Reaches (StartStep oneRunScope.namespace_ 1) Starts.Boot ⟨∅, []⟩ :=
    .start ⟨rfl, rfl⟩
  have hfirst := hstart.tail trivial (.validate oneRunScope loopWf (fun _ => rfl) rfl)
  have hboth := hfirst.tail trivial (.validate oneRunScope loopWf (fun _ => rfl) rfl)
  have hone := hboth.tail trivial (.insert [] [⟨oneRunScope, loopWf, true⟩] _ 1 rfl (by decide))
  have htwo := hone.tail trivial (.insert [] [] _ 2 rfl (by decide))
  refine ⟨_, htwo, ?_⟩
  change ¬ 2 ≤ 1
  decide

end Konf.Runtime
