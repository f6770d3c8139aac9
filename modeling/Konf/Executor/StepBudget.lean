import Mathlib.Algebra.Order.BigOperators.Group.List
import Mathlib.Algebra.Order.Group.Nat
import Konf.Executor.Accounting
import Konf.Executor.AtMostOnce

/-! # The step budget

`max_steps` is compared with the steps of the tasks that have been joined, and the loop stops when
these are more. A task counts its own steps while it runs and reports them when it ends, so what the
main loop knows lags behind: a chain of steps or a `repeat` goes on in one task without any comparison,
and a task is spawned while steps that have ended are not joined, or exactly `max_steps` are.

The calls of `execute_step` are counted in the trace. While nothing has failed they are the steps
joined, the steps that running tasks have ended, and the steps in flight. A failed or aborted task
takes its count with it. -/

namespace Konf.Executor
open Konf.Substrate Konf.Parser Konf.Transition
set_option autoImplicit false

/-! ## Counting -/

def Event.isCall : Event → Bool
  | .began _ _ _ => true
  | _ => false

def Event.isCallOf (i : ℕ) : Event → Bool
  | .began _ j _ => j == i
  | _ => false

def State.callsMade (s : State) : ℕ := s.trace.countP Event.isCall

/-- The calls of one task: its chain of steps, with their repetitions. -/
def State.callsOf (s : State) (i : ℕ) : ℕ := s.trace.countP (Event.isCallOf i)

def TaskPc.inFlight : TaskPc → ℕ
  | .readOutputs | .executing _ => 1
  | _ => 0

def State.inFlight (s : State) : ℕ := (s.tasks.map fun t => t.pc.inFlight).sum

/-- The steps that a task has ended. -/
def Task.ended (t : Task) : ℕ := t.stepsExecuted - t.pc.unfinished

/-- The steps joined, and those that the running tasks will report. -/
def State.counted (s : State) : ℕ := s.stepsCount + (s.tasks.map Task.ended).sum

def callsBy (env : ExecutorEnv) (s : State) (c : Choice env.Answer) : ℕ :=
  (emitted env s c).toList.countP Event.isCall

instance : DecidablePred MainPc.Running
  | .shutdown _ | .returned (.error _) => .isFalse id
  | .select | .scan _ | .checkDeps _ _ _ _ | .exitTest | .returned (.ok _) => .isTrue trivial

/-- The steps that have ended: by the counters, or, when these have lost the steps of a failed task,
by the calls that have returned or been aborted. -/
def State.spent (s : State) : ℕ :=
  if s.main.Running then s.counted else s.callsMade - s.inFlight

/-- The choice begins a step in a task that has begun one before: the chain of the task goes on, or a
step is repeated. -/
def furtherCall (env : ExecutorEnv) (s : State) (c : Choice env.Answer) : Bool :=
  (emitted env s c).any fun
    | .began _ i _ => 0 < s.callsOf i
    | _ => false

/-- A task goes on to a further step only while fewer than `max_steps` have ended, and no task is
spawned when that many have ended without the check having seen more of them. -/
def BudgetWatched (env : ExecutorEnv) (s : State) (c : Choice env.Answer) : Prop :=
  (furtherCall env s c = true → s.spent < env.config.maxSteps) ∧
    ((spawnedBy s c).isSome = true →
      ¬(s.stepsCount ≤ env.config.maxSteps ∧ env.config.maxSteps ≤ s.counted))

instance (env : ExecutorEnv) (s : State) (c : Choice env.Answer) :
    Decidable (BudgetWatched env s c) :=
  inferInstanceAs (Decidable (_ ∧ _))

/-! ## What a task counts -/

structure Task.Tallied (t : Task) : Prop where
  unfinished : t.pc.unfinished ≤ t.stepsExecuted
  reported : ∀ msgs res, t.pc = .sending msgs (.ok res) → res.steps = t.stepsExecuted

section Tasks
variable {env : ExecutorEnv} {s : State} {t t' : Task} {e : Option Event}

theorem TaskPc.inFlight_le (pc : TaskPc) : pc.inFlight ≤ pc.unfinished := by
  cases pc <;> simp [TaskPc.inFlight, TaskPc.unfinished]

/-- What a move of `n` calls does to the counts of a task: a call is in flight until the step it
belongs to has ended. -/
structure Task.Counts (t t' : Task) (n : ℕ) : Prop where
  tallied : t'.Tallied
  calls : t'.ended + t'.pc.inFlight = t.ended + t.pc.inFlight + n
  begins : 0 < n → t'.pc.inFlight = t.pc.inFlight + n
  returns : n = 0 → t'.pc.inFlight ≤ t.pc.inFlight ∧ t.pc.inFlight ≤ t'.pc.inFlight + 1

/-- Between two steps nothing is counted and nothing called. -/
theorem Task.Counts.between (hpc : t.pc.unfinished = 0) (hpc' : t'.pc.unfinished = 0)
    (hsteps : t'.stepsExecuted = t.stepsExecuted)
    (hrep : ∀ msgs res, t'.pc = .sending msgs (.ok res) → res.steps = t.stepsExecuted) :
    t.Counts t' 0 := by
  have hfly := t.pc.inFlight_le
  have hfly' := t'.pc.inFlight_le
  refine ⟨⟨by omega, ?_⟩, ?_, by omega, fun _ => by omega⟩
  · intro msgs res hsend
    rw [hrep msgs res hsend, hsteps]
  · simp only [Task.ended, hpc, hpc', hsteps]
    omega

theorem Task.Counts.close (hpc : t.pc.unfinished = 0) (msgs : List FinishedInfo)
    {result : TaskResult} (hrep : ∀ res, result = .ok res → res.steps = t.stepsExecuted) :
    t.Counts (t.close msgs result) 0 := by
  refine .between hpc rfl rfl ?_
  intro msgs' res hsend
  cases hsend
  exact hrep res rfl

/-- The moves that keep the step count and leave no step unfinished. -/
theorem Task.Counts.rest {pc pc' : TaskPc} {step : Step} {i v : ℕ} (hpc : t.pc = pc)
    (hrest : pc.unfinished = 0) (hrest' : pc'.unfinished = 0)
    (hopen : ∀ msgs result, pc' ≠ .sending msgs result) :
    t.Counts { t with current := step, iteration := i, visit := v, pc := pc' } 0 := by
  refine .between (by rw [hpc]; exact hrest) hrest' rfl ?_
  intro msgs res hsend
  exact absurd hsend (hopen msgs (.ok res))

theorem Task.Counts.inside {pc pc' : TaskPc} {n : ℕ} (ht : t.Tallied) (hpc : t.pc = pc)
    (hin : pc.unfinished = 1) (hin' : pc'.unfinished = 1)
    (hopen : ∀ msgs result, pc' ≠ .sending msgs result) (hfly : pc'.inFlight = pc.inFlight + n) :
    t.Counts { t with pc := pc' } n := by
  have hle := ht.unfinished
  rw [hpc, hin] at hle
  refine ⟨⟨by rw [hin']; exact hle, ?_⟩, ?_, fun _ => by rw [hpc]; exact hfly, fun hn => ?_⟩
  · intro msgs res hsend
    exact absurd hsend (hopen msgs (.ok res))
  · simp only [Task.ended, hpc, hin, hin', hfly]
    omega
  · simp only [hpc]
    omega

theorem Task.Move.counts (h : Task.Move env s t t' e) (ht : t.Tallied) :
    t.Counts t' (e.toList.countP Event.isCall) := by
  cases h with
  | abandon _ hrest => exact .close hrest [] (by simp)
  | fail hpc => exact .close (by rw [hpc]; rfl) [] (by simp)
  | skip hpc _ | fallback hpc _ => exact .close (by rw [hpc]; rfl) [] (by simp)
  | fanOut hpc _ => exact .close (by rw [hpc]; rfl) _ (by simp)
  | @start pc hpc _ hto =>
    rcases hto with rfl | ⟨var, rfl, -⟩ <;>
      exact ⟨⟨by simp [TaskPc.unfinished], by simp⟩,
        by simp [Task.ended, TaskPc.unfinished, TaskPc.inFlight, hpc],
        by simp, by simp [TaskPc.inFlight, hpc]⟩
  | setVar hpc => exact .inside ht hpc rfl rfl (by simp) rfl
  | enter hpc => exact .inside ht hpc rfl rfl (by simp) rfl
  | read hpc => exact .inside ht hpc rfl rfl (by simp) rfl
  | answer a hpc =>
    have hone : 1 ≤ t.stepsExecuted := by
      have hle := ht.unfinished
      rw [hpc] at hle
      exact hle
    unfold Task.answered
    split <;>
      exact ⟨⟨by simp [TaskPc.unfinished], by simp⟩,
        by simp [Task.ended, TaskPc.unfinished, TaskPc.inFlight, hpc]; omega,
        by simp, by simp [TaskPc.inFlight, hpc]⟩
  | record hpc hto =>
    rcases hto with rfl | rfl <;> exact .rest hpc rfl rfl (by simp)
  | again hpc => exact .rest hpc rfl rfl (by simp)
  | leaveRepeat hpc => exact .rest hpc rfl rfl (by simp)
  | follow hpc _ _ _ => exact .rest hpc rfl rfl (by simp)
  | goto hpc _ _ => exact .rest hpc rfl rfl (by simp)
  | send hpc =>
    refine .between (by rw [hpc]; rfl) rfl rfl ?_
    intro msgs res hsend
    cases hsend
    exact ht.reported _ _ hpc

theorem Task.Move.call_own (h : Task.Move env s t t' e) (i : ℕ) :
    e.toList.countP (Event.isCallOf i) =
      if t.id = i then e.toList.countP Event.isCall else 0 := by
  cases h with
  | enter => simp [Event.isCall, Event.isCallOf, List.countP_cons]
  | _ => simp [Event.isCall, Event.isCallOf, Task.continueAt]

theorem Task.Move.call_cases (h : Task.Move env s t t' e) :
    e.toList.countP Event.isCall = 0 ∨
      (e.toList.countP Event.isCall = 1 ∧ t.pc = .enter) := by
  cases h with
  | enter hpc => exact .inr ⟨rfl, hpc⟩
  | _ => exact .inl rfl

end Tasks

/-! ## What a step counts -/

section Steps
variable {env : ExecutorEnv} {s s' : State} {c : Choice env.Answer}

/-- What a step of `n` calls does to the counts of a run. -/
structure State.Counts (s s' : State) (n : ℕ) : Prop where
  made : s'.callsMade = s.callsMade + n
  begins : 0 < n → s'.inFlight = s.inFlight + n
  returns : n = 0 → s'.inFlight ≤ s.inFlight ∧ s.inFlight ≤ s'.inFlight + 1
  total : s'.main.Running →
    s.main.Running ∧ s'.counted + s'.inFlight = s.counted + s.inFlight + n

theorem State.calls_logged {e : Event} (htrace : s'.trace = s.trace ++ [e]) (he : e.isCall = false) :
    s'.callsMade = s.callsMade ∧ ∀ i, s'.callsOf i = s.callsOf i := by
  refine ⟨?_, fun i => ?_⟩
  · rw [State.callsMade, htrace, List.countP_append, State.callsMade]
    simp [he]
  · have hof : e.isCallOf i = false := by
      cases e with
      | began => cases he
      | _ => rfl
    rw [State.callsOf, htrace, List.countP_append, State.callsOf]
    simp [hof]

theorem State.Counts.same (htasks : s'.tasks = s.tasks) (hsteps : s'.stepsCount = s.stepsCount)
    (hmade : s'.callsMade = s.callsMade) (hrun : s'.main.Running → s.main.Running) :
    s.Counts s' 0 := by
  have hfly : s'.inFlight = s.inFlight := by rw [State.inFlight, htasks, State.inFlight]
  have hcount : s'.counted = s.counted := by rw [State.counted, htasks, hsteps, State.counted]
  exact ⟨hmade, by omega, fun _ => by omega, fun h => ⟨hrun h, by omega⟩⟩

theorem State.Counts.move {k : ℕ} {t t' : Task} {e : Option Event} (hk : s.tasks[k]? = some t)
    (h : t.Counts t' (e.toList.countP Event.isCall)) :
    s.Counts (s.move k t' e) (e.toList.countP Event.isCall) := by
  have hfly : (s.move k t' e).inFlight + t.pc.inFlight = s.inFlight + t'.pc.inFlight := by
    rw [State.inFlight, State.move_tasks]
    exact Indexed.sum_map_set hk (fun t => t.pc.inFlight) t'
  have hended : ((s.move k t' e).tasks.map Task.ended).sum + t.ended =
      (s.tasks.map Task.ended).sum + t'.ended := by
    rw [State.move_tasks]
    exact Indexed.sum_map_set hk Task.ended t'
  have hcalls := h.calls
  have hbegins := h.begins
  have hreturns := h.returns
  refine ⟨?_, by omega, by omega, ?_⟩
  · rw [State.callsMade, State.move_trace, List.countP_append, State.callsMade]
  · intro hrun
    rw [State.move_main] at hrun
    refine ⟨hrun, ?_⟩
    rw [State.counted, State.move_stepsCount, State.counted]
    omega

theorem State.inFlight_eraseIdx {k : ℕ} {t : Task} (hk : s.tasks[k]? = some t) :
    ((s.tasks.eraseIdx k).map fun t => t.pc.inFlight).sum + t.pc.inFlight = s.inFlight :=
  Indexed.sum_map_eraseIdx hk fun t => t.pc.inFlight

theorem State.Counts.join {k : ℕ} {t : Task} {result : TaskResult} (hk : s.tasks[k]? = some t)
    (hpc : t.pc = .sending [] result) (hm : s.main = .select) (ht : t.Tallied) :
    s.Counts (s.join env k t result) 0 := by
  have hfly : (s.join env k t result).inFlight + t.pc.inFlight = s.inFlight :=
    State.inFlight_eraseIdx hk
  have hnone : t.pc.inFlight = 0 := by
    rw [hpc]
    rfl
  have hended : ((s.tasks.eraseIdx k).map Task.ended).sum + t.ended = (s.tasks.map Task.ended).sum :=
    Indexed.sum_map_eraseIdx hk Task.ended
  refine ⟨(State.calls_logged rfl rfl).1, by omega, by omega, ?_⟩
  · intro hrun
    refine ⟨by rw [hm]; trivial, ?_⟩
    cases result with
    | error err => exact hrun.elim
    | ok res =>
      have hreported : t.ended = res.steps := by
        rw [ht.reported [] res hpc, Task.ended, hpc]
        rfl
      have hsteps : (s.join env k t (.ok res)).stepsCount = s.stepsCount + res.steps := by
        simp only [State.join, joinOutcome]
        split_ifs <;> rfl
      have hcount : (s.join env k t (.ok res)).counted =
          s.stepsCount + res.steps + ((s.tasks.eraseIdx k).map Task.ended).sum := by
        rw [State.counted, hsteps]
        rfl
      rw [hcount, State.counted]
      omega

theorem Trans.counts (h : Trans env s c s') (hi : ∀ t ∈ s.tasks, t.Tallied) :
    s.Counts s' (callsBy env s c) := by
  cases h with
  | task hk hn =>
    have hcalls := (Task.next_move hn).counts (hi _ (List.mem_of_getElem? hk))
    rw [callsBy, emitted_task hk hn]
    exact .move hk hcalls
  | answer a hk hpc =>
    have hmove : Task.Move env s _ _ none := .answer a hpc
    exact .move hk (hmove.counts (hi _ (List.mem_of_getElem? hk)))
  | join hm hk hpc => exact .join hk hpc hm (hi _ (List.mem_of_getElem? hk))
  | @abort k t err hm hk =>
    have hfly := State.inFlight_eraseIdx hk
    have hone : t.pc.inFlight ≤ 1 := by
      cases t.pc <;> simp [TaskPc.inFlight]
    refine ⟨rfl, fun hpos => absurd hpos (Nat.lt_irrefl 0), fun _ => ?_, fun hrun => ?_⟩
    · change ((s.tasks.eraseIdx k).map fun t => t.pc.inFlight).sum ≤ s.inFlight ∧
        s.inFlight ≤ ((s.tasks.eraseIdx k).map fun t => t.pc.inFlight).sum + 1
      omega
    · change s.main.Running at hrun
      rw [hm] at hrun
      exact hrun.elim
  | recv hm hk _ _ =>
    exact .same rfl rfl (State.calls_logged rfl rfl).1 (fun _ => by rw [hm]; trivial)
  | @depsMet step todo n hm _ =>
    have htasks : ({ s.spawn step with main := .scan todo } : State).tasks =
        s.tasks ++ [Task.spawned s.totalSpawned step] := rfl
    have hfly : ({ s.spawn step with main := .scan todo } : State).inFlight = s.inFlight := by
      rw [State.inFlight, htasks, List.map_append, List.sum_append]
      rfl
    have hcount : ({ s.spawn step with main := .scan todo } : State).counted = s.counted := by
      rw [State.counted, htasks, List.map_append, List.sum_append]
      rfl
    have hnone : callsBy env s .main = 0 := rfl
    exact ⟨(State.calls_logged rfl rfl).1, by omega, by omega,
      fun _ => ⟨by rw [hm]; trivial, by omega⟩⟩
  | cancel => exact .same rfl rfl rfl id
  | seeCancel | stop => exact .same rfl rfl rfl fun hrun => hrun.elim
  | scanDone hm | scanFull hm | scanSkip hm | scanCheck hm | checkDep hm | depsUnmet hm | exit hm
  | loop hm => exact .same rfl rfl rfl fun _ => by rw [hm]; trivial

theorem State.callsOf_move {k : ℕ} {t t' : Task} {e : Option Event} (hmove : Task.Move env s t t' e)
    (i : ℕ) : (s.move k t' e).callsOf i =
      s.callsOf i + if t.id = i then e.toList.countP Event.isCall else 0 := by
  rw [State.callsOf, State.move_trace, List.countP_append, hmove.call_own i, State.callsOf]

/-- A step makes no call of task `i`, or that task enters its next step. -/
theorem Trans.call_cases (h : Trans env s c s') (i : ℕ) :
    s'.callsOf i = s.callsOf i ∨ (0 < callsBy env s c ∧ s'.callsOf i = s.callsOf i + 1 ∧
      ∃ t ∈ s.tasks, t.id = i ∧ t.pc = .enter) := by
  cases h with
  | @task k t t' e hk hn =>
    have hmove := Task.next_move hn
    have hcalls := State.callsOf_move (k := k) hmove i
    obtain hnone | ⟨hone, hpc⟩ := hmove.call_cases
    · left
      rw [hcalls, hnone, ite_self, Nat.add_zero]
    · by_cases hid : t.id = i
      · right
        rw [callsBy, emitted_task hk hn, hcalls, if_pos hid, hone]
        exact ⟨Nat.one_pos, rfl, t, List.mem_of_getElem? hk, hid, hpc⟩
      · left
        rw [hcalls, if_neg hid, Nat.add_zero]
  | recv | join | depsMet => exact .inl ((State.calls_logged rfl rfl).2 i)
  | cancel | answer | abort | seeCancel | stop | scanDone | scanFull | scanSkip | scanCheck
  | checkDep | depsUnmet | exit | loop => exact .inl rfl

theorem callsBy_le_one (h : Trans env s c s') : callsBy env s c ≤ 1 := by
  cases h with
  | task hk hn =>
    rw [callsBy, emitted_task hk hn]
    rcases (Task.next_move hn).call_cases with hnone | ⟨hone, -⟩ <;> omega
  | _ => exact Nat.zero_le 1

/-- The counters of the code and the calls in the trace. -/
structure Tallies (s : State) : Prop where
  tallied : ∀ t ∈ s.tasks, t.Tallied
  own : ∀ t ∈ s.tasks, s.callsOf t.id = t.ended + t.pc.inFlight
  unborn : ∀ i, s.totalSpawned ≤ i → s.callsOf i = 0
  total : s.main.Running → s.callsMade = s.counted + s.inFlight

theorem tallied_spawned (i : ℕ) (step : Step) : (Task.spawned i step).Tallied :=
  ⟨Nat.zero_le _, by simp [Task.spawned]⟩

theorem Tallies.stay (hi : Tallies s) (hcalls : ∀ i, s'.callsOf i = s.callsOf i)
    (htasks : ∀ t ∈ s'.tasks, t ∈ s.tasks) (hspawned : s'.totalSpawned = s.totalSpawned)
    (htotal : s'.main.Running → s'.callsMade = s'.counted + s'.inFlight) : Tallies s' := by
  refine ⟨fun t ht => hi.tallied t (htasks t ht), ?_, ?_, htotal⟩
  · intro t ht
    rw [hcalls, hi.own t (htasks t ht)]
  · intro i hle
    rw [hcalls, hi.unborn i (hspawned ▸ hle)]

theorem Tallies.step (hi : Tallies s) (hl : Ledger s) (h : Trans env s c s') : Tallies s' := by
  have hcounts := h.counts hi.tallied
  have htotal : s'.main.Running → s'.callsMade = s'.counted + s'.inFlight := by
    intro hrun
    obtain ⟨hrun₀, heq⟩ := hcounts.total hrun
    have hmade := hcounts.made
    have hold := hi.total hrun₀
    omega
  cases h.kind with
  | silent => exact ⟨hi.tallied, hi.own, hi.unborn, htotal⟩
  | @task _ k t t' e _ hk hmove =>
    have ht : t ∈ s.tasks := List.mem_of_getElem? hk
    have hid : t'.id = t.id := hmove.account.1
    have hmoved := hmove.counts (hi.tallied t ht)
    have hcalls := State.callsOf_move (k := k) hmove
    have hmem : ∀ u ∈ (s.move k t' e).tasks, u = t' ∨ (u ∈ s.tasks ∧ u.id ≠ t.id) := by
      intro u hu
      rw [State.move_tasks] at hu
      exact (Indexed.mem_set hl.ids hk).mp hu
    refine ⟨?_, ?_, ?_, htotal⟩
    · intro u hu
      obtain rfl | ⟨hu, -⟩ := hmem u hu
      · exact hmoved.tallied
      · exact hi.tallied u hu
    · intro u hu
      obtain rfl | ⟨hu, hne⟩ := hmem u hu
      · rw [hcalls, if_pos hid.symm, hid, hi.own t ht]
        exact hmoved.calls.symm
      · rw [hcalls, if_neg (Ne.symm hne), Nat.add_zero, hi.own u hu]
    · intro i hle
      rw [State.move_totalSpawned] at hle
      have hlt := hl.ids_lt t ht
      rw [hcalls, if_neg (by omega), Nat.add_zero, hi.unborn i hle]
  | join =>
    exact hi.stay (State.calls_logged rfl rfl).2 (fun t ht => List.mem_of_mem_eraseIdx ht) rfl htotal
  | recv => exact hi.stay (State.calls_logged rfl rfl).2 (fun t ht => ht) rfl htotal
  | @spawn step todo n hm hrun =>
    have hcalls : ∀ i, ({ s.spawn step with main := .scan todo } : State).callsOf i =
        s.callsOf i := (State.calls_logged rfl rfl).2
    have hmem : ∀ t ∈ s.tasks ++ [Task.spawned s.totalSpawned step],
        t ∈ s.tasks ∨ t = Task.spawned s.totalSpawned step := by
      intro t ht
      rw [List.mem_append, List.mem_singleton] at ht
      exact ht
    refine ⟨?_, ?_, ?_, htotal⟩
    · intro t ht
      obtain ht | rfl := hmem t ht
      · exact hi.tallied t ht
      · exact tallied_spawned _ _
    · intro t ht
      rw [hcalls]
      obtain ht | rfl := hmem t ht
      · exact hi.own t ht
      · exact hi.unborn s.totalSpawned (Nat.le_refl _)
    · intro i hle
      have hle' : s.totalSpawned + 1 ≤ i := hle
      rw [hcalls, hi.unborn i (by omega)]
  | abort =>
    exact hi.stay (fun _ => rfl) (fun t ht => List.mem_of_mem_eraseIdx ht) rfl htotal

theorem tallies_start (env : ExecutorEnv) (input : Json) : Tallies (start env input) := by
  unfold start
  split
  · rename_i entry _
    refine ⟨?_, ?_, fun _ _ => rfl, fun _ => rfl⟩
    · intro t ht
      rw [List.mem_singleton.mp ht]
      exact tallied_spawned 0 entry
    · intro t ht
      rw [List.mem_singleton.mp ht]
      rfl
  · exact ⟨by simp [State.fresh], by simp [State.fresh], fun _ _ => rfl, fun _ => rfl⟩

theorem Reachable.tallies (h : Reachable env s) : Tallies s := by
  refine Reaches.invariant ?_ (fun s a s' hr hi hs => hi.step (Reachable.ledger hr) hs) h
  rintro s ⟨-, input, rfl⟩
  exact tallies_start env input

end Steps

/-! ## Tasks that have yet to begin -/

/-- The running tasks that have made no call. -/
def State.starting (s : State) : ℕ := (s.tasks.map Task.id).countP fun i => s.callsOf i == 0

section Starting
variable {env : ExecutorEnv} {s s' : State} {c : Choice env.Answer}

theorem countP_lt {l : List ℕ} {p q : ℕ → Bool} {i : ℕ} (hi : i ∈ l) (hp : p i = true)
    (hq : q i = false) (hle : ∀ j, q j = true → p j = true) : l.countP q + 1 ≤ l.countP p := by
  induction l with
  | nil => cases hi
  | cons j l ih =>
    rw [List.countP_cons, List.countP_cons]
    obtain rfl | hi := List.mem_cons.mp hi
    · have hrest := List.countP_mono_left (p := q) (q := p) (l := l) fun j _ => hle j
      simp only [hp, hq, if_true, Bool.false_eq_true, if_false]
      omega
    · have hrest := ih hi
      have hhead := hle j
      split_ifs with hqj hpj
      · omega
      · exact absurd (hhead hqj) hpj
      · omega
      · omega

theorem State.starting_sublist (hcalls : ∀ i, s'.callsOf i = s.callsOf i)
    (htasks : s'.tasks.Sublist s.tasks) : s'.starting ≤ s.starting := by
  unfold State.starting
  simp only [hcalls]
  exact (htasks.map Task.id).countP_le

theorem State.starting_move {k : ℕ} {t t' : Task} {e : Option Event} (hk : s.tasks[k]? = some t)
    (hmove : Task.Move env s t t' e)
    (hfirst : 0 < e.toList.countP Event.isCall → s.callsOf t.id = 0) :
    (s.move k t' e).callsMade + (s.move k t' e).starting ≤ s.callsMade + s.starting := by
  have hids : (s.move k t' e).tasks.map Task.id = s.tasks.map Task.id := by
    rw [State.move_tasks, Indexed.map_set hk hmove.account.1]
  have hcalls := State.callsOf_move (k := k) hmove
  have hmade : (s.move k t' e).callsMade = s.callsMade + e.toList.countP Event.isCall := by
    rw [State.callsMade, State.move_trace, List.countP_append, State.callsMade]
  unfold State.starting
  rw [hids, hmade]
  obtain hnone | ⟨hone, -⟩ := hmove.call_cases
  · simp only [hcalls, hnone, ite_self, Nat.add_zero, le_refl]
  · have hzero := hfirst (by omega)
    have hless : (s.tasks.map Task.id).countP (fun i => (s.move k t' e).callsOf i == 0) + 1 ≤
        (s.tasks.map Task.id).countP fun i => s.callsOf i == 0 := by
      refine countP_lt (List.mem_map_of_mem (List.mem_of_getElem? hk)) ?_ ?_ ?_
      · rw [hzero]
        rfl
      · rw [hcalls, if_pos rfl, hone]
        simp
      · intro j hj
        rw [hcalls] at hj
        simp only [beq_iff_eq] at hj ⊢
        omega
    omega

/-- A choice that spawns nothing and begins no further step of a task brings no new call into
sight. -/
theorem Trans.starting_le (h : Trans env s c s') (hspawn : spawnedBy s c = none)
    (hfurther : furtherCall env s c = false) :
    s'.callsMade + s'.starting ≤ s.callsMade + s.starting := by
  cases h with
  | @task k t t' e hk hn =>
    have hmove := Task.next_move hn
    refine State.starting_move hk hmove ?_
    intro hcall
    rw [furtherCall, emitted_task hk hn] at hfurther
    cases hmove with
    | enter => simpa using hfurther
    | _ => exact absurd hcall (Nat.lt_irrefl 0)
  | answer a hk hpc =>
    exact State.starting_move hk (.answer a hpc) fun hcall => absurd hcall (Nat.lt_irrefl 0)
  | @join k t result =>
    have hlogged : (s.join env k t result).callsMade = s.callsMade ∧
        ∀ i, (s.join env k t result).callsOf i = s.callsOf i := State.calls_logged rfl rfl
    rw [hlogged.1]
    exact Nat.add_le_add_left (State.starting_sublist hlogged.2 (List.eraseIdx_sublist _ _)) _
  | @abort k t err =>
    have hfewer : ({ s with tasks := s.tasks.eraseIdx k } : State).starting ≤ s.starting :=
      State.starting_sublist (fun _ => rfl) (List.eraseIdx_sublist _ _)
    exact Nat.add_le_add_left hfewer _
  | @recv k i m order =>
    have hlogged : (s.receive k i m order).callsMade = s.callsMade ∧
        ∀ j, (s.receive k i m order).callsOf j = s.callsOf j := State.calls_logged rfl rfl
    rw [hlogged.1]
    exact Nat.add_le_add_left (State.starting_sublist hlogged.2 (List.Sublist.refl _)) _
  | depsMet hm hrun => simp [spawnedBy, hm, hrun] at hspawn
  | cancel | seeCancel | stop | scanDone | scanFull | scanSkip | scanCheck | checkDep | depsUnmet
  | exit | loop => exact le_rfl

end Starting

/-! ## The budget -/

section Budget
variable {env : ExecutorEnv} {s s' : State} {c : Choice env.Answer} {past : List State}

/-- The invariant: since the budget was reached the calls made and those still to come from tasks that
have yet to begin have not become more. -/
def Budgeted (env : ExecutorEnv) (past : List State) (s : State) : Prop :=
  (∀ s₁ ∈ past ++ [s], s₁.callsMade < env.config.maxSteps + s₁.inFlight) ∨
    ∃ before s₀ after, past ++ [s] = before ++ s₀ :: after ∧
      (∀ s₁ ∈ before, s₁.callsMade < env.config.maxSteps + s₁.inFlight) ∧
      s₀.callsMade = env.config.maxSteps + s₀.inFlight ∧
      s.callsMade + s.starting ≤ s₀.callsMade + s₀.starting ∧
      env.config.maxSteps + s.inFlight ≤ s.callsMade

/-- Until now the budget was not reached, and no more than the budget has ended. -/
theorem Budgeted.of_le (hpast : ∀ s₁ ∈ past, s₁.callsMade < env.config.maxSteps + s₁.inFlight)
    (h : s.callsMade ≤ env.config.maxSteps + s.inFlight) : Budgeted env past s := by
  obtain hlt | heq := Nat.lt_or_eq_of_le h
  · left
    intro s₁ hs₁
    obtain hs₁ | hs₁ := List.mem_append.mp hs₁
    · exact hpast s₁ hs₁
    · rw [List.mem_singleton.mp hs₁]
      exact hlt
  · exact .inr ⟨past, s, [], rfl, hpast, heq, le_rfl, heq.ge⟩

theorem Tallies.spent_eq (hs : Tallies s) : s.spent = s.callsMade - s.inFlight := by
  unfold State.spent
  by_cases hrun : s.main.Running
  · rw [if_pos hrun, hs.total hrun, Nat.add_sub_cancel]
  · rw [if_neg hrun]

/-- Once the budget is reached the condition leaves no room for a spawn: the check has seen at most
`max_steps`, and the counters say that many have ended. -/
theorem not_spawned (hs : Tallies s) (hchecked : s.main.Running → s.stepsCount ≤ env.config.maxSteps)
    (hok : BudgetWatched env s c) (hreached : env.config.maxSteps + s.inFlight ≤ s.callsMade) :
    spawnedBy s c = none := by
  by_contra hspawn
  obtain ⟨step, hstep⟩ := Option.ne_none_iff_exists'.mp hspawn
  obtain ⟨n, todo, hm, -⟩ := spawnedBy_eq hstep
  have hrun : s.main.Running := by
    rw [hm]
    trivial
  have htotal := hs.total hrun
  exact hok.2 (Option.isSome_iff_exists.mpr ⟨step, hstep⟩) ⟨hchecked hrun, by omega⟩

theorem not_further (hs : Tallies s) (hok : BudgetWatched env s c)
    (hreached : env.config.maxSteps + s.inFlight ≤ s.callsMade) : furtherCall env s c = false := by
  by_contra hfurther
  have hleft := hok.1 (Bool.not_eq_false _ ▸ hfurther)
  rw [hs.spent_eq] at hleft
  omega

theorem Budgeted.step (hi : Budgeted env past s) (hs : Tallies s)
    (hchecked : s.main.Running → s.stepsCount ≤ env.config.maxSteps) (hok : BudgetWatched env s c)
    (h : Trans env s c s') : Budgeted env (past ++ [s]) s' := by
  obtain ⟨hmade, hbegins, hreturns, -⟩ := h.counts hs.tallied
  have hone := callsBy_le_one h
  obtain hunder | ⟨before, s₀, after, hsplit, hbefore, hreached, hsame, hended⟩ := hi
  · have hlt := hunder s (List.mem_append_right _ (List.mem_singleton_self s))
    exact .of_le hunder (by omega)
  · have hstarting := h.starting_le (not_spawned hs hchecked hok hended) (not_further hs hok hended)
    refine .inr ⟨before, s₀, after ++ [s'], ?_, hbefore, hreached, by omega, by omega⟩
    rw [hsplit, List.append_assoc, List.cons_append]

end Budget

end Konf.Executor
