import Konf.Executor.Ledger

/-! # Accounting of the main loop

The bookkeeping of the main loop over every run: the two counters compare spawned tasks with
received `Node` messages, and therefore the exit test neither leaves a message behind nor waits for
one that will not come. -/

namespace Konf.Executor
open Konf.Substrate Konf.Transition
set_option autoImplicit false

/-! ## The loop -/

/-- The loop has neither failed nor been cancelled. -/
def MainPc.Running : MainPc → Prop
  | .shutdown _ | .returned (.error _) => False
  | _ => True

/-- What holds of the counters and the task set at each place of the main loop. -/
structure LoopInv (env : ExecutorEnv) (s : State) : Prop where
  room : s.tasks.length ≤ max 1 env.config.maxConcurrentNodes
  checking : ∀ step deps n todo, s.main = .checkDeps step deps n todo →
    s.tasks.length < env.config.maxConcurrentNodes
  waiting : s.main = .select → ¬(s.totalSpawned = s.totalFinished ∧ s.tasks = [])
  done : ∀ out, s.main = .returned (.ok out) → s.totalSpawned = s.totalFinished ∧ s.tasks = []
  accounted : s.main.Running → ∀ i < s.totalSpawned,
    i ∈ s.tasks.map Task.id ∨ ∃ x r, Event.joined i x r ∈ s.trace

section LoopSteps
variable {env : ExecutorEnv} {s : State}

theorem LoopInv.goto (h : LoopInv env s) {pc : MainPc} (hrun : pc.Running → s.main.Running)
    (hcheck : ∀ step deps n todo, pc = .checkDeps step deps n todo →
      s.tasks.length < env.config.maxConcurrentNodes)
    (hwait : pc = .select → ¬(s.totalSpawned = s.totalFinished ∧ s.tasks = []))
    (hdone : ∀ out, pc = .returned (.ok out) → s.totalSpawned = s.totalFinished ∧ s.tasks = []) :
    LoopInv env { s with main := pc } :=
  ⟨h.room, hcheck, hwait, hdone, fun hpc => h.accounted (hrun hpc)⟩

theorem LoopInv.task (h : LoopInv env s) {k : ℕ} {t t' : Task} {e : Option Event}
    (hk : s.tasks[k]? = some t) (hid : t'.id = t.id) : LoopInv env (s.move k t' e) := by
  have hnil : s.tasks.set k t' = [] ↔ s.tasks = [] := by
    rw [← List.length_eq_zero_iff, List.length_set, List.length_eq_zero_iff]
  refine ⟨?_, ?_, ?_, ?_, ?_⟩
  · simpa using h.room
  · simpa using h.checking
  · simpa [hnil] using h.waiting
  · simpa [hnil] using h.done
  · intro hrun i hi
    rw [State.move_tasks, Indexed.map_set hk hid, State.move_trace]
    rw [State.move_main] at hrun
    rw [State.move_totalSpawned] at hi
    obtain hmem | ⟨x, r, hmem⟩ := h.accounted hrun i hi
    · exact .inl hmem
    · exact .inr ⟨x, r, List.mem_append_left _ hmem⟩

theorem LoopInv.join (h : LoopInv env s) {k : ℕ} {t : Task} {r : TaskResult}
    (hids : (s.tasks.map Task.id).Nodup) (hm : s.main = .select) (hk : s.tasks[k]? = some t) :
    LoopInv env (s.join env k t r) := by
  have hlen : (s.tasks.eraseIdx k).length ≤ s.tasks.length :=
    (List.eraseIdx_sublist _ _).length_le
  have hroom := h.room
  have hmain := joinOutcome_main env s r
  refine ⟨?_, ?_, ?_, ?_, ?_⟩
  · exact Nat.le_trans hlen hroom
  · intro step deps n todo hpc
    rcases hmain with hpc' | ⟨err, hpc'⟩ <;> rw [State.join, hpc'] at hpc <;> cases hpc
  · intro hpc
    rcases hmain with hpc' | ⟨err, hpc'⟩ <;> rw [State.join, hpc'] at hpc <;> cases hpc
  · intro out hpc
    rcases hmain with hpc' | ⟨err, hpc'⟩ <;> rw [State.join, hpc'] at hpc <;> cases hpc
  · intro _ i hi
    obtain hmem | ⟨x, r', hmem⟩ := h.accounted (by rw [hm]; trivial) i hi
    · obtain ⟨u, hu, rfl⟩ := List.mem_map.mp hmem
      by_cases hut : u.id = t.id
      · refine .inr ⟨t.current.id, r, ?_⟩
        rw [hut]
        exact List.mem_append_right _ (List.mem_singleton_self _)
      · exact .inl (List.mem_map_of_mem ((Indexed.mem_eraseIdx hids hk).mpr ⟨hu, hut⟩))
    · exact .inr ⟨x, r', List.mem_append_left _ hmem⟩

theorem LoopInv.receive (h : LoopInv env s) {k i : ℕ} {m : FinishedInfo} {order : List StepId}
    (hm : s.main = .select) : LoopInv env (s.receive k i m order) := by
  refine ⟨h.room, ?_, ?_, ?_, ?_⟩
  · intro step deps n todo hpc
    cases m <;> cases hpc
  · intro hpc
    cases m <;> cases hpc
  · intro out hpc
    cases m <;> cases hpc
  · intro _ j hj
    obtain hmem | ⟨x, r, hmem⟩ := h.accounted (by rw [hm]; trivial) j hj
    · exact .inl hmem
    · exact .inr ⟨x, r, List.mem_append_left _ hmem⟩

theorem LoopInv.spawn (h : LoopInv env s) {step : Step} {todo : List StepId} {n : ℕ}
    (hm : s.main = .checkDeps step [] n todo) :
    LoopInv env { s.spawn step with main := .scan todo } := by
  have hlt := h.checking _ _ _ _ hm
  refine ⟨?_, by simp, by simp, by simp, ?_⟩
  · simp only [State.spawn, List.length_append, List.length_singleton]
    omega
  · intro _ i hi
    by_cases hnew : i = s.totalSpawned
    · exact .inl (by simp [State.spawn, Task.spawned, hnew])
    · have hold : i < s.totalSpawned := by
        have hi' : i < s.totalSpawned + 1 := hi
        omega
      obtain hmem | ⟨x, r, hmem⟩ := h.accounted (by rw [hm]; trivial) i hold
      · refine .inl ?_
        rw [State.spawn, List.map_append]
        exact List.mem_append_left _ hmem
      · exact .inr ⟨x, r, List.mem_append_left _ hmem⟩

theorem LoopInv.step {s' : State} {c : Choice env.Answer} (h : LoopInv env s)
    (hids : (s.tasks.map Task.id).Nodup) (hs : Trans env s c s') : LoopInv env s' := by
  cases hs with
  | cancel => exact ⟨h.room, h.checking, h.waiting, h.done, h.accounted⟩
  | task hk hn => exact h.task hk (Task.next_move hn).account.1
  | answer a hk hpc => exact h.task hk (Task.Move.answer (s := s) a hpc).account.1
  | join hm hk _ => exact h.join hids hm hk
  | recv hm _ _ _ => exact h.receive hm
  | depsMet hm _ => exact h.spawn hm
  | scanDone hm | scanFull hm | scanSkip hm | depsUnmet hm =>
    exact h.goto (by rw [hm]; exact id) (by simp) (by simp) (by simp)
  | scanCheck hm hroom =>
    exact h.goto (by rw [hm]; exact id) (fun _ _ _ _ _ => hroom) (by simp) (by simp)
  | checkDep hm =>
    exact h.goto (by rw [hm]; exact id) (fun _ _ _ _ _ => h.checking _ _ _ _ hm) (by simp) (by simp)
  | seeCancel hm _ => exact h.goto (by rw [hm]; exact fun _ => trivial) (by simp) (by simp) (by simp)
  | exit hm heq hempty =>
    exact h.goto (by rw [hm]; exact id) (by simp) (by simp) (fun _ _ => ⟨heq, hempty⟩)
  | loop hm hgo => exact h.goto (by rw [hm]; exact id) (by simp) (fun _ => hgo) (by simp)
  | stop hm _ => exact h.goto (by simp [MainPc.Running]) (by simp) (by simp) (by simp)
  | abort hm _ =>
    refine ⟨Nat.le_trans (List.eraseIdx_sublist _ _).length_le h.room, ?_, ?_, ?_, ?_⟩
    · intro _ _ _ _ hpc
      rw [hm] at hpc
      cases hpc
    · intro hpc
      rw [hm] at hpc
      cases hpc
    · intro _ hpc
      rw [hm] at hpc
      cases hpc
    · intro hrun
      rw [hm] at hrun
      exact hrun.elim

theorem loopInv_start (env : ExecutorEnv) (input : Json) : LoopInv env (start env input) := by
  unfold start
  split
  · constructor <;> simp [State.fresh, State.spawn, Task.spawned]
  · constructor <;> simp [State.fresh]

theorem Reachable.loopInv (h : Reachable env s) : LoopInv env s := by
  refine Reaches.invariant ?_ (fun s a s' hr hi hs => hi.step (Reachable.ledger hr).ids hs) h
  rintro s ⟨-, input, rfl⟩
  exact loopInv_start env input

end LoopSteps

/-! ## Counters -/

section Counters
variable {env : ExecutorEnv} {s : State}

theorem Ledger.senders_subperm (h : Ledger s) :
    (nodeSenders s.trace).Subperm (List.range s.totalSpawned) := by
  refine List.subperm_of_subset h.senders fun i hi => List.mem_range.mpr ?_
  obtain ⟨n, hn⟩ := mem_nodeSenders hi
  by_contra hge
  have hnil := h.unspawned i (by omega)
  rw [h.fifo i, List.append_eq_nil_iff] at hnil
  rw [hnil.1] at hn
  cases hn

theorem Ledger.finished_le (h : Ledger s) : s.totalFinished ≤ s.totalSpawned := by
  have hle := h.senders_subperm.length_le
  rw [List.length_range] at hle
  rw [h.finished]
  exact hle

/-- With equal counters every task's `Node` message has been received, so the channel is empty. -/
theorem Ledger.channel_nil (h : Ledger s) (heq : s.totalSpawned = s.totalFinished) :
    s.channel = [] := by
  have hperm := h.senders_subperm.perm_of_length_le (by
    rw [List.length_range, heq, h.finished])
  cases hc : s.channel with
  | nil => rfl
  | cons p rest =>
    -- the head's sender would be a spawned task with a message after its `Node`
    have hq : queuedBy s.channel p.1 ≠ [] := by
      rw [hc]
      simp
    have hlt : p.1 < s.totalSpawned := by
      by_contra hge
      have hnil := h.unspawned p.1 (by omega)
      rw [h.fifo, List.append_eq_nil_iff] at hnil
      exact hq hnil.2
    have hmem := hperm.mem_iff.mpr (List.mem_range.mpr hlt)
    exact absurd (h.queued_nil hmem) hq

/-- With every task joined and the channel empty the counters are equal. -/
theorem counters_eq (h : Ledger s) (hloop : LoopInv env s) (hrun : s.main.Running)
    (htasks : s.tasks = []) (hchan : s.channel = []) : s.totalSpawned = s.totalFinished := by
  have hall : List.range s.totalSpawned ⊆ nodeSenders s.trace := by
    intro i hi
    obtain hmem | ⟨x, r, hmem⟩ := hloop.accounted hrun i (List.mem_range.mp hi)
    · rw [htasks] at hmem
      cases hmem
    · obtain ⟨⟨targets, n, hbye⟩, -⟩ := h.joined i x r hmem
      have hrecv := h.fifo i
      rw [hchan, hbye, queuedBy, List.filter_nil, List.map_nil, List.append_nil] at hrecv
      refine nodeSenders_of_received (show FinishedInfo.node n ∈ _ from ?_)
      rw [← hrecv]
      exact List.mem_append_right _ (List.mem_singleton_self _)
  have hle := (List.subperm_of_subset List.nodup_range hall).length_le
  rw [List.length_range, ← h.finished] at hle
  have hge := h.finished_le
  omega

/-- A task outside a tool call can move, can be joined, or waits for room in the channel. -/
theorem Task.next_isSome (env : ExecutorEnv) (s : State) (t : Task)
    (hroom : s.channel.length < env.config.finishedChannelSize)
    (hexec : ∀ seen, t.pc ≠ .executing seen) (hdone : ∀ r, t.pc ≠ .sending [] r) :
    ∃ r, t.next env s = some r := by
  unfold Task.next
  split
  · split_ifs
    · exact ⟨_, rfl⟩
    · exact ⟨_, rfl⟩
  · exact ⟨_, rfl⟩
  · exact ⟨_, rfl⟩
  · exact ⟨_, rfl⟩
  · rename_i hpc
    exact absurd hpc (hexec _)
  · exact ⟨_, rfl⟩
  · exact ⟨_, rfl⟩
  · split
    · exact ⟨_, rfl⟩
    · exact ⟨_, rfl⟩
  · exact ⟨_, rfl⟩
  · rename_i hpc
    exact absurd hpc (hdone _)
  · rw [if_pos hroom]
    exact ⟨_, rfl⟩

/-- The main loop never stands still outside `select`. -/
theorem main_moves (hmain : s.main ≠ .select) (hret : ∀ r, s.main ≠ .returned r)
    (hshut : ∀ err, s.main ≠ .shutdown err) : ∃ s', Trans env s .main s' := by
  cases hm : s.main with
  | select => exact absurd hm hmain
  | returned r => exact absurd hm (hret r)
  | shutdown err => exact absurd hm (hshut err)
  | scan todo =>
    cases todo with
    | nil => exact ⟨_, .scanDone hm⟩
    | cons x todo =>
      by_cases hroom : s.tasks.length < env.config.maxConcurrentNodes
      · by_cases hx : x ∈ s.executedNodes
        · exact ⟨_, .scanSkip hm hroom (.inl hx)⟩
        · cases hstep : env.workflow.getStep x with
          | none => exact ⟨_, .scanSkip hm hroom (.inr hstep)⟩
          | some step => exact ⟨_, .scanCheck hm hroom hx hstep⟩
      · exact ⟨_, .scanFull hm (by omega)⟩
  | checkDeps step deps n todo =>
    cases deps with
    | nil =>
      cases hrun : canRunWith step n with
      | true => exact ⟨_, .depsMet hm hrun⟩
      | false => exact ⟨_, .depsUnmet hm hrun⟩
    | cons d deps => exact ⟨_, .checkDep hm⟩
  | exitTest =>
    by_cases hexit : s.totalSpawned = s.totalFinished ∧ s.tasks = []
    · exact ⟨_, .exit hm hexit.1 hexit.2⟩
    · exact ⟨_, .loop hm hexit⟩

end Counters

/-! ## Soundness -/

/-- Sound accounting in one state of `execute`: messages come in order and one `Node` closes them,
the counters and the task set keep their bounds, the exit test loses no message, and the loop never
waits for something that cannot happen. Between two visits of `select` the loop only moves by
itself, so a state in which it waits is one at `select`. -/
structure SoundAccounting (env : ExecutorEnv) (s : State) : Prop where
  messages : ∀ i, ∃ rest, Farewell (sentBy s.trace i ++ rest)
  returned : ∀ t ∈ s.tasks, ∀ r, t.pc = .sending [] r → Farewell (sentBy s.trace t.id)
  joined : ∀ i x r, Event.joined i x r ∈ s.trace → Farewell (sentBy s.trace i)
  finished_le : s.totalFinished ≤ s.totalSpawned
  tasks_le : s.tasks.length ≤ max 1 env.config.maxConcurrentNodes
  exit_channel : ∀ out, s.main = .returned (.ok out) → s.channel = []
  awaits : s.main = .select → s.tasks ≠ [] ∨ s.channel ≠ []
  exits : s.main = .exitTest → s.tasks = [] → s.channel = [] → s.totalSpawned = s.totalFinished
  progress : (∀ r, s.main ≠ .returned r) → (∀ t ∈ s.tasks, ∀ seen, t.pc ≠ .executing seen) →
    ∃ c s', c ≠ .cancel ∧ Trans env s c s'

section Soundness
variable {env : ExecutorEnv} {s : State}

theorem Reachable.channel_size (h : Reachable env s) : 0 < env.config.finishedChannelSize :=
  h.invariant (fun _ h => h.1) (fun _ _ _ _ h _ => h)

theorem select_awaits (hledger : Ledger s) (hloop : LoopInv env s) (hm : s.main = .select) :
    s.tasks ≠ [] ∨ s.channel ≠ [] := by
  by_contra hnone
  rw [not_or, not_not, not_not] at hnone
  have heq := counters_eq hledger hloop (by rw [hm]; trivial) hnone.1 hnone.2
  exact hloop.waiting hm ⟨heq, hnone.1⟩

theorem select_progress (hsize : 0 < env.config.finishedChannelSize) (hm : s.main = .select)
    (hawaits : s.tasks ≠ [] ∨ s.channel ≠ [])
    (hexec : ∀ t ∈ s.tasks, ∀ seen, t.pc ≠ .executing seen) :
    ∃ c s', c ≠ .cancel ∧ Trans env s c s' := by
  cases hc : s.channel with
  | cons p rest =>
    have hk : s.channel[0]? = some (p.1, p.2) := by rw [hc]; rfl
    exact ⟨.recv 0 s.reachableNodes, _, by simp, .recv hm hk (by simp) (List.Perm.refl _)⟩
  | nil =>
    obtain ⟨t, rest, ht⟩ := List.exists_cons_of_ne_nil (hawaits.resolve_right (by simp [hc]))
    have hk : s.tasks[0]? = some t := by rw [ht]; rfl
    by_cases hdone : ∃ r, t.pc = .sending [] r
    · obtain ⟨r, hpc⟩ := hdone
      exact ⟨.join 0, _, by simp, .join hm hk hpc⟩
    · obtain ⟨⟨t', e⟩, hnext⟩ := Task.next_isSome env s t
        (by rw [hc]; exact hsize) (hexec t (List.mem_of_getElem? hk)) (fun r hr => hdone ⟨r, hr⟩)
      exact ⟨.task 0, _, by simp, .task hk hnext⟩

theorem reachable_progress (h : Reachable env s) (hret : ∀ r, s.main ≠ .returned r)
    (hexec : ∀ t ∈ s.tasks, ∀ seen, t.pc ≠ .executing seen) :
    ∃ c s', c ≠ .cancel ∧ Trans env s c s' := by
  by_cases hsel : s.main = .select
  · exact select_progress h.channel_size hsel (select_awaits h.ledger h.loopInv hsel) hexec
  · by_cases hshut : ∃ err, s.main = .shutdown err
    · obtain ⟨err, hm⟩ := hshut
      cases ht : s.tasks with
      | nil => exact ⟨.main, _, by simp, .stop hm ht⟩
      | cons t rest =>
        have hk : s.tasks[0]? = some t := by rw [ht]; rfl
        exact ⟨.abort 0, _, by simp, .abort hm hk⟩
    · obtain ⟨s', hs⟩ := main_moves hsel hret (fun err hm => hshut ⟨err, hm⟩)
      exact ⟨.main, s', by simp, hs⟩

/-- Every reachable state of `execute`, for any workflow, interleaving and tool behaviour, has
sound accounting. -/
theorem sound_accounting (env : ExecutorEnv) (s : State) (h : Reachable env s) :
    SoundAccounting env s := by
  have hledger := h.ledger
  have hloop := h.loopInv
  refine ⟨hledger.unsent, ?_, fun i x r hmem => (hledger.joined i x r hmem).1,
    hledger.finished_le, hloop.room, ?_, select_awaits hledger hloop, ?_, reachable_progress h⟩
  · intro t ht r hpc
    have hbye := (owes_sending hpc).mp (hledger.owes t ht)
    rw [List.append_nil] at hbye
    exact hbye
  · intro out hm
    exact hledger.channel_nil (hloop.done out hm).1
  · intro hm
    exact counters_eq hledger hloop (by rw [hm]; trivial)

end Soundness

/-- A workflow that forks, with room for one message at a time. -/
def forkEnv : ExecutorEnv where
  workflow := { Workflow.new "fork" "fork" "a" with
    steps := [{ Step.new "a" "echo" with edges := [⟨.step "b", none, 0⟩, ⟨.step "c", none, 0⟩] },
      Step.new "b" "echo", Step.new "c" "echo"] }
  config := { EngineConfig.default with finishedChannelSize := 1 }
  Answer := Json
  executeStep := fun v _ _ => .ok v
  evaluateAsBool := fun _ _ => .ok true

def blockedScript : List (Choice forkEnv.Answer) :=
  [.task 0, .task 0, .task 0, .answer 0 .null, .task 0, .task 0, .task 0,
    .recv 0 ["a"], .main, .main, .main, .main,
    .task 1, .task 1, .task 1, .answer 1 .null, .task 1, .task 1, .task 0]

theorem sound_accounting_blocked : ∃ s, run forkEnv (fun _ _ => True) .null blockedScript = some s ∧
    s.main = .select ∧ s.tasks.length = 2 ∧ (∀ t ∈ s.tasks, t.next forkEnv s = none) ∧
    SoundAccounting forkEnv s := by
  have hrun : ∃ s, run forkEnv (fun _ _ => True) .null blockedScript = some s ∧
      s.main = .select ∧ s.tasks.length = 2 ∧ s.tasks.all fun t => (t.next forkEnv s).isNone :=
    ⟨_, rfl, rfl, rfl, rfl⟩
  obtain ⟨s, hs, hmain, htasks, hblocked⟩ := hrun
  refine ⟨s, hs, hmain, htasks, ?_, sound_accounting forkEnv s (run_reaches (by decide) hs)⟩
  intro t ht
  exact Option.isNone_iff_eq_none.mp (List.all_eq_true.mp hblocked t ht)

end Konf.Executor
