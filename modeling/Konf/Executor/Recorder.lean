import Konf.Executor.ExecuteStep
import Konf.Executor.StepBudget

/-! # Logged executions

The events that the steps of a run hand to the `EventRecorder`, each with the execution it belongs to:
the task, and the number that the task has given the step. Whatever the tools answer and however the
tasks interleave, the events of one execution are its start, retries, and at most one end, in this
order. That every start has an end is not so: a step can be aborted, unwind, or return before its first
attempt. -/

namespace Konf.Executor
open Konf.Substrate Konf.Transition Konf.Fallible
set_option autoImplicit false

structure StepExecution where
  task : ℕ
  step : ℕ
deriving DecidableEq

def Task.execution (t : Task) : StepExecution := ⟨t.id, t.stepsExecuted⟩

structure NodeEvent where
  execution : StepExecution
  event : ExecutorEvent
deriving DecidableEq

inductive Boundary
  | started
  | ended
deriving DecidableEq

def ExecutorEvent.boundary : ExecutorEvent → Option Boundary
  | .nodeStarted _ _ => some .started
  | .nodeCompleted _ _ _ | .nodeFailed _ _ _ => some .ended
  | .toolRetry _ _ _ _ => none

def ExecutorEvent.node : ExecutorEvent → String × String
  | .nodeStarted nodeId tool | .nodeCompleted nodeId tool _ | .nodeFailed nodeId tool _
  | .toolRetry nodeId tool _ _ => (nodeId, tool)

def NodeEvent.isStart (e : NodeEvent) : Bool := decide (e.event.boundary = some .started)

/-- The boundaries of one execution, in order. -/
def phases (log : List NodeEvent) (x : StepExecution) : List Boundary :=
  (log.filter fun e => e.execution = x).filterMap fun e => e.event.boundary

/-- What a choice records: a task that enters its step its start, an answer the end it is reported
with, if any. -/
def raised {Answer : Type} (final : Answer → Step → Outputs → Option ExecutorEvent) (s : State) :
    Choice Answer → Option NodeEvent
  | .task k => (s.tasks[k]?).bind fun t => match t.pc with
    | .enter => some ⟨t.execution, .nodeStarted t.current.id t.current.tool⟩
    | _ => none
  | .answer k a => (s.tasks[k]?).bind fun t => match t.pc with
    | .executing seen => (final a t.current seen).map fun e => ⟨t.execution, e⟩
    | _ => none
  | _ => none

/-- The checks of `execute_step` before its first attempt: the inputs resolve, the tool is granted and
registered, and the step's own `grant` is covered. -/
def StepContext.admits {T : Type} [NamedTool T] (ctx : StepContext T) (lib : Externals) (step : Step)
    (outputs : Outputs) : Bool :=
  (resolveInputs lib step.input outputs).isOk && (checkToolAccess step.tool ctx.capabilities).isOk &&
    (ctx.registry.get step.tool).isSome && (ctx.toolCapabilities step).isOk

/-- A step that passes its checks, and whose attempts do not end in a panic. -/
def StepContext.reports {T : Type} [NamedTool T] (ctx : StepContext T) (lib : Externals)
    (answer : StepAnswer) (step : Step) (outputs : Outputs) : Bool :=
  ctx.admits lib step outputs && !ctx.panics step answer.attempt (maxAttempts step) 1

section Events
variable {T : Type} [NamedTool T] {ctx : StepContext T} {lib : Externals} {answer : StepAnswer}
  {step : Step} {outputs : Outputs} {e : ExecutorEvent}

theorem dispatch_of_admits (fresh : Uuid) (h : ctx.admits lib step outputs = true) :
    ∃ call, ctx.dispatch lib fresh step outputs = .ok call := by
  simp only [StepContext.admits, Bool.and_eq_true] at h
  obtain ⟨⟨⟨hinputs, haccess⟩, htool⟩, hcaps⟩ := h
  obtain ⟨inputs, hinputs⟩ := isOk_iff.mp hinputs
  obtain ⟨⟨⟩, haccess⟩ := isOk_iff.mp haccess
  obtain ⟨tool, htool⟩ := Option.isSome_iff_exists.mp htool
  obtain ⟨capabilities, hcaps⟩ := isOk_iff.mp hcaps
  have hcall : (ctx.dispatch lib fresh step outputs).toOption = _ :=
    dispatch_eq_lookup hinputs haccess hcaps
  rw [htool] at hcall
  exact ⟨_, ok_of_toOption hcall⟩

/-- A call that is reported ends in success or failure, under the step's own id and tool. -/
theorem finalEvent_cases (h : ctx.finalEvent lib answer step outputs = some e) :
    (∃ output, e = .nodeCompleted step.id step.tool output) ∨
      ∃ error, e = .nodeFailed step.id step.tool error := by
  unfold StepContext.finalEvent at h
  split at h
  · cases h
  · split_ifs at h
    split at h
    · cases h
      exact .inl ⟨_, rfl⟩
    · cases h
      exact .inr ⟨_, rfl⟩

theorem finalEvent_boundary (h : ctx.finalEvent lib answer step outputs = some e) :
    e.boundary = some .ended := by
  obtain ⟨output, rfl⟩ | ⟨error, rfl⟩ := finalEvent_cases h
  · rfl
  · rfl

theorem finalEvent_node (h : ctx.finalEvent lib answer step outputs = some e) :
    e.node = (step.id, step.tool) := by
  obtain ⟨output, rfl⟩ | ⟨error, rfl⟩ := finalEvent_cases h
  · rfl
  · rfl

/-- A step that gets to its first attempt, and whose attempts do not unwind, is reported. -/
theorem finalEvent_of_reports (h : ctx.reports lib answer step outputs = true) :
    ∃ e, ctx.finalEvent lib answer step outputs = some e := by
  simp only [StepContext.reports, Bool.and_eq_true, Bool.not_eq_true'] at h
  obtain ⟨hadmits, hpanics⟩ := h
  obtain ⟨call, hcall⟩ := dispatch_of_admits answer.newTraceId hadmits
  simp only [StepContext.finalEvent, hcall, hpanics, Bool.false_eq_true, if_false]
  split
  · exact ⟨_, rfl⟩
  · exact ⟨_, rfl⟩

theorem retryEvents_boundary {tool : String} {attempt : ℕ → Attempt} (left n : ℕ)
    (h : e ∈ ctx.retryEvents step tool attempt left n) : e.boundary = none := by
  induction left generalizing n with
  | zero => cases h
  | succ left ih =>
    -- a failed attempt announces its retry, then the loop goes on
    have hsettle : ∀ err : ToolError, e ∈ (if isRetryable err = false ∨ left = 0 then []
        else .toolRetry step.id tool n err.display ::
          ctx.retryEvents step tool attempt left (n + 1)) → e.boundary = none := by
      intro err hmem
      split_ifs at hmem
      · cases hmem
      · obtain rfl | hmem := List.mem_cons.mp hmem
        · rfl
        · exact ih (n + 1) hmem
    unfold StepContext.retryEvents at h
    split at h
    · cases h
    · cases h
    · cases h
    · exact hsettle _ h
    · exact hsettle _ h

theorem stepRetries_boundary (h : e ∈ ctx.stepRetries lib answer step outputs) :
    e.boundary = none := by
  unfold StepContext.stepRetries at h
  split at h
  · cases h
  · exact retryEvents_boundary _ _ h

end Events

section Phases
variable {log : List NodeEvent} {e : NodeEvent} {x : StepExecution}

theorem phases_append_ne (h : e.execution ≠ x) : phases (log ++ [e]) x = phases log x := by
  simp [phases, h]

theorem phases_append_self :
    phases (log ++ [e]) e.execution = phases log e.execution ++ e.event.boundary.toList := by
  cases hb : e.event.boundary <;> simp [phases, hb]

theorem phases_append_retry (h : e.event.boundary = none) :
    phases (log ++ [e]) x = phases log x := by
  by_cases hx : e.execution = x
  · rw [← hx, phases_append_self, h, Option.toList_none, List.append_nil]
  · exact phases_append_ne hx

theorem phases_eq_nil (h : ∀ e ∈ log, e.execution ≠ x) : phases log x = [] := by
  rw [phases, List.filter_eq_nil_iff.mpr fun e he => by simpa using h e he, List.filterMap_nil]

theorem mem_phases {b : Boundary} (h : b ∈ phases log x) :
    ∃ e ∈ log, e.execution = x ∧ e.event.boundary = some b := by
  obtain ⟨e, he, hb⟩ := List.mem_filterMap.mp h
  obtain ⟨he, hx⟩ := List.mem_filter.mp he
  exact ⟨e, he, of_decide_eq_true hx, hb⟩

/-- The starts of the executions that have not ended. -/
def openStarts (log : List NodeEvent) : List NodeEvent :=
  log.filter fun e => e.isStart && decide (phases log e.execution = [.started])

theorem mem_openStarts : e ∈ openStarts log ↔
    e ∈ log ∧ e.event.boundary = some .started ∧ phases log e.execution = [.started] := by
  simp [openStarts, NodeEvent.isStart]

theorem openStarts_start (hfresh : ∀ e' ∈ log, e'.execution ≠ e.execution)
    (hb : e.event.boundary = some .started) : openStarts (log ++ [e]) = openStarts log ++ [e] := by
  have hlast : phases (log ++ [e]) e.execution = [.started] := by
    rw [phases_append_self, phases_eq_nil hfresh, hb]
    rfl
  rw [openStarts, List.filter_append]
  congr 1
  · refine List.filter_congr ?_
    intro e' he'
    rw [phases_append_ne (hfresh e' he').symm]
  · simp [NodeEvent.isStart, hb, hlast]

theorem openStarts_retry (hb : e.event.boundary = none) :
    openStarts (log ++ [e]) = openStarts log := by
  rw [openStarts, List.filter_append]
  simp only [phases_append_retry hb, NodeEvent.isStart, hb, List.filter_cons, reduceCtorEq, decide_false,
    Bool.false_and, Bool.false_eq_true, if_false, List.filter_nil, List.append_nil]
  rfl

theorem openStarts_end (hopen : phases log e.execution = [.started])
    (hb : e.event.boundary = some .ended) :
    openStarts (log ++ [e]) = (openStarts log).filter fun e' => e'.execution ≠ e.execution := by
  have hdone : phases (log ++ [e]) e.execution = [.started, .ended] := by
    rw [phases_append_self, hopen, hb]
    rfl
  have hlast : ([e].filter fun e' => e'.isStart &&
      decide (phases (log ++ [e]) e'.execution = [.started])) = [] := by
    simp [NodeEvent.isStart, hb]
  rw [openStarts, List.filter_append, hlast, List.append_nil, openStarts, List.filter_filter]
  refine List.filter_congr ?_
  intro e' _
  by_cases hx : e.execution = e'.execution
  · rw [← hx, hdone]
    simp
  · rw [phases_append_ne hx]
    simp [Ne.symm hx]

end Phases

/-! ## The log of a run -/

/-- A start, or a start and an end. -/
def Paired (ps : List Boundary) : Prop := ps = [] ∨ ps = [.started] ∨ ps = [.started, .ended]

/-- The log as far as it follows from the state of the run alone. -/
structure Logged (s : State) (log : List NodeEvent) : Prop where
  paired : ∀ x, Paired (phases log x)
  flying : ∀ t ∈ s.tasks, 0 < t.pc.inFlight → phases log t.execution = [.started]
  ahead : ∀ t ∈ s.tasks, ∀ e ∈ log, e.execution.task = t.id →
    e.execution.step ≤ t.ended + t.pc.inFlight
  born : ∀ e ∈ log, e.execution.task < s.totalSpawned

/-- A step that records nothing: the tasks after it are tasks from before it, as far in their chains,
or new ones, and no call begins. -/
structure Quiet (s s' : State) : Prop where
  spawned : s.totalSpawned ≤ s'.totalSpawned
  origin : ∀ u' ∈ s'.tasks, (s.totalSpawned ≤ u'.id ∧ u'.pc.inFlight = 0) ∨
    ∃ u ∈ s.tasks, u'.id = u.id ∧ u'.ended + u'.pc.inFlight = u.ended + u.pc.inFlight ∧
      (0 < u'.pc.inFlight → 0 < u.pc.inFlight ∧ u'.execution = u.execution)

section Log
variable {env : ExecutorEnv} {s s' : State} {c : Choice env.Answer} {log : List NodeEvent}
  {final : env.Answer → Step → Outputs → Option ExecutorEvent} {k : ℕ} {t t' : Task}

/-- A step in flight is the last that its task has counted. -/
theorem Task.Tallied.execution_step (ht : t.Tallied) (hfly : 0 < t.pc.inFlight) :
    t.stepsExecuted = t.ended + t.pc.inFlight := by
  have hle := ht.unfinished
  unfold Task.ended
  cases hpc : t.pc <;> simp_all [TaskPc.inFlight, TaskPc.unfinished]

theorem Logged.quiet (hi : Logged s log) (hq : Quiet s s') : Logged s' log := by
  refine ⟨hi.paired, ?_, ?_, ?_⟩
  · intro u' hu' hfly
    obtain ⟨-, hnone⟩ | ⟨u, hu, -, -, hback⟩ := hq.origin u' hu'
    · omega
    · obtain ⟨hfly', hexec⟩ := hback hfly
      rw [hexec]
      exact hi.flying u hu hfly'
  · intro u' hu' e he hid
    obtain ⟨hnew, -⟩ | ⟨u, hu, hsame, hcount, -⟩ := hq.origin u' hu'
    · have hborn := hi.born e he
      omega
    · rw [hcount]
      exact hi.ahead u hu e he (hid.trans hsame)
  · intro e he
    exact Nat.lt_of_lt_of_le (hi.born e he) hq.spawned

theorem Quiet.move (hids : (s.tasks.map Task.id).Nodup) (ht : t.Tallied)
    (hk : s.tasks[k]? = some t) (e : Option Event) (hid : t'.id = t.id) (h : t.Counts t' 0) :
    Quiet s (s.move k t' e) := by
  refine ⟨by rw [State.move_totalSpawned], ?_⟩
  intro u' hu'
  right
  rw [State.move_tasks] at hu'
  obtain rfl | ⟨hu', -⟩ := (Indexed.mem_set hids hk).mp hu'
  · refine ⟨t, List.mem_of_getElem? hk, hid, h.calls, fun hfly => ?_⟩
    have hless := (h.returns rfl).1
    have hfly' : 0 < t.pc.inFlight := by omega
    refine ⟨hfly', ?_⟩
    rw [Task.execution, Task.execution, hid, h.tallied.execution_step hfly,
      ht.execution_step hfly', h.calls]
    rfl
  · exact ⟨u', hu', rfl, rfl, fun hfly => ⟨hfly, rfl⟩⟩

theorem Logged.fresh (hi : Logged s log) (ht : t.Tallied) (hmem : t ∈ s.tasks)
    (hpc : t.pc = .enter) : ∀ e ∈ log, e.execution ≠ t.execution := by
  have hle := ht.unfinished
  rw [hpc] at hle
  intro e he heq
  have hbound := hi.ahead t hmem e he (by rw [heq]; rfl)
  rw [heq, Task.ended, hpc] at hbound
  have hstep : t.stepsExecuted ≤ t.stepsExecuted - 1 := hbound
  have hone : 1 ≤ t.stepsExecuted := hle
  omega

theorem Logged.enter (hi : Logged s log) (hl : Ledger s) (ht : t.Tallied)
    (hk : s.tasks[k]? = some t) (hpc : t.pc = .enter) (e : Option Event) :
    Logged (s.move k { t with pc := .readOutputs } e)
      (log ++ [⟨t.execution, .nodeStarted t.current.id t.current.tool⟩]) := by
  have hmem : t ∈ s.tasks := List.mem_of_getElem? hk
  have hnew : phases log t.execution = [] := phases_eq_nil (hi.fresh ht hmem hpc)
  refine ⟨?_, ?_, ?_, ?_⟩
  · intro x
    by_cases hx : t.execution = x
    · subst hx
      rw [phases_append_self, hnew]
      exact .inr (.inl rfl)
    · rw [phases_append_ne hx]
      exact hi.paired x
  · intro u hu hfly
    rw [State.move_tasks] at hu
    obtain rfl | ⟨hu, hne⟩ := (Indexed.mem_set hl.ids hk).mp hu
    · rw [show Task.execution { t with pc := .readOutputs } = t.execution from rfl,
        phases_append_self, hnew]
      rfl
    · rw [phases_append_ne fun heq => hne (congrArg StepExecution.task heq).symm]
      exact hi.flying u hu hfly
  · intro u hu ev hev hid
    rw [State.move_tasks] at hu
    obtain hev | hev := List.mem_append.mp hev
    · obtain rfl | ⟨hu, -⟩ := (Indexed.mem_set hl.ids hk).mp hu
      · have hbound := hi.ahead t hmem ev hev hid
        simp only [Task.ended, TaskPc.inFlight, TaskPc.unfinished, hpc] at hbound ⊢
        omega
      · exact hi.ahead u hu ev hev hid
    · rw [List.mem_singleton.mp hev] at hid ⊢
      obtain rfl | ⟨hu, hne⟩ := (Indexed.mem_set hl.ids hk).mp hu
      · change t.stepsExecuted ≤ t.stepsExecuted - 1 + 1
        omega
      · exact absurd hid.symm hne
  · intro ev hev
    rw [State.move_totalSpawned]
    obtain hev | hev := List.mem_append.mp hev
    · exact hi.born ev hev
    · rw [List.mem_singleton.mp hev]
      exact hl.ids_lt t hmem

theorem Logged.append (hi : Logged s log) {e : NodeEvent} (hold : phases log e.execution ≠ [])
    (hpaired : Paired (phases log e.execution ++ e.event.boundary.toList))
    (hfly : ∀ u ∈ s.tasks, 0 < u.pc.inFlight → e.execution = u.execution →
      e.event.boundary = none) : Logged s (log ++ [e]) := by
  obtain ⟨e₀, he₀, hsame⟩ : ∃ e₀ ∈ log, e₀.execution = e.execution := by
    by_contra hnone
    exact hold (phases_eq_nil fun e₀ he₀ heq => hnone ⟨e₀, he₀, heq⟩)
  refine ⟨?_, ?_, ?_, ?_⟩
  · intro x
    by_cases hx : e.execution = x
    · rw [← hx, phases_append_self]
      exact hpaired
    · rw [phases_append_ne hx]
      exact hi.paired x
  · intro u hu hf
    by_cases hx : e.execution = u.execution
    · rw [phases_append_retry (hfly u hu hf hx)]
      exact hi.flying u hu hf
    · rw [phases_append_ne hx]
      exact hi.flying u hu hf
  · intro u hu ev hev hid
    obtain hev | hev := List.mem_append.mp hev
    · exact hi.ahead u hu ev hev hid
    · rw [List.mem_singleton.mp hev, ← hsame] at hid ⊢
      exact hi.ahead u hu e₀ he₀ hid
  · intro ev hev
    obtain hev | hev := List.mem_append.mp hev
    · exact hi.born ev hev
    · rw [List.mem_singleton.mp hev, ← hsame]
      exact hi.born e₀ he₀

theorem Quiet.of_subset (htasks : ∀ u ∈ s'.tasks, u ∈ s.tasks)
    (hspawned : s'.totalSpawned = s.totalSpawned) : Quiet s s' :=
  ⟨hspawned.ge, fun u hu => .inr ⟨u, htasks u hu, rfl, rfl, fun hfly => ⟨hfly, rfl⟩⟩⟩

theorem Task.next_enter {e : Option Event} (hn : t.next env s = some (t', e)) (hpc : t.pc = .enter) :
    t' = { t with pc := .readOutputs } := by
  simp only [Task.next, hpc, Option.some.injEq, Prod.mk.injEq] at hn
  exact hn.1.symm

/-- What a transition records: a start, the end of an answered step if it is reported, or nothing. -/
inductive Raises (env : ExecutorEnv) (final : env.Answer → Step → Outputs → Option ExecutorEvent)
    (s : State) : Choice env.Answer → State → Option NodeEvent → Prop
  | enter {k : ℕ} {t : Task} (e : Option Event) (hk : s.tasks[k]? = some t) (hpc : t.pc = .enter) :
      Raises env final s (.task k) (s.move k { t with pc := .readOutputs } e)
        (some ⟨t.execution, .nodeStarted t.current.id t.current.tool⟩)
  | answer {k : ℕ} {t : Task} {seen : Outputs} (a : env.Answer) (hk : s.tasks[k]? = some t)
      (hpc : t.pc = .executing seen)
      (hquiet : Quiet s (s.move k (t.answered (env.executeStep a t.current seen)) none)) :
      Raises env final s (.answer k a)
        (s.move k (t.answered (env.executeStep a t.current seen)) none)
        ((final a t.current seen).map fun e => ⟨t.execution, e⟩)
  | quiet {c : Choice env.Answer} {s' : State} (hanswer : ∀ k a, c ≠ .answer k a)
      (hquiet : Quiet s s') : Raises env final s c s' none

theorem Trans.raises (h : Trans env s c s')
    (final : env.Answer → Step → Outputs → Option ExecutorEvent) (hi : ∀ t ∈ s.tasks, t.Tallied)
    (hids : (s.tasks.map Task.id).Nodup) : Raises env final s c s' (raised final s c) := by
  cases h with
  | @task k t t' e hk hn =>
    have hmove := Task.next_move hn
    obtain hnone | ⟨-, hpc⟩ := hmove.call_cases
    · have hcounts := hmove.counts (hi t (List.mem_of_getElem? hk))
      rw [hnone] at hcounts
      have hraised : raised final s (.task k) = none := by
        simp only [raised, hk, Option.bind_some]
        split
        · rename_i hpc
          simp only [Task.next, hpc, Option.some.injEq, Prod.mk.injEq] at hn
          rw [← hn.2] at hnone
          cases hnone
        · rfl
      rw [hraised]
      exact .quiet (by simp)
        (.move hids (hi t (List.mem_of_getElem? hk)) hk e hmove.account.1 hcounts)
    · have hraised : raised final s (.task k) =
          some ⟨t.execution, .nodeStarted t.current.id t.current.tool⟩ := by
        simp only [raised, hk, Option.bind_some, hpc]
      rw [hraised, Task.next_enter hn hpc]
      exact .enter e hk hpc
  | @answer k t seen a hk hpc =>
    have hmove : Task.Move env s t (t.answered (env.executeStep a t.current seen)) none :=
      .answer a hpc
    have hcounts := hmove.counts (hi t (List.mem_of_getElem? hk))
    have hraised : raised final s (.answer k a) =
        (final a t.current seen).map fun e => ⟨t.execution, e⟩ := by
      simp only [raised, hk, Option.bind_some, hpc]
    rw [hraised]
    exact .answer a hk hpc
      (.move hids (hi t (List.mem_of_getElem? hk)) hk none hmove.account.1 hcounts)
  | join | abort => exact .quiet (by simp) (.of_subset (fun u hu => List.mem_of_mem_eraseIdx hu) rfl)
  | @depsMet step todo n =>
    refine .quiet (by simp) ⟨Nat.le_succ _, ?_⟩
    intro u hu
    rcases List.mem_append.mp (show u ∈ s.tasks ++ [Task.spawned s.totalSpawned step] from hu)
      with hu | hu
    · exact .inr ⟨u, hu, rfl, rfl, fun hfly => ⟨hfly, rfl⟩⟩
    · rw [List.mem_singleton.mp hu]
      exact .inl ⟨Nat.le_refl _, rfl⟩
  | _ => exact .quiet (by simp) (.of_subset (fun u hu => hu) rfl)

theorem Logged.step (hi : Logged s log) (hs : Tallies s) (hl : Ledger s)
    (hfinal : ∀ a step seen e, final a step seen = some e → e.boundary = some .ended)
    (h : Trans env s c s') : Logged s' (log ++ (raised final s c).toList) := by
  have hraises := h.raises final hs.tallied hl.ids
  generalize raised final s c = event at hraises ⊢
  cases hraises with
  | @enter k t e hk hpc => exact hi.enter hl (hs.tallied t (List.mem_of_getElem? hk)) hk hpc e
  | @answer k t seen a hk hpc hquiet =>
    have hi' := hi.quiet hquiet
    cases hend : final a t.current seen with
    | none => rwa [Option.map_none, Option.toList_none, List.append_nil]
    | some e =>
      have hmem : t ∈ s.tasks := List.mem_of_getElem? hk
      have hopen : phases log t.execution = [.started] :=
        hi.flying t hmem (by rw [hpc]; exact Nat.one_pos)
      refine hi'.append (e := ⟨t.execution, e⟩) ?_ ?_ ?_
      · rw [hopen]
        exact List.cons_ne_nil _ _
      · rw [hopen, hfinal a t.current seen e hend]
        exact .inr (.inr rfl)
      · intro u hu hfly heq
        -- the answered task is the only one with this execution
        rw [State.move_tasks] at hu
        obtain rfl | ⟨-, hne⟩ := (Indexed.mem_set hl.ids hk).mp hu
        · unfold Task.answered at hfly
          split at hfly <;> exact absurd hfly (Nat.lt_irrefl 0)
        · exact absurd (congrArg StepExecution.task heq).symm hne
  | quiet _ hquiet =>
    rw [Option.toList_none, List.append_nil]
    exact hi.quiet hquiet

/-- A call in flight stays so unless it is answered or aborted. -/
theorem Trans.kept (h : Trans env s c s') (hids : (s.tasks.map Task.id).Nodup)
    (hanswer : ∀ k a, c ≠ .answer k a)
    (habort : ∀ k t, c = .abort k → s.tasks[k]? = some t → t.pc.inFlight = 0) {u : Task}
    (hu : u ∈ s.tasks) (hfly : 0 < u.pc.inFlight) :
    ∃ u' ∈ s'.tasks, 0 < u'.pc.inFlight ∧ u'.execution = u.execution ∧ u'.current = u.current := by
  have herase : ∀ {k : ℕ} {t : Task}, s.tasks[k]? = some t → t.pc.inFlight = 0 →
      u ∈ s.tasks.eraseIdx k := by
    intro k t hk hnone
    refine (Indexed.mem_eraseIdx hids hk).mpr ⟨hu, fun heq => ?_⟩
    rw [List.inj_on_of_nodup_map hids hu (List.mem_of_getElem? hk) heq] at hfly
    omega
  cases h with
  | @task k t t' e hk hn =>
    rw [State.move_tasks]
    by_cases hid : u.id = t.id
    · -- in flight, the task only reads its outputs
      have hsame := List.inj_on_of_nodup_map hids hu (List.mem_of_getElem? hk) hid
      subst hsame
      have hread : t' = { u with pc := .executing s.outputs } := by
        cases hpc : u.pc with
        | readOutputs =>
          simp only [Task.next, hpc, Option.some.injEq, Prod.mk.injEq] at hn
          exact hn.1.symm
        | executing seen =>
          simp only [Task.next, hpc] at hn
          cases hn
        | _ =>
          rw [hpc] at hfly
          exact absurd hfly (Nat.lt_irrefl 0)
      refine ⟨t', (Indexed.mem_set hids hk).mpr (.inl rfl), ?_⟩
      rw [hread]
      exact ⟨Nat.one_pos, rfl, rfl⟩
    · exact ⟨u, (Indexed.mem_set hids hk).mpr (.inr ⟨hu, hid⟩), hfly, rfl, rfl⟩
  | @answer k _ _ a => exact absurd rfl (hanswer k a)
  | @join k t result _ hk hpc => exact ⟨u, herase hk (by rw [hpc]; rfl), hfly, rfl, rfl⟩
  | @abort k t _ _ hk => exact ⟨u, herase hk (habort k t rfl hk), hfly, rfl, rfl⟩
  | depsMet => exact ⟨u, List.mem_append_left _ hu, hfly, rfl, rfl⟩
  | _ => exact ⟨u, hu, hfly, rfl, rfl⟩

theorem logged_start (env : ExecutorEnv) (input : Json) : Logged (start env input) [] := by
  refine ⟨fun _ => .inl rfl, ?_, by simp, by simp⟩
  intro t ht hfly
  unfold start at ht
  split at ht
  · rw [List.mem_singleton.mp ht] at hfly
    exact absurd hfly (Nat.lt_irrefl 0)
  · cases ht

end Log

end Konf.Executor
