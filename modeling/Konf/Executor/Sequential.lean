import Konf.Executor.Accounting
import Konf.Executor.TaskLoop

/-! # Straight workflows

A workflow is straight if no step has two successors at once and none of them waits for more than one
step. What such a workflow means is said by a sequential machine that knows neither tasks nor a channel
nor a main loop: it calls one tool after the other. The executor refines it, in every interleaving. -/

namespace Konf.Executor
open Konf.Substrate Konf.Transition
set_option autoImplicit false

/-! ## The sequential machine -/

/-- Between two answers: the tool of the step is being called, with these outputs, as call number
`steps`; or there is a result. -/
inductive Sequence
  | calling (step : Step) (iteration steps : ℕ) (outputs : Outputs)
  | finished (result : TaskResult)

namespace Sequence

def call (step : Step) (iteration steps : ℕ) (outputs : Outputs) : Sequence :=
  .calling step iteration (steps + 1) (match step.repeat_.bind RepeatConfig.asVar with
    | some var => outputs.insert var (Json.ofNat iteration)
    | none => outputs)

variable (env : ExecutorEnv)

def leave (step : Step) (val : Json) (steps : ℕ) (outputs : Outputs) : Sequence :=
  match evaluateEdgesTargets env step outputs with
  | .ok [.step target] => match env.workflow.getStep target with
    | some next => call next 0 steps outputs
    | none => .finished (.ok ⟨some val, steps⟩)
  | .ok _ => .finished (.ok ⟨some val, steps⟩)
  | .error e => .finished (.error e)

def afterOutput (step : Step) (iteration : ℕ) (val : Json) (steps : ℕ) (outputs : Outputs) : Sequence :=
  match step.repeat_ with
  | none => leave env step val steps outputs
  | some r => match env.evaluateAsBool outputs r.until_ with
    | .ok true => leave env step val steps outputs
    | .ok false =>
      if iteration + 1 < r.max then call step (iteration + 1) steps outputs
      else leave env step val steps outputs
    | .error e =>
      .finished (.error (env.nodeFailed step.id ("Repeat condition evaluation failed: " ++ e)))

def afterError (step : Step) (err : KonfluxError) (steps : ℕ) (outputs : Outputs) : Sequence :=
  match step.onError with
  | .fail => .finished (.error err)
  | .skip => .finished (.ok ⟨none, steps⟩)
  | .fallback value => .finished (.ok ⟨some (.str value), steps⟩)
  | .goto target => match env.workflow.getStep target with
    | some next => call next 0 steps outputs
    | none => .finished (.error err)

/-- The tool answers. -/
def answer : Sequence → env.Answer → Option Sequence
  | .calling step iteration steps outputs, a => some (match env.executeStep a step outputs with
    | .ok val => afterOutput env step iteration val steps (outputs.insert step.id val)
    | .error err => afterError env step err steps outputs)
  | .finished _, _ => none

/-- What `execute` makes of a result. The step budget is looked at when all is over. -/
def verdict : Sequence → Option (Except KonfluxError Json)
  | .calling _ _ _ _ => none
  | .finished (.ok res) => some
    (if env.config.maxSteps < res.steps then .error env.maxStepsExceeded else .ok (res.output.getD .null))
  | .finished (.error e) => some (.error e)

def begin_ (input : Json) : Sequence :=
  match env.workflow.getStep env.workflow.entry with
  | some entry => call entry 0 0 ((∅ : Outputs).insert "input" input)
  | none => .finished (.error (env.nodeFailed env.workflow.entry "Entry node not found"))

end Sequence

/-! ## Straight workflows -/

/-- All edges but the last one have a condition. -/
def OneSuccessor (step : Step) : Prop :=
  ∀ e ∈ (step.edges.insertionSort fun a b => a.priority ≤ b.priority).dropLast, e.condition.isSome = true

instance (step : Step) : Decidable (OneSuccessor step) := List.decidableBAll _ _

structure Straight (w : Workflow) : Prop where
  single : ∀ step ∈ w.steps, OneSuccessor step
  inline : ∀ step ∈ w.steps, ∀ target ∈ step.targets, ∀ next ∈ w.getStep target,
    next.dependsOn.length ≤ 1

section Targets
variable {env : ExecutorEnv} {step : Step} {outputs : Outputs} {targets : List EdgeTarget}

theorem walkEdges_single {edges : List Edge}
    (h : walkEdges env step outputs edges [] = .ok targets)
    (hsingle : ∀ e ∈ edges.dropLast, e.condition.isSome = true) : targets.length ≤ 1 := by
  induction edges with
  | nil =>
    rw [walkEdges] at h
    cases h
    simp
  | cons edge rest ih =>
    rw [walkEdges] at h
    cases hcond : edge.condition with
    | none =>
      cases rest with
      | nil =>
        rw [hcond] at h
        cases h
        simp
      | cons next rest =>
        have hsome := hsingle edge List.mem_cons_self
        rw [hcond] at hsome
        cases hsome
    | some condition =>
      rw [hcond] at h
      simp only at h
      split at h
      · cases h
        simp
      · apply ih h
        intro e he
        cases rest with
        | nil => cases he
        | cons next rest => exact hsingle e (List.mem_cons_of_mem _ he)
      · cases h

theorem evaluateEdgesTargets_single (hsingle : OneSuccessor step)
    (h : evaluateEdgesTargets env step outputs = .ok targets) : targets.length ≤ 1 := by
  rw [evaluateEdgesTargets] at h
  split_ifs at h
  · cases h
    simp
  · exact walkEdges_single h hsingle

end Targets
/-! ## The task that does it all -/

/-- The steps that the main loop passes over. -/
def Spent (env : ExecutorEnv) (s : State) (x : StepId) : Prop :=
  x ∈ s.executedNodes ∨ env.workflow.getStep x = none

def FinishedInfo.Idle (env : ExecutorEnv) : FinishedInfo → Prop
  | .node _ => True
  | .spawnNext target => env.workflow.getStep target = none

/-- Where the sequential machine is when the task stands here. -/
def Task.sequence (env : ExecutorEnv) (t : Task) (outputs : Outputs) : Sequence :=
  match t.pc with
  | .loopTop => .call t.current t.iteration t.stepsExecuted outputs
  | .setVar var =>
    .calling t.current t.iteration t.stepsExecuted (outputs.insert var (Json.ofNat t.iteration))
  | .enter | .readOutputs | .executing _ => .calling t.current t.iteration t.stepsExecuted outputs
  | .succeeded val => .afterOutput env t.current t.iteration val t.stepsExecuted
    (outputs.insert t.current.id val)
  | .checkRepeat val => .afterOutput env t.current t.iteration val t.stepsExecuted outputs
  | .chooseNext val => .leave env t.current val t.stepsExecuted outputs
  | .failed err => .afterError env t.current err t.stepsExecuted outputs
  | .sending _ result => .finished result

/-- The task has seen that the run is cancelled. -/
def Task.GivesUp (env : ExecutorEnv) (t : Task) : Prop :=
  ∃ msgs, t.pc = .sending msgs (.error env.cancelledError)

/-- The task does what the sequential machine does. -/
structure Task.Does (env : ExecutorEnv) (outputs : Outputs) (cancelled : Bool) (q : Sequence) (t : Task) :
    Prop where
  current : t.current ∈ env.workflow.steps
  seen : ∀ seen, t.pc = .executing seen → seen = outputs
  pending : ∀ msgs result, t.pc = .sending msgs result → ∀ m ∈ msgs, m.Idle env
  goes : t.sequence env outputs = q ∨ cancelled = true ∧ t.GivesUp env

section Moves
variable {env : ExecutorEnv} {s : State} {outputs outputs' : Outputs} {cancelled : Bool} {q q' : Sequence}
  {t t' : Task} {e : Option Event}

theorem Task.Does.working (h : t.Does env outputs cancelled q) (hopen : t.pc.Open) :
    t.sequence env outputs = q := by
  obtain hgoes | ⟨-, msgs, hpc⟩ := h.goes
  · exact hgoes
  · exact absurd hpc (hopen msgs _)

theorem Task.Does.close (h : t.Does env outputs cancelled q) {msgs : List FinishedInfo} {result : TaskResult}
    (hmsgs : ∀ m ∈ msgs, m.Idle env)
    (hgoes : .finished result = q ∨ cancelled = true ∧ result = .error env.cancelledError) :
    (t.close msgs result).Does env outputs' cancelled q := by
  refine ⟨h.current, ?_, ?_, ?_⟩
  · intro seen hpc
    cases hpc
  · intro msgs' result' hpc m hm
    cases hpc
    obtain hm | hm := List.mem_append.mp hm
    · exact hmsgs m hm
    · rw [List.mem_singleton.mp hm]
      trivial
  · obtain hgoes | ⟨hc, rfl⟩ := hgoes
    · exact .inl hgoes
    · exact .inr ⟨hc, _, rfl⟩

theorem Task.Does.continueAt {next : Step} {target : StepId}
    (hnext : env.workflow.getStep target = some next)
    (hgoes : .call next 0 t.stepsExecuted outputs = q) :
    (t.continueAt next).1.Does env outputs cancelled q := by
  refine ⟨Workflow.getStep_mem hnext, ?_, ?_, .inl hgoes⟩
  · intro seen hpc
    cases hpc
  · intro msgs result hpc
    cases hpc

/-- A task whose program counter only moves on. -/
theorem Task.Does.goOn (h : t.Does env outputs cancelled q) {iteration steps : ℕ} {pc : TaskPc}
    (hseen : ∀ seen, pc = .executing seen → seen = outputs') (hopen : pc.Open)
    (hgoes : Task.sequence env { t with iteration := iteration, stepsExecuted := steps, pc := pc } outputs' =
      q') :
    Task.Does env outputs' cancelled q' { t with iteration := iteration, stepsExecuted := steps, pc := pc } := by
  refine ⟨h.current, hseen, ?_, .inl hgoes⟩
  intro msgs result hpc
  exact absurd hpc (hopen msgs result)

theorem Task.Does.follow (hstraight : Straight env.workflow) (h : t.Does env outputs cancelled q)
    {val : Json} {targets : List EdgeTarget}
    (hedges : evaluateEdgesTargets env t.current outputs = .ok targets)
    (hleave : Sequence.leave env t.current val t.stepsExecuted outputs = q) :
    (t.follow env val targets).1.Does env outputs cancelled q := by
  rw [Sequence.leave, hedges] at hleave
  have hone := evaluateEdgesTargets_single (hstraight.single t.current h.current) hedges
  unfold Task.follow
  cases targets with
  | nil => exact h.close (by simp) (.inl hleave)
  | cons x rest =>
    cases rest with
    | cons y rest => simp at hone
    | nil =>
      cases x with
      | ret => exact h.close (by simp [spawnMessage]) (.inl hleave)
      | step target =>
        simp only at hleave ⊢
        cases hnext : env.workflow.getStep target with
        | none =>
          rw [hnext] at hleave
          apply h.close _ (.inl hleave)
          intro m hm
          rw [List.mem_singleton.mp hm]
          exact hnext
        | some next =>
          rw [hnext] at hleave
          have htarget := evaluateEdgesTargets_target hedges List.mem_cons_self
          have hfew := hstraight.inline t.current h.current target htarget next hnext
          simp only [if_pos hfew]
          exact .continueAt hnext hleave

theorem Task.Does.recover (h : t.Does env outputs cancelled q) {err : KonfluxError}
    (hfailed : Sequence.afterError env t.current err t.stepsExecuted outputs = q) :
    (t.recover env err).1.Does env (((t.recover env err).2.map fun e => e.onOutputs outputs).getD outputs)
      cancelled q := by
  unfold Sequence.afterError at hfailed
  unfold Task.recover
  cases haction : t.current.onError with
  | fail =>
    rw [haction] at hfailed
    exact h.close (by simp) (.inl hfailed)
  | skip =>
    rw [haction] at hfailed
    exact h.close (by simp) (.inl hfailed)
  | fallback value =>
    rw [haction] at hfailed
    exact h.close (by simp) (.inl hfailed)
  | goto target =>
    rw [haction] at hfailed
    simp only at hfailed ⊢
    cases hnext : env.workflow.getStep target with
    | none =>
      rw [hnext] at hfailed
      exact h.close (by simp) (.inl hfailed)
    | some next =>
      rw [hnext] at hfailed
      exact .continueAt hnext hfailed

theorem Task.Does.repeatOrLeave (h : t.Does env outputs cancelled q) {val : Json}
    (hleave : Sequence.afterOutput env t.current t.iteration val t.stepsExecuted outputs = q) :
    (t.repeatOrLeave env val outputs).Does env outputs cancelled q := by
  unfold Sequence.afterOutput at hleave
  unfold Task.repeatOrLeave
  cases hrepeat : t.current.repeat_ with
  | none =>
    rw [hrepeat] at hleave
    exact h.goOn (by simp) (by simp [TaskPc.Open]) hleave
  | some r =>
    rw [hrepeat] at hleave
    simp only at hleave ⊢
    cases huntil : env.evaluateAsBool outputs r.until_ with
    | error e =>
      rw [huntil] at hleave
      exact h.close (by simp) (.inl hleave)
    | ok stop =>
      rw [huntil] at hleave
      cases stop with
      | true => exact h.goOn (by simp) (by simp [TaskPc.Open]) hleave
      | false =>
        simp only at hleave ⊢
        by_cases hmore : t.iteration + 1 < r.max
        · rw [if_pos hmore] at hleave ⊢
          exact h.goOn (by simp) (by simp [TaskPc.Open]) hleave
        · rw [if_neg hmore] at hleave ⊢
          exact h.goOn (by simp) (by simp [TaskPc.Open]) hleave

theorem Task.Does.loopTop (h : t.Does env s.outputs s.cancelled q) (hpc : t.pc = .loopTop)
    (hn : t.next env s = some (t', e)) :
    t'.Does env ((e.map fun e => e.onOutputs s.outputs).getD s.outputs) s.cancelled q := by
  have hgoes := h.working (by simp [hpc, TaskPc.Open])
  unfold Task.sequence at hgoes
  unfold Task.next at hn
  rw [hpc] at hn hgoes
  simp only at hn hgoes
  cases hc : s.cancelled with
  | true =>
    rw [hc, if_pos rfl] at hn
    cases hn
    exact (hc ▸ h).close (by simp) (.inr ⟨rfl, rfl⟩)
  | false =>
    rw [hc, if_neg Bool.false_ne_true] at hn
    cases hn
    unfold Sequence.call at hgoes
    rw [hc] at h
    cases hvar : t.current.repeat_.bind RepeatConfig.asVar with
    | none =>
      rw [hvar] at hgoes
      exact h.goOn (by simp) (by simp [TaskPc.Open]) hgoes
    | some var =>
      rw [hvar] at hgoes
      exact h.goOn (by simp) (by simp [TaskPc.Open]) hgoes

theorem Task.Does.succeeded (h : t.Does env s.outputs s.cancelled q) {val : Json}
    (hpc : t.pc = .succeeded val) (hn : t.next env s = some (t', e)) :
    t'.Does env ((e.map fun e => e.onOutputs s.outputs).getD s.outputs) s.cancelled q := by
  have hgoes := h.working (by simp [hpc, TaskPc.Open])
  unfold Task.sequence at hgoes
  unfold Task.next at hn
  rw [hpc] at hn hgoes
  cases hn
  cases hrepeat : t.current.repeat_ with
  | none =>
    refine h.goOn (by simp) (by simp [TaskPc.Open]) ?_
    simpa [Sequence.afterOutput, hrepeat, Task.sequence, Event.onOutputs] using hgoes
  | some r => exact h.goOn (by simp) (by simp [TaskPc.Open]) hgoes

theorem Task.follow_outputs (val : Json) (targets : List EdgeTarget) (outputs : Outputs) :
    ((t.follow env val targets).2.map fun e => e.onOutputs outputs).getD outputs = outputs := by
  unfold Task.follow
  split
  · split
    · split_ifs <;> rfl
    · rfl
  · rfl

theorem Task.Does.chooseNext (hstraight : Straight env.workflow) (h : t.Does env s.outputs s.cancelled q)
    {val : Json} (hpc : t.pc = .chooseNext val) (hn : t.next env s = some (t', e)) :
    t'.Does env ((e.map fun e => e.onOutputs s.outputs).getD s.outputs) s.cancelled q := by
  have hgoes := h.working (by simp [hpc, TaskPc.Open])
  unfold Task.sequence at hgoes
  unfold Task.next at hn
  rw [hpc] at hn hgoes
  simp only at hn hgoes
  cases hedges : evaluateEdgesTargets env t.current s.outputs with
  | error err =>
    rw [hedges] at hn
    cases hn
    rw [Sequence.leave, hedges] at hgoes
    exact h.close (by simp) (.inl hgoes)
  | ok targets =>
    have hsame : ((t.follow env val targets).2.map fun e => e.onOutputs s.outputs).getD s.outputs =
        s.outputs := t.follow_outputs val targets s.outputs
    have hdoes := h.follow hstraight hedges hgoes
    rw [hedges] at hn
    rw [Option.some.inj hn] at hsame hdoes
    rw [hsame]
    exact hdoes

theorem Task.Does.sending (h : t.Does env s.outputs s.cancelled q) {msgs : List FinishedInfo}
    {result : TaskResult} (hpc : t.pc = .sending msgs result) (hn : t.next env s = some (t', e)) :
    t'.Does env ((e.map fun e => e.onOutputs s.outputs).getD s.outputs) s.cancelled q := by
  unfold Task.next at hn
  rw [hpc] at hn
  cases msgs with
  | nil => cases hn
  | cons m msgs =>
    simp only at hn
    split_ifs at hn
    cases hn
    refine ⟨h.current, ?_, ?_, ?_⟩
    · intro seen hpc
      cases hpc
    · intro msgs' result' hpc' m' hm'
      cases hpc'
      exact h.pending _ _ hpc m' (List.mem_cons_of_mem _ hm')
    · obtain hgoes | ⟨hc, msgs', hgives⟩ := h.goes
      · rw [Task.sequence, hpc] at hgoes
        exact .inl hgoes
      · rw [hpc] at hgives
        cases hgives
        exact .inr ⟨hc, msgs, rfl⟩

/-- A move of the task by itself is no step of the sequential machine. -/
theorem Task.Does.next (hstraight : Straight env.workflow) (h : t.Does env s.outputs s.cancelled q)
    (hn : t.next env s = some (t', e)) :
    t'.Does env ((e.map fun e => e.onOutputs s.outputs).getD s.outputs) s.cancelled q := by
  have hopened : ∀ pc : TaskPc, t.pc = pc → pc.Open → t.sequence env s.outputs = q := by
    intro pc hpc hopen
    exact h.working (hpc ▸ hopen)
  have hnext := hn
  unfold Task.next at hn
  unfold Task.sequence at hopened
  cases hpc : t.pc with
  | loopTop => exact h.loopTop hpc hnext
  | succeeded val => exact h.succeeded hpc hnext
  | chooseNext val => exact h.chooseNext hstraight hpc hnext
  | sending msgs result => exact h.sending hpc hnext
  | executing seen =>
    rw [hpc] at hn
    cases hn
  | setVar var | enter =>
    have hgoes := hopened _ hpc (by simp [TaskPc.Open])
    rw [hpc] at hn hgoes
    cases hn
    exact h.goOn (by simp) (by simp [TaskPc.Open]) hgoes
  | readOutputs =>
    have hgoes := hopened _ hpc (by simp [TaskPc.Open])
    rw [hpc] at hn hgoes
    cases hn
    exact h.goOn (by simp [Event.onOutputs]) (by simp [TaskPc.Open]) hgoes
  | checkRepeat val =>
    have hgoes := hopened _ hpc (by simp [TaskPc.Open])
    rw [hpc] at hn hgoes
    cases hn
    exact h.repeatOrLeave hgoes
  | failed err =>
    have hgoes := hopened _ hpc (by simp [TaskPc.Open])
    rw [hpc] at hn hgoes
    have hdoes := h.recover hgoes
    rw [Option.some.inj hn] at hdoes
    exact hdoes

theorem Task.Does.answered (h : t.Does env outputs cancelled q) {seen : Outputs}
    (hpc : t.pc = .executing seen) (a : env.Answer) : ∃ q', q.answer env a = some q' ∧
      (t.answered (env.executeStep a t.current seen)).Does env outputs cancelled q' := by
  have hgoes := h.working (by rw [hpc]; simp [TaskPc.Open])
  rw [Task.sequence, hpc] at hgoes
  obtain rfl := h.seen seen hpc
  rw [← hgoes]
  refine ⟨_, rfl, ?_⟩
  unfold Task.answered
  cases env.executeStep a t.current seen with
  | ok val => exact h.goOn (by simp) (by simp [TaskPc.Open]) rfl
  | error err => exact h.goOn (by simp) (by simp [TaskPc.Open]) rfl

/-- While the task calls its tool there is no result. -/
theorem Task.Does.verdict_none (h : t.Does env outputs cancelled q) {seen : Outputs}
    (hpc : t.pc = .executing seen) : q.verdict env = none := by
  have hgoes := h.working (by rw [hpc]; simp [TaskPc.Open])
  rw [Task.sequence, hpc] at hgoes
  rw [← hgoes]
  rfl

theorem Task.sent_pending {i : ℕ} {m : FinishedInfo} (hn : t.next env s = some (t', some (.sent i m))) :
    ∃ msgs result, t.pc = .sending (m :: msgs) result := by
  cases Task.next_move hn with
  | send hpc => exact ⟨_, _, hpc⟩

end Moves

/-! ## The main loop beside it -/

/-- How `execute` may end: with the result of the sequential machine, or because it is cancelled. -/
def Ends (env : ExecutorEnv) (cancelled : Bool) (q : Sequence) (r : Except KonfluxError Json) : Prop :=
  q.verdict env = some r ∨ cancelled = true ∧ r = .error env.cancelledError

/-- At most one task, which does what the sequential machine does; the main loop finds nothing to
spawn. -/
structure Lonely (env : ExecutorEnv) (s : State) (q : Sequence) : Prop where
  tasks : s.tasks = [] ∨ ∃ t, s.tasks = [t] ∧ t.Does env s.outputs s.cancelled q ∧ s.stepsCount = 0 ∧
    s.finalOutput = .null
  reachable : ∀ x ∈ s.reachableNodes, Spent env s x
  channel : ∀ p ∈ s.channel, p.2.Idle env
  scan : ∀ todo, s.main = .scan todo → ∀ x ∈ todo, Spent env s x
  noChecks : ∀ step deps n todo, s.main ≠ .checkDeps step deps n todo
  shutdown : ∀ err, s.main = .shutdown err → Ends env s.cancelled q (.error err)
  returned : ∀ r, s.main = .returned r → Ends env s.cancelled q r
  joined : s.tasks = [] → (∃ err, s.main = .shutdown err) ∨ (∃ r, s.main = .returned r) ∨
    Ends env s.cancelled q (.ok s.finalOutput)

def answerOf {Answer : Type} : Choice Answer → Option Answer
  | .answer _ a => some a
  | .cancel | .task _ | .seeCancel | .join _ | .recv _ _ | .main | .abort _ => none

section Runs
variable {env : ExecutorEnv} {s s' : State} {q : Sequence} {c : Choice env.Answer}

theorem Ends.cancel {b : Bool} {r : Except KonfluxError Json} (h : Ends env b q r) : Ends env true q r :=
  h.imp_right fun hboth => ⟨rfl, hboth.2⟩

theorem Lonely.cancel (h : Lonely env s q) : Lonely env { s with cancelled := true } q := by
  refine ⟨?_, h.reachable, h.channel, h.scan, h.noChecks, fun err hm => (h.shutdown err hm).cancel,
    fun r hm => (h.returned r hm).cancel, fun hempty => (h.joined hempty).imp_right (.imp_right .cancel)⟩
  obtain hempty | ⟨t, ht, hdoes, hrest⟩ := h.tasks
  · exact .inl hempty
  · exact .inr ⟨t, ht, ⟨hdoes.current, hdoes.seen, hdoes.pending,
      hdoes.goes.imp_right fun hboth => ⟨rfl, hboth.2⟩⟩, hrest⟩

theorem Lonely.at_ (h : Lonely env s q) {k : ℕ} {t : Task} (hk : s.tasks[k]? = some t) :
    s.tasks = [t] ∧ k = 0 ∧ t.Does env s.outputs s.cancelled q ∧ s.stepsCount = 0 ∧
      s.finalOutput = .null := by
  obtain hempty | ⟨u, hu, hdoes, hrest⟩ := h.tasks
  · rw [hempty] at hk
    cases hk
  · rw [hu] at hk
    cases k with
    | zero =>
      cases hk
      exact ⟨hu, rfl, hdoes, hrest⟩
    | succ k => cases hk

theorem Lonely.task (hstraight : Straight env.workflow) (h : Lonely env s q) {k : ℕ} {t t' : Task}
    {e : Option Event} (hk : s.tasks[k]? = some t) (hn : t.next env s = some (t', e)) :
    Lonely env (s.move k t' e) q := by
  obtain ⟨ht, rfl, hdoes, hsteps, hfinal⟩ := h.at_ hk
  refine ⟨.inr ⟨t', ?_, ?_, ?_, ?_⟩, ?_, ?_, ?_, ?_, ?_, ?_, ?_⟩
  · rw [State.move_tasks, ht]
    rfl
  · rw [State.move_outputs, State.move_cancelled]
    exact hdoes.next hstraight hn
  · rw [State.move_stepsCount]
    exact hsteps
  · rw [State.move_finalOutput]
    exact hfinal
  · simpa [Spent] using h.reachable
  · intro p hp
    rw [State.move_channel] at hp
    cases e with
    | none => exact h.channel p hp
    | some e =>
      cases e with
      | sent i m =>
        obtain hp | hp := List.mem_append.mp hp
        · exact h.channel p hp
        · obtain ⟨msgs, result, hpc⟩ := Task.sent_pending hn
          rw [List.mem_singleton.mp hp]
          exact hdoes.pending _ _ hpc m List.mem_cons_self
      | _ => exact h.channel p hp
  · simpa [Spent] using h.scan
  · simpa using h.noChecks
  · simpa using h.shutdown
  · simpa using h.returned
  · intro hempty
    rw [State.move_tasks, ht] at hempty
    cases hempty

theorem Lonely.answer (h : Lonely env s q) {k : ℕ} {t : Task} {seen : Outputs}
    (hk : s.tasks[k]? = some t) (hpc : t.pc = .executing seen) (a : env.Answer) :
    ∃ q', q.answer env a = some q' ∧
      Lonely env (s.move k (t.answered (env.executeStep a t.current seen)) none) q' := by
  obtain ⟨ht, rfl, hdoes, hsteps, hfinal⟩ := h.at_ hk
  obtain ⟨q', hq, hdoes'⟩ := hdoes.answered hpc a
  have hends : ∀ r, Ends env s.cancelled q r → Ends env s.cancelled q' r := by
    intro r hr
    obtain hr | hr := hr
    · rw [hdoes.verdict_none hpc] at hr
      cases hr
    · exact .inr hr
  refine ⟨q', hq, .inr ⟨_, ?_, hdoes', hsteps, hfinal⟩, h.reachable, h.channel, h.scan, h.noChecks,
    fun err hm => hends _ (h.shutdown err hm), fun r hm => hends r (h.returned r hm), ?_⟩
  · rw [State.move_tasks, ht]
    rfl
  · intro hempty
    rw [State.move_tasks, ht] at hempty
    cases hempty

/-- The task is joined: `execute` takes over its result. -/
theorem Lonely.join (h : Lonely env s q) {k : ℕ} {t : Task} {result : TaskResult}
    (hk : s.tasks[k]? = some t) (hpc : t.pc = .sending [] result) : Lonely env (s.join env k t result) q := by
  obtain ⟨ht, rfl, hdoes, hsteps, hfinal⟩ := h.at_ hk
  have hgoes : .finished result = q ∨ s.cancelled = true ∧ result = .error env.cancelledError := by
    obtain hgoes | ⟨hc, msgs, hgives⟩ := hdoes.goes
    · rw [Task.sequence, hpc] at hgoes
      exact .inl hgoes
    · rw [hpc] at hgives
      cases hgives
      exact .inr ⟨hc, rfl⟩
  have hmain : (∃ err, (s.join env 0 t result).main = .shutdown err ∧
        Ends env s.cancelled q (.error err)) ∨ (s.join env 0 t result).main = .exitTest ∧
        Ends env s.cancelled q (.ok (s.join env 0 t result).finalOutput) := by
    unfold State.join joinOutcome
    cases result with
    | error e =>
      refine .inl ⟨e, rfl, ?_⟩
      obtain rfl | ⟨hc, he⟩ := hgoes
      · exact .inl rfl
      · exact .inr ⟨hc, congrArg Except.error (Except.error.inj he)⟩
    | ok res =>
      obtain rfl | ⟨-, hres⟩ := hgoes
      · simp only [hsteps, hfinal, Nat.zero_add]
        by_cases hmax : env.config.maxSteps < res.steps
        · rw [if_pos hmax]
          exact .inl ⟨_, rfl, .inl (by rw [Sequence.verdict, if_pos hmax])⟩
        · rw [if_neg hmax]
          exact .inr ⟨rfl, .inl (by rw [Sequence.verdict, if_neg hmax])⟩
      · cases hres
  have hempty : (s.join env 0 t result).tasks = [] := by
    rw [State.join, ht]
    rfl
  obtain ⟨err, hshut, hends⟩ | ⟨hexit, hends⟩ := hmain
  · refine ⟨.inl hempty, h.reachable, h.channel, ?_, ?_, ?_, ?_, fun _ => .inl ⟨err, hshut⟩⟩
    · simp [hshut]
    · simp [hshut]
    · intro err' hm'
      cases hshut.symm.trans hm'
      exact hends
    · simp [hshut]
  · refine ⟨.inl hempty, h.reachable, h.channel, ?_, ?_, ?_, ?_, fun _ => .inr (.inr hends)⟩
    · simp [hexit]
    · simp [hexit]
    · simp [hexit]
    · simp [hexit]

theorem Lonely.recv (h : Lonely env s q) (hm : s.main = .select) {k i : ℕ} {m : FinishedInfo}
    {order : List StepId} (hk : s.channel[k]? = some (i, m)) (horder : order.Perm s.reachableNodes) :
    Lonely env (s.receive k i m order) q := by
  have hidle := h.channel (i, m) (List.mem_of_getElem? hk)
  have hjoined : s.tasks = [] → Ends env s.cancelled q (.ok s.finalOutput) := by
    intro hempty
    obtain ⟨err, herr⟩ | ⟨r, hr⟩ | hends := h.joined hempty
    · cases hm.symm.trans herr
    · cases hm.symm.trans hr
    · exact hends
  refine ⟨h.tasks, ?_, ?_, ?_, ?_, ?_, ?_, fun hempty => .inr (.inr (hjoined hempty))⟩
  · intro x hx
    cases m with
    | node id => exact h.reachable x hx
    | spawnNext target =>
      obtain rfl | hx := List.mem_insert_iff.mp hx
      · exact .inr hidle
      · exact h.reachable x hx
  · intro p hp
    exact h.channel p (List.mem_of_mem_eraseIdx hp)
  · intro todo hmain x hx
    cases m with
    | node id =>
      cases hmain
      exact h.reachable x (horder.mem_iff.mp hx)
    | spawnNext target =>
      cases hmain
      rw [List.mem_singleton.mp hx]
      exact .inr hidle
  · intro step deps n todo hmain
    obtain ⟨todo', hscan⟩ := s.receive_main k i m order
    cases hscan.symm.trans hmain
  · intro err hmain
    obtain ⟨todo, hscan⟩ := s.receive_main k i m order
    cases hscan.symm.trans hmain
  · intro r hmain
    obtain ⟨todo, hscan⟩ := s.receive_main k i m order
    cases hscan.symm.trans hmain

/-- Only the main loop goes on. -/
theorem Lonely.goOn (h : Lonely env s q) {pc : MainPc}
    (hscan : ∀ todo, pc = .scan todo → ∀ x ∈ todo, Spent env s x)
    (hchecks : ∀ step deps n todo, pc ≠ .checkDeps step deps n todo)
    (hshutdown : ∀ err, pc = .shutdown err → Ends env s.cancelled q (.error err))
    (hreturned : ∀ r, pc = .returned r → Ends env s.cancelled q r)
    (hjoined : (∃ err, s.main = .shutdown err) ∨ (∃ r, s.main = .returned r) →
      (∃ err, pc = .shutdown err) ∨ ∃ r, pc = .returned r) : Lonely env { s with main := pc } q := by
  refine ⟨h.tasks, h.reachable, h.channel, hscan, hchecks, hshutdown, hreturned, ?_⟩
  intro hempty
  obtain hs | hr | hends := h.joined hempty
  · exact (hjoined (.inl hs)).imp_right .inl
  · exact (hjoined (.inr hr)).imp_right .inl
  · exact .inr (.inr hends)

/-- The step lemma: an answer is a step of the sequential machine, and nothing else is. -/
theorem Lonely.step (hstraight : Straight env.workflow) (h : Lonely env s q) (hs : Trans env s c s') :
    ∃ q', exec (Sequence.answer env) q (answerOf c).toList = some q' ∧ Lonely env s' q' := by
  cases hs with
  | cancel => exact ⟨q, rfl, h.cancel⟩
  | task hk hn => exact ⟨q, rfl, h.task hstraight hk hn⟩
  | answer a hk hpc =>
    obtain ⟨q', hq, hlonely⟩ := h.answer hk hpc a
    refine ⟨q', ?_, hlonely⟩
    show (q.answer env a).bind (exec (Sequence.answer env) · []) = some q'
    rw [hq]
    rfl
  | seeCancel hm hc =>
    refine ⟨q, rfl, h.goOn (by simp) (by simp) ?_ (by simp) fun _ => .inl ⟨_, rfl⟩⟩
    intro err hpc
    cases hpc
    exact .inr ⟨hc, rfl⟩
  | join hm hk hpc => exact ⟨q, rfl, h.join hk hpc⟩
  | recv hm hk _ horder => exact ⟨q, rfl, h.recv hm hk horder⟩
  | scanDone hm => exact ⟨q, rfl, h.goOn (by simp) (by simp) (by simp) (by simp) (by simp [hm])⟩
  | scanFull hm _ => exact ⟨q, rfl, h.goOn (by simp) (by simp) (by simp) (by simp) (by simp [hm])⟩
  | scanSkip hm _ _ =>
    refine ⟨q, rfl, h.goOn ?_ (by simp) (by simp) (by simp) (by simp [hm])⟩
    intro todo hpc x hx
    cases hpc
    exact h.scan _ hm x (List.mem_cons_of_mem _ hx)
  | scanCheck hm _ hx hstep =>
    obtain hspent | hspent := h.scan _ hm _ List.mem_cons_self
    · exact absurd hspent hx
    · cases hspent.symm.trans hstep
  | checkDep hm | depsMet hm _ | depsUnmet hm _ => exact absurd hm (h.noChecks _ _ _ _)
  | exit hm _ hempty =>
    refine ⟨q, rfl, h.goOn (by simp) (by simp) (by simp) ?_ (by simp [hm])⟩
    intro r hpc
    cases hpc
    obtain ⟨err, herr⟩ | ⟨r, hr⟩ | hends := h.joined hempty
    · cases hm.symm.trans herr
    · cases hm.symm.trans hr
    · exact hends
  | loop hm _ => exact ⟨q, rfl, h.goOn (by simp) (by simp) (by simp) (by simp) (by simp [hm])⟩
  | abort hm hk =>
    obtain ⟨ht, rfl, -⟩ := h.at_ hk
    refine ⟨q, rfl, .inl ?_, h.reachable, h.channel, h.scan, h.noChecks, h.shutdown, h.returned,
      fun _ => .inl ⟨_, hm⟩⟩
    rw [ht]
    rfl
  | stop hm _ =>
    refine ⟨q, rfl, h.goOn (by simp) (by simp) (by simp) ?_ fun _ => .inr ⟨_, rfl⟩⟩
    intro r hpc
    cases hpc
    exact h.shutdown _ hm

theorem lonely_start (env : ExecutorEnv) (input : Json) :
    Lonely env (start env input) (Sequence.begin_ env input) := by
  unfold start Sequence.begin_
  cases hentry : env.workflow.getStep env.workflow.entry with
  | none =>
    refine ⟨.inl rfl, by simp [State.fresh], by simp [State.fresh], by simp [State.fresh],
      by simp [State.fresh], by simp [State.fresh], ?_, fun _ => .inr (.inl ⟨_, rfl⟩)⟩
    intro r hr
    cases hr
    exact .inl rfl
  | some entry =>
    refine ⟨.inr ⟨Task.spawned 0 entry, rfl, ⟨Workflow.getStep_mem hentry, ?_, ?_, .inl rfl⟩, rfl, rfl⟩,
      ?_, by simp [State.spawn, State.fresh], ?_, ?_, ?_, ?_, ?_⟩
    · simp [Task.spawned]
    · simp [Task.spawned]
    · simp [State.spawn, State.fresh, Spent]
    · simp [State.spawn, State.fresh]
    · simp [State.spawn, State.fresh]
    · simp [State.spawn, State.fresh]
    · simp [State.spawn, State.fresh]
    · simp [State.spawn, State.fresh]

end Runs

/-! ## Every sequential run is one of the executor -/

theorem apply_complete {env : ExecutorEnv} {s s' : State} {c : Choice env.Answer} (h : Trans env s c s') :
    apply env s c = some s' := by
  cases h with
  | cancel => rfl
  | task hk hn => simp [apply, hk, hn]
  | answer a hk hpc => simp [apply, hk, hpc]
  | seeCancel hm hc => simp [apply, hm, hc]
  | join hm hk hpc => simp [apply, hm, hk, hpc]
  | recv hm hk hfifo horder =>
    simp only [apply, hm, hk, Option.bind_some]
    exact if_pos ⟨hfifo, horder⟩
  | scanDone hm => simp [apply, mainStep, hm]
  | scanFull hm hfull => simp [apply, mainStep, hm, hfull]
  | scanSkip hm hroom hskip =>
    simp only [apply, mainStep, hm]
    rw [if_neg (by omega)]
    split_ifs with hx
    · rfl
    · rw [hskip.resolve_left hx]
  | scanCheck hm hroom hx hstep =>
    simp only [apply, mainStep, hm]
    rw [if_neg (by omega), if_neg hx, hstep]
  | checkDep hm => simp [apply, mainStep, hm]
  | depsMet hm hrun => simp [apply, mainStep, hm, hrun]
  | depsUnmet hm hrun => simp [apply, mainStep, hm, hrun]
  | exit hm heq hempty => simp [apply, mainStep, hm, heq, hempty]
  | loop hm hgo =>
    simp only [apply, mainStep, hm, List.isEmpty_iff]
    exact if_neg hgo
  | abort hm hk => simp [apply, hm, hk]
  | stop hm hempty => simp [apply, mainStep, hm, hempty]

/-- A run of the executor in which the tools give these answers. -/
def Takes (env : ExecutorEnv) (s : State) (answers : List env.Answer) (s' : State) : Prop :=
  ∃ choices, exec (apply env) s choices = some s' ∧ choices.filterMap answerOf = answers

section Complete
variable {env : ExecutorEnv} {s s' s'' : State} {q q' : Sequence} {t : Task}

theorem Takes.refl (s : State) : Takes env s [] s := ⟨[], rfl, rfl⟩

theorem Takes.trans {as bs : List env.Answer} (h : Takes env s as s') (h' : Takes env s' bs s'') :
    Takes env s (as ++ bs) s'' := by
  obtain ⟨cs, hcs, rfl⟩ := h
  obtain ⟨ds, hds, rfl⟩ := h'
  exact ⟨cs ++ ds, exec_append hcs hds, List.filterMap_append⟩

theorem Takes.step {c : Choice env.Answer} (h : Trans env s c s') :
    Takes env s (answerOf c).toList s' := by
  refine ⟨[c], ?_, ?_⟩
  · rw [exec, apply_complete h]
    rfl
  · cases c <;> rfl

theorem Takes.reachable {answers : List env.Answer} (h : Takes env s answers s')
    (hs : Reachable env s) : Reachable env s' := by
  obtain ⟨choices, hrun, -⟩ := h
  exact exec_reaches (fun _ _ _ => apply_sound) hs hrun

/-- The main loop waits, no message is on its way, and the task is at work. -/
structure Calm (env : ExecutorEnv) (s : State) (q : Sequence) (t : Task) : Prop where
  lonely : Lonely env s q
  tasks : s.tasks = [t]
  main : s.main = .select
  channel : s.channel = []
  cancelled : s.cancelled = false

theorem Calm.does (h : Calm env s q t) : t.Does env s.outputs s.cancelled q :=
  (h.lonely.at_ (k := 0) (by rw [h.tasks]; rfl)).2.2.1

/-- The moves until the task calls its tool or has a result. -/
def TaskPc.weight : TaskPc → ℕ
  | .succeeded _ | .failed _ => 11
  | .checkRepeat _ => 10
  | .chooseNext _ => 9
  | pc => pc.rank

theorem Task.next_weight {t' : Task} {e : Option Event} (hn : t.next env s = some (t', e))
    (hexec : ∀ seen, t.pc ≠ .executing seen) (hopen : t'.pc.Open) : t'.pc.weight < t.pc.weight := by
  cases Task.next_move hn with
  | abandon | fail | skip | fallback | fanOut => exact absurd rfl (hopen _ _)
  | start hpc _ hto =>
    obtain rfl | ⟨var, rfl, -⟩ := hto
    · simp [hpc, TaskPc.weight, TaskPc.rank]
    · simp [hpc, TaskPc.weight, TaskPc.rank]
  | record hpc hto =>
    obtain rfl | rfl := hto
    · simp [hpc, TaskPc.weight]
    · simp [hpc, TaskPc.weight]
  | answer a hpc => exact absurd hpc (hexec _)
  | send => exact absurd rfl (hopen _ _)
  | setVar hpc | enter hpc | read hpc | again hpc | leaveRepeat hpc | follow hpc | goto hpc =>
    simp [hpc, TaskPc.weight, TaskPc.rank, Task.continueAt]

/-- A move of the task by itself sends nothing before it has a result. -/
theorem Calm.moved (hstraight : Straight env.workflow) (h : Calm env s q t) (hopen : t.pc.Open)
    {t' : Task} {e : Option Event} (hn : t.next env s = some (t', e)) :
    Takes env s [] (s.move 0 t' e) ∧ Calm env (s.move 0 t' e) q t' := by
  have hk : s.tasks[0]? = some t := by
    rw [h.tasks]
    rfl
  refine ⟨Takes.step (.task hk hn), h.lonely.task hstraight hk hn, ?_, ?_, ?_, ?_⟩
  · rw [State.move_tasks, h.tasks]
    rfl
  · rw [State.move_main]
    exact h.main
  · rw [State.move_channel]
    cases e with
    | none => exact h.channel
    | some e =>
      cases e with
      | sent i m =>
        obtain ⟨msgs, result, hpc⟩ := Task.sent_pending hn
        exact absurd hpc (hopen _ _)
      | _ => exact h.channel
  · rw [State.move_cancelled]
    exact h.cancelled

/-- The task goes on until it calls its tool or has a result. -/
theorem Calm.turn (hstraight : Straight env.workflow) (hsize : 0 < env.config.finishedChannelSize)
    (h : Calm env s q t) : ∃ s' t', Takes env s [] s' ∧ Calm env s' q t' ∧
      ((∃ seen, t'.pc = .executing seen) ∨ ∃ msgs result, t'.pc = .sending msgs result) := by
  induction hw : t.pc.weight using Nat.strong_induction_on generalizing s t with
  | _ w ih =>
    by_cases hexec : ∃ seen, t.pc = .executing seen
    · exact ⟨s, t, .refl s, h, .inl hexec⟩
    by_cases hsending : ∃ msgs result, t.pc = .sending msgs result
    · exact ⟨s, t, .refl s, h, .inr hsending⟩
    have hcalls : ∀ seen, t.pc ≠ .executing seen := fun seen hpc => hexec ⟨seen, hpc⟩
    have hopen : t.pc.Open := fun msgs result hpc => hsending ⟨msgs, result, hpc⟩
    obtain ⟨⟨t', e⟩, hn⟩ := Task.next_isSome env s t (by rw [h.channel]; exact hsize) hcalls (hopen [])
    obtain ⟨htakes, hcalm⟩ := h.moved hstraight hopen hn
    by_cases hdone : ∃ msgs result, t'.pc = .sending msgs result
    · exact ⟨_, t', htakes, hcalm, .inr hdone⟩
    have hless : t'.pc.weight < w :=
      hw ▸ Task.next_weight hn hcalls fun msgs result hpc => hdone ⟨msgs, result, hpc⟩
    obtain ⟨s'', t'', htakes', hrest⟩ := ih _ hless hcalm rfl
    exact ⟨s'', t'', htakes.trans htakes', hrest⟩

theorem Calm.answer (h : Calm env s q t) {seen : Outputs} (hpc : t.pc = .executing seen) {a : env.Answer}
    (hq : q.answer env a = some q') : ∃ s' t', Takes env s [a] s' ∧ Calm env s' q' t' := by
  have hk : s.tasks[0]? = some t := by
    rw [h.tasks]
    rfl
  obtain ⟨q'', hq'', hlonely⟩ := h.lonely.answer hk hpc a
  cases hq.symm.trans hq''
  refine ⟨_, t.answered (env.executeStep a t.current seen), Takes.step (.answer a hk hpc), hlonely, ?_,
    h.main, h.channel, h.cancelled⟩
  rw [State.move_tasks, h.tasks]
  rfl

theorem Calm.answers (hstraight : Straight env.workflow) (hsize : 0 < env.config.finishedChannelSize)
    {answers : List env.Answer} (h : Calm env s q t) (hq : exec (Sequence.answer env) q answers = some q') :
    ∃ s' t', Takes env s answers s' ∧ Calm env s' q' t' := by
  induction answers generalizing s q t with
  | nil =>
    rw [exec, Option.some.injEq] at hq
    exact ⟨s, t, .refl s, hq ▸ h⟩
  | cons a answers ih =>
    rw [exec, Option.bind_eq_some_iff] at hq
    obtain ⟨q₁, hq₁, hrest⟩ := hq
    obtain ⟨s₁, t₁, htakes, hcalm, ⟨seen, hpc⟩ | ⟨msgs, result, hpc⟩⟩ := h.turn hstraight hsize
    · obtain ⟨s₂, t₂, htakes', hcalm'⟩ := hcalm.answer hpc hq₁
      obtain ⟨s₃, t₃, htakes'', hcalm''⟩ := ih hcalm' hrest
      exact ⟨s₃, t₃, htakes.trans (htakes'.trans htakes''), hcalm''⟩
    · -- a result waits for no answer
      obtain hgoes | ⟨hc, -⟩ := hcalm.does.goes
      · rw [Task.sequence, hpc] at hgoes
        rw [← hgoes] at hq₁
        cases hq₁
      · cases hc.symm.trans hcalm.cancelled

/-- The scan of the main loop finds nothing to spawn. -/
theorem scan_ends {todo : List StepId} (hm : s.main = .scan todo) (hspent : ∀ x ∈ todo, Spent env s x) :
    Takes env s [] { s with main := .exitTest } := by
  induction todo generalizing s with
  | nil => exact Takes.step (.scanDone hm)
  | cons x todo ih =>
    by_cases hroom : s.tasks.length < env.config.maxConcurrentNodes
    · have hskip : Takes env s [] { s with main := .scan todo } :=
        Takes.step (.scanSkip hm hroom (hspent x List.mem_cons_self))
      exact hskip.trans (ih rfl fun y hy => hspent y (List.mem_cons_of_mem _ hy))
    · exact Takes.step (.scanFull hm (by omega))

/-- Over a run, the machine takes the answers that the tools give. -/
theorem Lonely.run (hstraight : Straight env.workflow) (hs : Lonely env s q)
    {choices : List (Choice env.Answer)} (hrun : exec (apply env) s choices = some s') :
    ∃ q', exec (Sequence.answer env) q (choices.filterMap answerOf) = some q' ∧ Lonely env s' q' := by
  have hstep : ∀ s c s' q, Lonely env s q → True → apply env s c = some s' →
      ∃ q', exec (Sequence.answer env) q (answerOf c).toList = some q' ∧ Lonely env s' q' := by
    intro s c s' q h _ hs
    exact h.step hstraight (apply_sound hs)
  exact exec_project hstep (fun _ _ => trivial) hs hrun

theorem Takes.lonely (hstraight : Straight env.workflow) (h : Takes env s [] s') (hs : Lonely env s q) :
    Lonely env s' q := by
  obtain ⟨choices, hrun, hsilent⟩ := h
  obtain ⟨q', hq, hlonely⟩ := hs.run hstraight hrun
  rw [hsilent, exec, Option.some.injEq] at hq
  exact hq ▸ hlonely

/-- A message is sent, received, and looked at. -/
theorem Calm.deliver (hstraight : Straight env.workflow) (hsize : 0 < env.config.finishedChannelSize)
    (h : Calm env s q t) {m : FinishedInfo} {msgs : List FinishedInfo} {result : TaskResult}
    (hpc : t.pc = .sending (m :: msgs) result) :
    ∃ s', Takes env s [] s' ∧ Calm env s' q { t with pc := .sending msgs result } := by
  have hk : s.tasks[0]? = some t := by
    rw [h.tasks]
    rfl
  have hn : t.next env s = some ({ t with pc := .sending msgs result }, some (.sent t.id m)) := by
    unfold Task.next
    rw [hpc]
    simp [h.channel, hsize]
  have hsent : Takes env s [] (s.move 0 { t with pc := .sending msgs result } (some (.sent t.id m))) :=
    Takes.step (.task hk hn)
  generalize hs₁ : s.move 0 { t with pc := .sending msgs result } (some (.sent t.id m)) = s₁ at hsent
  have htasks : s₁.tasks = [{ t with pc := .sending msgs result }] := by
    rw [← hs₁, State.move_tasks, h.tasks]
    rfl
  have hchannel : s₁.channel = [(t.id, m)] := by
    rw [← hs₁, State.move_channel, Option.map_some, Option.getD_some, Event.onChannel, h.channel]
    rfl
  have hmain : s₁.main = .select := by
    rw [← hs₁, State.move_main]
    exact h.main
  have hcancelled : s₁.cancelled = false := by
    rw [← hs₁, State.move_cancelled]
    exact h.cancelled
  have hreceived : Takes env s₁ [] (s₁.receive 0 t.id m s₁.reachableNodes) :=
    Takes.step (.recv hmain (by rw [hchannel]; rfl) (by simp) (List.Perm.refl _))
  have hlonely := hreceived.lonely hstraight (hsent.lonely hstraight h.lonely)
  obtain ⟨todo, hscan⟩ := s₁.receive_main 0 t.id m s₁.reachableNodes
  have hscanned := scan_ends hscan (hlonely.scan todo hscan)
  have hlooped : Takes env { s₁.receive 0 t.id m s₁.reachableNodes with main := .exitTest } []
      { s₁.receive 0 t.id m s₁.reachableNodes with main := .select } := by
    refine Takes.step (.loop rfl ?_)
    rintro ⟨-, hempty⟩
    cases htasks.symm.trans hempty
  have hall := hsent.trans (hreceived.trans (hscanned.trans hlooped))
  refine ⟨_, hall, hall.lonely hstraight h.lonely, htasks, rfl, ?_, hcancelled⟩
  simp [State.receive, hchannel]

theorem Calm.finish (hstraight : Straight env.workflow) (hsize : 0 < env.config.finishedChannelSize)
    {msgs : List FinishedInfo} {result : TaskResult} (h : Calm env s q t)
    (hpc : t.pc = .sending msgs result) (hs : Reachable env s) :
    ∃ s' r, Takes env s [] s' ∧ s'.main = .returned r ∧ s'.cancelled = false := by
  induction msgs generalizing s t with
  | nil =>
    have hk : s.tasks[0]? = some t := by
      rw [h.tasks]
      rfl
    have hjoined : Takes env s [] (s.join env 0 t result) := Takes.step (.join h.main hk hpc)
    have hempty : (s.join env 0 t result).tasks = [] := by
      rw [State.join, h.tasks]
      rfl
    obtain hexit | ⟨err, hshut⟩ := joinOutcome_main env s result
    · have hmain : (s.join env 0 t result).main = .exitTest := hexit
      have hreach := hjoined.reachable hs
      have heq := counters_eq hreach.ledger hreach.loopInv (by rw [hmain]; trivial) hempty h.channel
      exact ⟨_, _, hjoined.trans (Takes.step (.exit hmain heq hempty)), rfl, h.cancelled⟩
    · exact ⟨_, _, hjoined.trans (Takes.step (.stop hshut hempty)), rfl, h.cancelled⟩
  | cons m msgs ih =>
    obtain ⟨s₁, htakes, hcalm⟩ := h.deliver hstraight hsize hpc
    obtain ⟨s', r, htakes', hrest⟩ := ih hcalm rfl (htakes.reachable hs)
    exact ⟨s', r, htakes.trans htakes', hrest⟩

/-- A sequential run that has a result is a run of the executor to its end. -/
theorem start_takes (hstraight : Straight env.workflow) (hsize : 0 < env.config.finishedChannelSize)
    {input : Json} {answers : List env.Answer}
    (hq : exec (Sequence.answer env) (Sequence.begin_ env input) answers = some q)
    (hresult : ∀ step iteration steps outputs, q ≠ .calling step iteration steps outputs) :
    ∃ s r, Takes env (start env input) answers s ∧ s.main = .returned r ∧ s.cancelled = false := by
  have hlonely := lonely_start env input
  have hstart : Reachable env (start env input) := .start ⟨hsize, input, rfl⟩
  cases hentry : env.workflow.getStep env.workflow.entry with
  | none =>
    unfold Sequence.begin_ at hq
    rw [hentry] at hq
    cases answers with
    | nil =>
      have heq : start env input = State.fresh input []
          (.returned (.error (env.nodeFailed env.workflow.entry "Entry node not found"))) := by
        unfold start
        rw [hentry]
      rw [heq]
      exact ⟨_, _, .refl _, rfl, rfl⟩
    | cons a answers => cases hq
  | some entry =>
    have hcalm : Calm env (start env input) (Sequence.begin_ env input) (Task.spawned 0 entry) := by
      refine ⟨hlonely, ?_, ?_, ?_, ?_⟩ <;> unfold start <;> rw [hentry] <;> rfl
    obtain ⟨s₁, t₁, htakes₁, hcalm₁⟩ := hcalm.answers hstraight hsize hq
    obtain ⟨s₂, t₂, htakes₂, hcalm₂, ⟨seen, hpc⟩ | ⟨msgs, result, hpc⟩⟩ := hcalm₁.turn hstraight hsize
    · have hgoes := hcalm₂.does.working (by rw [hpc]; simp [TaskPc.Open])
      rw [Task.sequence, hpc] at hgoes
      exact absurd hgoes.symm (hresult _ _ _ _)
    · have hreach := htakes₂.reachable (htakes₁.reachable hstart)
      obtain ⟨s', r, htakes₃, hrest⟩ := hcalm₂.finish hstraight hsize hpc hreach
      have hall := htakes₁.trans (htakes₂.trans htakes₃)
      rw [List.nil_append, List.append_nil] at hall
      exact ⟨s', r, hall, hrest⟩

end Complete

/-- However its task, the main loop and the channel interleave, a straight workflow ends with the result
that the sequential machine reaches on the same answers of the tools, unless it is cancelled; and every
result of the sequential machine is that of a run. -/
theorem straight_runs_sequential (env : ExecutorEnv) (hstraight : Straight env.workflow)
    (hsize : 0 < env.config.finishedChannelSize) (input : Json) :
    (∀ choices s r, exec (apply env) (start env input) choices = some s → s.main = .returned r →
      (∃ q, exec (Sequence.answer env) (Sequence.begin_ env input) (choices.filterMap answerOf) = some q ∧
        q.verdict env = some r) ∨ s.cancelled = true ∧ r = .error env.cancelledError) ∧
    ∀ answers q r, exec (Sequence.answer env) (Sequence.begin_ env input) answers = some q →
      q.verdict env = some r → ∃ choices s, exec (apply env) (start env input) choices = some s ∧
        choices.filterMap answerOf = answers ∧ s.cancelled = false ∧ s.main = .returned r := by
  have hends : ∀ choices s r, exec (apply env) (start env input) choices = some s →
      s.main = .returned r → ∃ q, exec (Sequence.answer env) (Sequence.begin_ env input)
        (choices.filterMap answerOf) = some q ∧ Ends env s.cancelled q r := by
    intro choices s r hrun hreturned
    obtain ⟨q, hq, hlonely⟩ := (lonely_start env input).run hstraight hrun
    exact ⟨q, hq, hlonely.returned r hreturned⟩
  constructor
  · intro choices s r hrun hreturned
    obtain ⟨q, hq, hverdict | hcancelled⟩ := hends choices s r hrun hreturned
    · exact .inl ⟨q, hq, hverdict⟩
    · exact .inr hcancelled
  · intro answers q r hq hverdict
    have hresult : ∀ step iteration steps outputs, q ≠ .calling step iteration steps outputs := by
      rintro step iteration steps outputs rfl
      cases hverdict
    obtain ⟨s, r', ⟨choices, hrun, rfl⟩, hreturned, hc⟩ := start_takes hstraight hsize hq hresult
    obtain ⟨q', hq', hverdict' | ⟨hcancelled, -⟩⟩ := hends choices s r' hrun hreturned
    · rw [hq, Option.some.injEq] at hq'
      rw [← hq', hverdict, Option.some.injEq] at hverdict'
      exact ⟨choices, s, hrun, rfl, hc, hverdict'.symm ▸ hreturned⟩
    · cases hc.symm.trans hcancelled

/-- The second step is tried again until its answer is taken. -/
def relayEnv : ExecutorEnv where
  workflow := { Workflow.new "relay" "relay" "a" with
    steps := [{ Step.new "a" "echo" with edges := [⟨.step "b", none, 0⟩] },
      { Step.new "b" "echo" with dependsOn := ["a"], repeat_ := some ⟨"done", 3, some "i"⟩ }] }
  config := EngineConfig.default
  Answer := Json
  executeStep := fun v _ _ => .ok v
  evaluateAsBool := fun outputs _ => .ok ((outputs.lookup "b").any (· == .str "done"))

theorem straight_runs_sequential_relay : ∃ choices s,
    exec (apply relayEnv) (start relayEnv .null) choices = some s ∧
      choices.filterMap answerOf = [.str "x", .str "not yet", .str "done"] ∧ s.cancelled = false ∧
      s.main = .returned (.ok (.str "done")) := by
  have hstraight : Straight relayEnv.workflow := by
    constructor
    · decide
    · decide
  exact (straight_runs_sequential relayEnv hstraight (by decide) .null).2 _ _ _ rfl rfl

end Konf.Executor
