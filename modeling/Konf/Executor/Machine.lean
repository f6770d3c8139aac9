import Mathlib.Data.List.Sort
import Konf.Foundations.Transition
import Konf.Executor.State

/-! # Executor transitions

`Executor::execute`, `spawn_node` and `evaluate_edges_targets` as a step relation. A choice says
which party moves: a node task, the main loop, the finished tool call of a task, or the caller who
cancels. Tool behaviour is the choice of answers, so a result about every run is a result about
every tool behaviour and every interleaving. The finished channel is bounded and first-in-first-out
for each sender. Panics are caught around `execute_step`, so every task ends by returning. -/

namespace Konf.Executor
open Konf.Substrate Konf.Text Konf.Transition
set_option autoImplicit false

/-- One call of `execute`. What `execute_step` returns is a function of an answer chosen from
outside, the step, and the outputs read at its start; `evaluateAsBool` is the condition
evaluator. -/
structure ExecutorEnv where
  workflow : Workflow
  config : EngineConfig
  Answer : Type
  executeStep : Answer → Step → Outputs → Except KonfluxError Json
  evaluateAsBool : Outputs → String → Except String Bool

namespace ExecutorEnv

def cancelledError (env : ExecutorEnv) : KonfluxError := .execution (.cancelled env.workflow.id)

def nodeFailed (env : ExecutorEnv) (node message : String) : KonfluxError :=
  .execution (.nodeFailed env.workflow.id node message)

def maxStepsExceeded (env : ExecutorEnv) : KonfluxError :=
  .execution (.maxStepsExceeded env.workflow.id env.config.maxSteps)

end ExecutorEnv

/-! ## Edges -/

def cleanCondition (condition : String) : String :=
  trim (((stripPrefix (trim condition) openTag).bind fun s => stripSuffix s closeTag).getD condition)

def walkEdges (env : ExecutorEnv) (step : Step) (outputs : Outputs) :
    List Edge → List EdgeTarget → Except KonfluxError (List EdgeTarget)
  | [], targets => .ok (if targets.isEmpty then [.ret] else targets)
  | edge :: rest, targets => match edge.condition with
    | none => walkEdges env step outputs rest (targets ++ [edge.target])
    | some condition => match env.evaluateAsBool outputs (cleanCondition condition) with
      | .ok true => .ok (targets ++ [edge.target])
      | .ok false => walkEdges env step outputs rest targets
      | .error e => .error (env.nodeFailed step.id ("Condition evaluation failed: " ++ e))

def evaluateEdgesTargets (env : ExecutorEnv) (step : Step) (outputs : Outputs) :
    Except KonfluxError (List EdgeTarget) :=
  if step.edges.isEmpty then .ok [.ret]
  else walkEdges env step outputs
    (step.edges.insertionSort fun a b => a.priority ≤ b.priority) []

def spawnMessage : EdgeTarget → Option FinishedInfo
  | .step target => some (.spawnNext target)
  | .ret => none

/-! ## Node tasks -/

/-- Leave the loop: send these messages, then `Node`, then return. -/
def Task.close (t : Task) (msgs : List FinishedInfo) (result : TaskResult) : Task :=
  { t with pc := .sending (msgs ++ [.node t.current.id]) result }

/-- `current_step = next; continue`. -/
def Task.continueAt (t : Task) (next : Step) : Task × Option Event :=
  ({ t with current := next, iteration := 0, visit := t.visit + 1, pc := .loopTop },
    some (.continued next.id t.id (t.visit + 1)))

def Task.follow (env : ExecutorEnv) (t : Task) (val : Json) (targets : List EdgeTarget) :
    Task × Option Event :=
  let done := (t.close (targets.filterMap spawnMessage) (.ok ⟨some val, t.stepsExecuted⟩), none)
  match targets with
  | [.step target] => match env.workflow.getStep target with
    | some next => if next.dependsOn.length ≤ 1 then t.continueAt next else done
    | none => done
  | _ => done

def Task.recover (env : ExecutorEnv) (t : Task) (err : KonfluxError) : Task × Option Event :=
  match t.current.onError with
  | .fail => (t.close [] (.error err), some (.errored t.current.id err.display))
  | .skip => (t.close [] (.ok ⟨none, t.stepsExecuted⟩), some (.output t.current.id .null))
  | .fallback value =>
    (t.close [] (.ok ⟨some (.str value), t.stepsExecuted⟩), some (.output t.current.id (.str value)))
  | .goto target => match env.workflow.getStep target with
    | some next => t.continueAt next
    | none => (t.close [] (.error err), none)

def Task.repeatOrLeave (env : ExecutorEnv) (t : Task) (val : Json) (outputs : Outputs) : Task :=
  match t.current.repeat_ with
  | none => { t with pc := .chooseNext val }
  | some r => match env.evaluateAsBool outputs r.until_ with
    | .ok true => { t with pc := .chooseNext val }
    | .ok false =>
      { t with
        iteration := t.iteration + 1
        pc := if t.iteration + 1 < r.max then .loopTop else .chooseNext val }
    | .error e => t.close []
      (.error (env.nodeFailed t.current.id ("Repeat condition evaluation failed: " ++ e)))

/-- One move of a task by itself; `none` when it waits for its tool, for room in the channel, or
has returned. -/
def Task.next (env : ExecutorEnv) (s : State) (t : Task) : Option (Task × Option Event) :=
  match t.pc with
  | .loopTop =>
    if s.cancelled then some (t.close [] (.error env.cancelledError), none)
    else
      let pc := match t.current.repeat_.bind RepeatConfig.asVar with
        | some var => TaskPc.setVar var
        | none => .enter
      some ({ t with stepsExecuted := t.stepsExecuted + 1, pc := pc }, none)
  | .setVar var => some ({ t with pc := .enter }, some (.bound var (Json.ofNat t.iteration)))
  | .enter => some ({ t with pc := .readOutputs }, some (.began t.current.id t.id t.visit))
  | .readOutputs =>
    some ({ t with pc := .executing s.outputs }, some (.read t.current.id t.id s.outputs))
  | .executing _ => none
  | .succeeded val =>
    let pc := if t.current.repeat_.isSome then TaskPc.checkRepeat val else .chooseNext val
    some ({ t with pc := pc }, some (.output t.current.id val))
  | .checkRepeat val => some (t.repeatOrLeave env val s.outputs, none)
  | .chooseNext val => match evaluateEdgesTargets env t.current s.outputs with
    | .ok targets => some (t.follow env val targets)
    | .error e => some (t.close [] (.error e), none)
  | .failed err => some (t.recover env err)
  | .sending [] _ => none
  | .sending (m :: msgs) result =>
    if s.channel.length < env.config.finishedChannelSize then
      some ({ t with pc := .sending msgs result }, some (.sent t.id m))
    else none

def Task.answered (t : Task) (res : Except KonfluxError Json) : Task :=
  match res with
  | .ok val => { t with pc := .succeeded val }
  | .error err => { t with pc := .failed err }

/-! ## Main loop -/

/-- The verdict of `can_run` once the completed dependencies are counted. -/
def canRunWith (step : Step) (completed : ℕ) : Bool :=
  if step.dependsOn.isEmpty then true
  else match step.join with
    | .all => completed == step.dependsOn.length
    | .any => 0 < completed
    | .quorum min => min ≤ completed
    | .lenient => true

/-- `can_run` on a state that stands still. -/
def State.canRun (s : State) (step : Step) : Bool :=
  canRunWith step (step.dependsOn.countP s.isCompleted)

/-- What a joined result does to the step count, the final output and the loop. -/
def joinOutcome (env : ExecutorEnv) (s : State) : TaskResult → ℕ × Json × MainPc
  | .ok res =>
    let steps := s.stepsCount + res.steps
    if env.config.maxSteps < steps then (steps, s.finalOutput, .shutdown env.maxStepsExceeded)
    else (steps, res.output.getD s.finalOutput, .exitTest)
  | .error e => (s.stepsCount, s.finalOutput, .shutdown e)

/-- The `join_next` branch. -/
def State.join (env : ExecutorEnv) (s : State) (k : ℕ) (t : Task) (result : TaskResult) : State :=
  { s with
    tasks := s.tasks.eraseIdx k
    stepsCount := (joinOutcome env s result).1
    finalOutput := (joinOutcome env s result).2.1
    main := (joinOutcome env s result).2.2
    trace := s.trace ++ [.joined t.id t.current.id result] }

/-- The `finished_rx.recv` branch, up to its loop. -/
def State.receive (s : State) (k i : ℕ) (m : FinishedInfo) (order : List StepId) : State :=
  { s with
    channel := s.channel.eraseIdx k
    totalFinished := match m with
      | .node _ => s.totalFinished + 1
      | .spawnNext _ => s.totalFinished
    reachableNodes := match m with
      | .node _ => s.reachableNodes
      | .spawnNext target => s.reachableNodes.insert target
    main := match m with
      | .node _ => .scan order
      | .spawnNext target => .scan [target]
    trace := s.trace ++ [.received i m] }

/-- Who moves next. `recv` takes the message at an index, and the order in which the rescan visits
the hash set of reachable steps. -/
inductive Choice (Answer : Type)
  | cancel
  | task (k : ℕ)
  | answer (k : ℕ) (a : Answer)
  | seeCancel
  | join (k : ℕ)
  | recv (k : ℕ) (order : List StepId)
  | main
  | abort (k : ℕ)

/-- The start of `execute`: the entry step is looked up and spawned. -/
def start (env : ExecutorEnv) (input : Json) : State :=
  match env.workflow.getStep env.workflow.entry with
  | some entry => (State.fresh input [entry.id] .select).spawn entry
  | none => State.fresh input []
    (.returned (.error (env.nodeFailed env.workflow.entry "Entry node not found")))

inductive Trans (env : ExecutorEnv) (s : State) : Choice env.Answer → State → Prop
  | cancel : Trans env s .cancel { s with cancelled := true }
  | task {k : ℕ} {t t' : Task} {e : Option Event} (hk : s.tasks[k]? = some t)
      (hn : t.next env s = some (t', e)) : Trans env s (.task k) (s.move k t' e)
  | answer {k : ℕ} {t : Task} {seen : Outputs} (a : env.Answer) (hk : s.tasks[k]? = some t)
      (hpc : t.pc = .executing seen) :
      Trans env s (.answer k a) (s.move k (t.answered (env.executeStep a t.current seen)) none)
  | seeCancel (hm : s.main = .select) (hc : s.cancelled = true) :
      Trans env s .seeCancel { s with main := .shutdown env.cancelledError }
  | join {k : ℕ} {t : Task} {result : TaskResult} (hm : s.main = .select)
      (hk : s.tasks[k]? = some t) (hpc : t.pc = .sending [] result) :
      Trans env s (.join k) (s.join env k t result)
  | recv {k i : ℕ} {m : FinishedInfo} {order : List StepId} (hm : s.main = .select)
      (hk : s.channel[k]? = some (i, m)) (hfifo : ∀ p ∈ s.channel.take k, p.1 ≠ i)
      (horder : order.Perm s.reachableNodes) :
      Trans env s (.recv k order) (s.receive k i m order)
  | scanDone (hm : s.main = .scan []) : Trans env s .main { s with main := .exitTest }
  | scanFull {x : StepId} {todo : List StepId} (hm : s.main = .scan (x :: todo))
      (hfull : env.config.maxConcurrentNodes ≤ s.tasks.length) :
      Trans env s .main { s with main := .exitTest }
  | scanSkip {x : StepId} {todo : List StepId} (hm : s.main = .scan (x :: todo))
      (hroom : s.tasks.length < env.config.maxConcurrentNodes)
      (hskip : x ∈ s.executedNodes ∨ env.workflow.getStep x = none) :
      Trans env s .main { s with main := .scan todo }
  | scanCheck {x : StepId} {todo : List StepId} {step : Step} (hm : s.main = .scan (x :: todo))
      (hroom : s.tasks.length < env.config.maxConcurrentNodes) (hx : x ∉ s.executedNodes)
      (hstep : env.workflow.getStep x = some step) :
      Trans env s .main { s with main := .checkDeps step step.dependsOn 0 todo }
  | checkDep {step : Step} {d : StepId} {deps todo : List StepId} {n : ℕ}
      (hm : s.main = .checkDeps step (d :: deps) n todo) :
      Trans env s .main
        { s with main := .checkDeps step deps (if s.isCompleted d then n + 1 else n) todo }
  | depsMet {step : Step} {todo : List StepId} {n : ℕ} (hm : s.main = .checkDeps step [] n todo)
      (hrun : canRunWith step n = true) :
      Trans env s .main { s.spawn step with main := .scan todo }
  | depsUnmet {step : Step} {todo : List StepId} {n : ℕ} (hm : s.main = .checkDeps step [] n todo)
      (hrun : canRunWith step n = false) : Trans env s .main { s with main := .scan todo }
  | exit (hm : s.main = .exitTest) (heq : s.totalSpawned = s.totalFinished) (hempty : s.tasks = []) :
      Trans env s .main { s with main := .returned (.ok s.finalOutput) }
  | loop (hm : s.main = .exitTest) (hgo : ¬(s.totalSpawned = s.totalFinished ∧ s.tasks = [])) :
      Trans env s .main { s with main := .select }
  | abort {k : ℕ} {t : Task} {err : KonfluxError} (hm : s.main = .shutdown err)
      (hk : s.tasks[k]? = some t) : Trans env s (.abort k) { s with tasks := s.tasks.eraseIdx k }
  | stop {err : KonfluxError} (hm : s.main = .shutdown err) (hempty : s.tasks = []) :
      Trans env s .main { s with main := .returned (.error err) }

/-- The states of a call of `execute`. A channel of size zero panics before the loop. -/
def Initial (env : ExecutorEnv) (s : State) : Prop :=
  0 < env.config.finishedChannelSize ∧ ∃ input, s = start env input

/-- Every interleaving and every tool behaviour. -/
def Reachable (env : ExecutorEnv) : State → Prop := Reaches (Trans env) (Initial env)

/-! ## Evaluation -/

def mainStep (env : ExecutorEnv) (s : State) : Option State :=
  match s.main with
  | .select | .returned _ => none
  | .scan [] => some { s with main := .exitTest }
  | .scan (x :: todo) =>
    if env.config.maxConcurrentNodes ≤ s.tasks.length then some { s with main := .exitTest }
    else if x ∈ s.executedNodes then some { s with main := .scan todo }
    else match env.workflow.getStep x with
      | none => some { s with main := .scan todo }
      | some step => some { s with main := .checkDeps step step.dependsOn 0 todo }
  | .checkDeps step (d :: deps) n todo =>
    some { s with main := .checkDeps step deps (if s.isCompleted d then n + 1 else n) todo }
  | .checkDeps step [] n todo =>
    if canRunWith step n then some { s.spawn step with main := .scan todo }
    else some { s with main := .scan todo }
  | .exitTest =>
    if s.totalSpawned = s.totalFinished ∧ s.tasks.isEmpty then
      some { s with main := .returned (.ok s.finalOutput) }
    else some { s with main := .select }
  | .shutdown err =>
    if s.tasks.isEmpty then some { s with main := .returned (.error err) } else none

/-- The state after a choice, when the choice is possible. -/
def apply (env : ExecutorEnv) (s : State) : Choice env.Answer → Option State
  | .cancel => some { s with cancelled := true }
  | .task k => (s.tasks[k]?).bind fun t => (t.next env s).map fun r => s.move k r.1 r.2
  | .answer k a => (s.tasks[k]?).bind fun t => match t.pc with
    | .executing seen => some (s.move k (t.answered (env.executeStep a t.current seen)) none)
    | _ => none
  | .seeCancel => match s.main with
    | .select => if s.cancelled then some { s with main := .shutdown env.cancelledError } else none
    | _ => none
  | .join k => match s.main with
    | .select => (s.tasks[k]?).bind fun t => match t.pc with
      | .sending [] result => some (s.join env k t result)
      | _ => none
    | _ => none
  | .recv k order => match s.main with
    | .select => (s.channel[k]?).bind fun p =>
      if (∀ q ∈ s.channel.take k, q.1 ≠ p.1) ∧ order.Perm s.reachableNodes then
        some (s.receive k p.1 p.2 order)
      else none
    | _ => none
  | .main => mainStep env s
  | .abort k => match s.main with
    | .shutdown _ => (s.tasks[k]?).map fun _ => { s with tasks := s.tasks.eraseIdx k }
    | _ => none

theorem mainStep_sound {env : ExecutorEnv} {s s' : State} (h : mainStep env s = some s') :
    Trans env s .main s' := by
  unfold mainStep at h
  split at h
  · cases h
  · cases h
  · rename_i hm
    cases h
    exact .scanDone hm
  · rename_i x todo hm
    split_ifs at h with hfull hx
    · cases h
      exact .scanFull hm hfull
    · cases h
      exact .scanSkip hm (by omega) (.inl hx)
    · split at h
      · rename_i hstep
        cases h
        exact .scanSkip hm (by omega) (.inr hstep)
      · rename_i hstep
        cases h
        exact .scanCheck hm (by omega) hx hstep
  · rename_i hm
    cases h
    exact .checkDep hm
  · rename_i hm
    split_ifs at h with hrun
    · cases h
      exact .depsMet hm hrun
    · cases h
      exact .depsUnmet hm (Bool.not_eq_true _ ▸ hrun)
  · rename_i hm
    split_ifs at h with hexit
    · cases h
      exact .exit hm hexit.1 (List.isEmpty_iff.mp hexit.2)
    · cases h
      exact .loop hm (fun hboth => hexit ⟨hboth.1, List.isEmpty_iff.mpr hboth.2⟩)
  · rename_i hm
    split_ifs at h with hempty
    cases h
    exact .stop hm (List.isEmpty_iff.mp hempty)

theorem apply_sound {env : ExecutorEnv} {s s' : State} {c : Choice env.Answer}
    (h : apply env s c = some s') : Trans env s c s' := by
  cases c with
  | cancel =>
    cases h
    exact .cancel
  | task k =>
    obtain ⟨t, hk, h⟩ := Option.bind_eq_some_iff.mp h
    obtain ⟨⟨t', e⟩, hn, rfl⟩ := Option.map_eq_some_iff.mp h
    exact .task hk hn
  | answer k a =>
    obtain ⟨t, hk, h⟩ := Option.bind_eq_some_iff.mp h
    split at h
    · rename_i hpc
      cases h
      exact .answer a hk hpc
    · cases h
  | seeCancel =>
    simp only [apply] at h
    split at h
    · rename_i hm
      split_ifs at h with hc
      cases h
      exact .seeCancel hm hc
    · cases h
  | join k =>
    simp only [apply] at h
    split at h
    · rename_i hm
      obtain ⟨t, hk, h⟩ := Option.bind_eq_some_iff.mp h
      split at h
      · rename_i hpc
        cases h
        exact .join hm hk hpc
      · cases h
    · cases h
  | recv k order =>
    simp only [apply] at h
    split at h
    · rename_i hm
      obtain ⟨⟨i, m⟩, hk, h⟩ := Option.bind_eq_some_iff.mp h
      split_ifs at h with hok
      cases h
      exact .recv hm hk hok.1 hok.2
    · cases h
  | main => exact mainStep_sound h
  | abort k =>
    simp only [apply] at h
    split at h
    · rename_i hm
      obtain ⟨t, hk, rfl⟩ := Option.map_eq_some_iff.mp h
      exact .abort hm hk
    · cases h

/-- A scripted run of `execute`, each step of which meets a condition. -/
def run (env : ExecutorEnv) (ok : State → Choice env.Answer → Prop) [∀ s c, Decidable (ok s c)]
    (input : Json) (script : List (Choice env.Answer)) : Option State :=
  exec (fun s c => if ok s c then apply env s c else none) (start env input) script

/-- The start of a call of `execute` with this input. -/
def InitialWith (env : ExecutorEnv) (input : Json) (s : State) : Prop :=
  0 < env.config.finishedChannelSize ∧ s = start env input

theorem run_reachesWith {env : ExecutorEnv} {ok : State → Choice env.Answer → Prop}
    [∀ s c, Decidable (ok s c)] (hsize : 0 < env.config.finishedChannelSize) {input : Json}
    {script : List (Choice env.Answer)} {s : State} (h : run env ok input script = some s) :
    ReachesBy (Trans env) ok (InitialWith env input) s :=
  exec_guarded_reachesBy (fun _ _ _ => apply_sound) (ReachesBy.start ⟨hsize, rfl⟩) h

theorem initial_of_with {env : ExecutorEnv} {ok : State → Choice env.Answer → Prop} {input : Json}
    {s : State} (h : ReachesBy (Trans env) ok (InitialWith env input) s) :
    ReachesBy (Trans env) ok (Initial env) s := by
  induction h with
  | start h => exact .start ⟨h.1, input, h.2⟩
  | tail _ hok hs ih => exact ih.tail hok hs

theorem run_reaches {env : ExecutorEnv} {ok : State → Choice env.Answer → Prop}
    [∀ s c, Decidable (ok s c)] (hsize : 0 < env.config.finishedChannelSize) {input : Json}
    {script : List (Choice env.Answer)} {s : State} (h : run env ok input script = some s) :
    ReachesBy (Trans env) ok (Initial env) s := initial_of_with (run_reachesWith hsize h)

/-- The entry step of every workflow comes to its tool call, with the input as the only output. -/
theorem entry_executes (env : ExecutorEnv) (hsize : 0 < env.config.finishedChannelSize)
    {entry : Step} (hentry : env.workflow.getStep env.workflow.entry = some entry)
    (hvar : entry.repeat_.bind RepeatConfig.asVar = none) (input : Json) :
    ∃ s t, Reachable env s ∧ t ∈ s.tasks ∧ t.current = entry ∧
      t.pc = .executing ((∅ : Outputs).insert "input" input) := by
  have hstart : start env input = (State.fresh input [entry.id] .select).spawn entry := by
    unfold start
    rw [hentry]
  have h₀ : Reachable env (start env input) := .start ⟨hsize, input, rfl⟩
  rw [hstart] at h₀
  have h₁ := h₀.tail trivial (.task (k := 0) rfl (show _ = some (_, _) by
    simp only [Task.next, Task.spawned, State.fresh, State.spawn, hvar]
    rfl))
  have h₂ := h₁.tail trivial (.task (k := 0) rfl rfl)
  have h₃ := h₂.tail trivial (.task (k := 0) rfl rfl)
  exact ⟨_, _, h₃, List.mem_singleton_self _, rfl, rfl⟩

end Konf.Executor
