import Konf.Substrate.Error
import Konf.Substrate.Template

/-! # Executor state

The data of `Executor::execute` (`konflux-substrate/src/executor.rs`): the shared outputs and
errors, the spawned node tasks with their program counters, the finished channel, and the main
loop's own variables. A program counter stands before each `await` that reads or writes something
shared, so that every interleaving of the tasks with the main loop is a run of the machine.

`trace` is a ghost: the events of the run so far, oldest first. No transition reads it. -/

namespace Konf.Executor
open Konf.Substrate
set_option autoImplicit false

inductive FinishedInfo
  | node (id : StepId)
  | spawnNext (target : StepId)
deriving DecidableEq, Repr

structure NodeExecutionResult where
  output : Option Json
  steps : ℕ

abbrev TaskResult : Type := Except KonfluxError NodeExecutionResult

/-- Where a node task stands in the loop of `spawn_node`. -/
inductive TaskPc
  | loopTop
  | setVar (var : String)
  | enter
  | readOutputs
  | executing (seen : Outputs)
  | succeeded (val : Json)
  | checkRepeat (val : Json)
  | chooseNext (val : Json)
  | failed (err : KonfluxError)
  -- the messages still to be sent before the task returns its result
  | sending (msgs : List FinishedInfo) (result : TaskResult)

/-- A spawned task. `visit` counts the steps it has moved on to by itself. -/
structure Task where
  id : ℕ
  current : Step
  iteration : ℕ
  stepsExecuted : ℕ
  visit : ℕ
  pc : TaskPc

def Task.spawned (id : ℕ) (step : Step) : Task := ⟨id, step, 0, 0, 0, .loopTop⟩

/-- What a run does, as far as the results below speak about it. -/
inductive Event
  | spawned (step : StepId) (task : ℕ)
  | continued (step : StepId) (task visit : ℕ)
  | began (step : StepId) (task visit : ℕ)
  | read (step : StepId) (task : ℕ) (seen : Outputs)
  | bound (var : String) (value : Json)
  | output (step : StepId) (value : Json)
  | errored (step : StepId) (message : String)
  | sent (task : ℕ) (m : FinishedInfo)
  | received (task : ℕ) (m : FinishedInfo)
  | joined (task : ℕ) (step : StepId) (result : TaskResult)

/-- Where the main loop stands. `scan` is the loop over reachable steps of the `Node` branch (for
`SpawnNext` its one target), `checkDeps` the loop of `can_run`. -/
inductive MainPc
  | select
  | scan (todo : List StepId)
  | checkDeps (step : Step) (deps : List StepId) (completed : ℕ) (todo : List StepId)
  | exitTest
  | shutdown (err : KonfluxError)
  -- `ok` carries the output of the `Done` event
  | returned (result : Except KonfluxError Json)

structure State where
  outputs : Outputs
  errors : StrMap String
  tasks : List Task
  channel : List (ℕ × FinishedInfo)
  executedNodes : List StepId
  reachableNodes : List StepId
  totalSpawned : ℕ
  totalFinished : ℕ
  stepsCount : ℕ
  finalOutput : Json
  cancelled : Bool
  main : MainPc
  trace : List Event

def State.isCompleted (s : State) (id : StepId) : Bool :=
  (s.outputs.lookup id).isSome || (s.errors.lookup id).isSome

/-! ## Effects -/

def Event.onOutputs (e : Event) (o : Outputs) : Outputs :=
  match e with
  | .bound k v | .output k v => o.insert k v
  | _ => o

def Event.onErrors (e : Event) (m : StrMap String) : StrMap String :=
  match e with
  | .errored k msg => m.insert k msg
  | _ => m

def Event.onChannel (e : Event) (c : List (ℕ × FinishedInfo)) : List (ℕ × FinishedInfo) :=
  match e with
  | .sent i m => c ++ [(i, m)]
  | _ => c

/-- Perform the effect of an event and log it. -/
def State.emit (s : State) (e : Event) : State :=
  { s with
    outputs := e.onOutputs s.outputs
    errors := e.onErrors s.errors
    channel := e.onChannel s.channel
    trace := s.trace ++ [e] }

/-- Task number `k` moves to `t` with the given effect. -/
def State.move (s : State) (k : ℕ) (t : Task) (e : Option Event) : State :=
  let s := { s with tasks := s.tasks.set k t }
  match e with
  | some e => s.emit e
  | none => s

/-- `spawn_node`, with the bookkeeping its two callers do beside it. -/
def State.spawn (s : State) (step : Step) : State :=
  { s with
    executedNodes := step.id :: s.executedNodes
    tasks := s.tasks ++ [Task.spawned s.totalSpawned step]
    totalSpawned := s.totalSpawned + 1
    trace := s.trace ++ [.spawned step.id s.totalSpawned] }

/-- The variables of `execute` before anything is spawned: only the input is stored. -/
def State.fresh (input : Json) (reachable : List StepId) (main : MainPc) : State where
  outputs := (∅ : Outputs).insert "input" input
  errors := ∅
  tasks := []
  channel := []
  executedNodes := []
  reachableNodes := reachable
  totalSpawned := 0
  totalFinished := 0
  stepsCount := 0
  finalOutput := .null
  cancelled := false
  main := main
  trace := []

section Fields
variable (s : State) (k : ℕ) (t : Task) (e : Option Event) (step : Step)

@[simp] theorem State.move_tasks : (s.move k t e).tasks = s.tasks.set k t := by
  cases e <;> rfl

@[simp] theorem State.move_outputs :
    (s.move k t e).outputs = (e.map fun e => e.onOutputs s.outputs).getD s.outputs := by
  cases e <;> rfl

@[simp] theorem State.move_errors :
    (s.move k t e).errors = (e.map fun e => e.onErrors s.errors).getD s.errors := by
  cases e <;> rfl

@[simp] theorem State.move_channel :
    (s.move k t e).channel = (e.map fun e => e.onChannel s.channel).getD s.channel := by
  cases e <;> rfl

@[simp] theorem State.move_trace : (s.move k t e).trace = s.trace ++ e.toList := by
  cases e
  · exact (List.append_nil _).symm
  · rfl

@[simp] theorem State.move_executedNodes : (s.move k t e).executedNodes = s.executedNodes := by
  cases e <;> rfl

@[simp] theorem State.move_reachableNodes : (s.move k t e).reachableNodes = s.reachableNodes := by
  cases e <;> rfl

@[simp] theorem State.move_totalSpawned : (s.move k t e).totalSpawned = s.totalSpawned := by
  cases e <;> rfl

@[simp] theorem State.move_totalFinished : (s.move k t e).totalFinished = s.totalFinished := by
  cases e <;> rfl

@[simp] theorem State.move_stepsCount : (s.move k t e).stepsCount = s.stepsCount := by
  cases e <;> rfl

@[simp] theorem State.move_finalOutput : (s.move k t e).finalOutput = s.finalOutput := by
  cases e <;> rfl

@[simp] theorem State.move_cancelled : (s.move k t e).cancelled = s.cancelled := by
  cases e <;> rfl

@[simp] theorem State.move_main : (s.move k t e).main = s.main := by
  cases e <;> rfl

end Fields

end Konf.Executor
