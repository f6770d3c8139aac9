import Konf.Runner.Registry

/-! # The life of an inline run

Model of `konf-tool-runner/src/runners/inline.rs`, the intent store `konf-runtime/src/runner_intents.rs`
and the replay loop of `konf-init/src/lib.rs`, for one run. Each of them goes by the run id, so what
other runs do is not seen here. The run has a row in the intent store, which outlives the process, and
a slot in the registry, which does not.

A step is what happens between two points where another party can come in: a redb transaction, a lock,
an await of the run's task. A write that was handed to the blocking pool is committed also when the
task that waits for it is aborted. Storage operations do not fail, but the process can go down before
any step. A boot comes upon a run of an earlier process; what follows where it lists a run of its own is
seen in the intent store, over all its writers.

`trace` is a ghost: what has happened to the run, in order. -/

namespace Konf.Runner
open Konf.Substrate Konf.Runtime Konf.Journal Konf.Transition
set_option autoImplicit false

/-! ## Intents -/

inductive TerminalStatus
  | succeeded
  | failed (error : String)
  | cancelled (reason : String)

structure Intent extends RunnerIntent where
  terminal : Option TerminalStatus

/-- `RunnerIntent::new`. -/
def Intent.new (spec : WorkflowSpec) (id : Uuid) : Intent := { spec.intent id with terminal := none }

/-- Whether `list_unterminated` returns the row. -/
def Unterminated (row : Option Intent) : Prop := ∃ i, row = some i ∧ i.terminal = none

/-- The row that `mark_terminal` writes after it has read one. -/
def Intent.markTerminal (i : Intent) (status : TerminalStatus) : Intent :=
  { i with terminal := some status }

def replayLimit : ℕ := 10

def replayLimitExceeded : TerminalStatus := .failed "replay loop exceeded limit (>10 restarts)"

/-! ## The run in a process -/

inductive Hook
  | unset
  | registered
  | taken
deriving DecidableEq

/-- A slot of the registry, with the hook of the one task it is for. -/
structure InlineSlot where
  record : RunRecord
  hook : Hook

/-- Where the task stands: before each of its steps, over, or dropped by an abort. -/
inductive TaskPc
  | ready (spec : WorkflowSpec)
  | running (spec : WorkflowSpec)
  | invoking
  | answered (result : Except String Json)
  | recorded (result : Except String Json)
  | writing (intent : Intent)
  | finished
  | dropped

/-- A task is being polled or parked. An abort is seen when a parked task would be polled again. -/
structure Task where
  pc : TaskPc
  polled : Bool
  aborted : Bool

def terminalState : Except String Json → RunState
  | .ok result => .succeeded result
  | .error e => .failed e

def terminalStatus : Except String Json → TerminalStatus
  | .ok _ => .succeeded
  | .error e => .failed e

/-- Where the process stands with the run. `respawn` says that the spawn is one of `replay`. -/
inductive Phase
  | down
  | settled
  | replaying (intent : Intent)
  | failing (intent : Intent)
  | counting (intent : Intent)
  | resolving (intent : Intent)
  | inserted (spec : WorkflowSpec) (respawn : Bool)
  | persisted (spec : WorkflowSpec) (respawn : Bool)
  | launched (task : Task)

/-- A `runner:cancel` under way, and whether the run was live when it began. -/
inductive InlineCancel
  | calling (live : Bool) (hook : Hook)
  | marking (live : Bool)

inductive InlineEvent
  | invoked (env : Envelope)
  -- `runner:cancel` has returned, for a run that was live when it began
  | cancelled
  -- `list_unterminated` has returned the row
  | listed
  | respawned

structure InlineRun where
  row : Option Intent
  phase : Phase
  slot : Option InlineSlot
  cancels : List InlineCancel
  trace : List InlineEvent

/-- The run of `runner:spawn`, whose slot has been inserted. -/
def InlineRun.spawned (id : Uuid) (spec : WorkflowSpec) (now : Time) : InlineRun where
  row := none
  phase := .inserted spec false
  slot := some ⟨.pending id spec.workflow "inline" now, .unset⟩
  cancels := []
  trace := []

/-! ## Moves -/

inductive InlineMove
  -- `spawn_with_id`
  | persist
  | launch
  | register
  -- the task
  | poll
  | park
  | start
  | invoke
  | answer
  | record
  | read
  | write
  -- `runner:cancel`
  | cancel
  | call
  | returned (live : Bool)
  -- restarts
  | crash
  | boot
  | replay
  | fail
  | count
  | resolve (registry : ToolRegistry BaseTool)

/-- An abort does not take back a write that is on its way, or what is over. -/
def TaskPc.canDrop : TaskPc → Bool
  | .writing _ | .finished | .dropped => false
  | .ready _ | .running _ | .invoking | .answered _ | .recorded _ => true

def InlineRun.onRecord (s : InlineRun) (f : RunRecord → RunRecord) : InlineRun :=
  { s with slot := s.slot.map fun sl => { sl with record := f sl.record } }

def InlineRun.atTask (s : InlineRun) (task : Task) : InlineRun := { s with phase := .launched task }

/-- The hook aborts the task it was made for. -/
def Phase.abort : Phase → Phase
  | .launched task => .launched { task with aborted := true }
  | p => p

inductive InlineStep (id : Uuid) (s : InlineRun) : InlineMove → InlineRun → Prop
  | persist {spec : WorkflowSpec} {respawn : Bool} (h : s.phase = .inserted spec respawn) :
      InlineStep id s .persist
        { s with row := some (.new spec id), phase := .persisted spec respawn }
  | launch {spec : WorkflowSpec} {respawn : Bool} (h : s.phase = .persisted spec respawn) :
      InlineStep id s .launch
        { s with
          phase := .launched ⟨.ready spec, false, false⟩
          trace := if respawn then s.trace ++ [.respawned] else s.trace }
  | register {task : Task} {sl : InlineSlot} (h : s.phase = .launched task) (hs : s.slot = some sl)
      (hh : sl.hook = .unset) :
      InlineStep id s .register { s with slot := some { sl with hook := .registered } }
  | poll {task : Task} (h : s.phase = .launched task) (hp : task.polled = false)
      (ha : task.aborted = false) : InlineStep id s .poll (s.atTask { task with polled := true })
  | drop {task : Task} (h : s.phase = .launched task) (hp : task.polled = false)
      (ha : task.aborted = true) (hd : task.pc.canDrop = true) :
      InlineStep id s .poll (s.atTask { task with pc := .dropped })
  | park {task : Task} (h : s.phase = .launched task) :
      InlineStep id s .park (s.atTask { task with polled := false })
  | start {task : Task} {spec : WorkflowSpec} (now : Time) (h : s.phase = .launched task)
      (hp : task.polled = true) (hpc : task.pc = .ready spec) :
      InlineStep id s .start
        ((s.onRecord (·.markRunning now)).atTask { task with pc := .running spec })
  | invoke {task : Task} {spec : WorkflowSpec} (h : s.phase = .launched task)
      (hp : task.polled = true) (hpc : task.pc = .running spec) :
      InlineStep id s .invoke
        { s with
          phase := .launched { task with pc := .invoking }
          trace := s.trace ++ [.invoked spec.envelope] }
  | answer {task : Task} (result : Except String Json) (h : s.phase = .launched task)
      (hp : task.polled = true) (hpc : task.pc = .invoking) :
      InlineStep id s .answer (s.atTask { task with pc := .answered result })
  | record {task : Task} {result : Except String Json} (now : Time) (h : s.phase = .launched task)
      (hp : task.polled = true) (hpc : task.pc = .answered result) :
      InlineStep id s .record
        ((s.onRecord (·.markTerminal now (terminalState result))).atTask
          { task with pc := .recorded result })
  | read {task : Task} {result : Except String Json} (h : s.phase = .launched task)
      (hp : task.polled = true) (hpc : task.pc = .recorded result) :
      InlineStep id s .read
        (s.atTask { task with pc := match s.row with
          | some i => .writing (i.markTerminal (terminalStatus result))
          | none => .finished })
  | write {task : Task} {intent : Intent} (h : s.phase = .launched task)
      (hpc : task.pc = .writing intent) :
      InlineStep id s .write
        { s with row := some intent, phase := .launched { task with pc := .finished } }
  -- the id is not in the registry
  | cancelUnknown (h : s.slot = none) (hu : ¬Unterminated s.row) : InlineStep id s .cancel s
  | cancelAbsent (h : s.slot = none) (hu : Unterminated s.row) :
      InlineStep id s .cancel { s with trace := s.trace ++ [.cancelled] }
  | cancel {sl : InlineSlot} (h : s.slot = some sl) :
      InlineStep id s .cancel
        { s with
          slot := some { sl with hook := if sl.hook = .registered then .taken else sl.hook }
          cancels := .calling (!sl.record.state.isTerminal) sl.hook :: s.cancels }
  | call {live : Bool} {hook : Hook} (pre post : List InlineCancel)
      (h : s.cancels = pre ++ .calling live hook :: post) :
      InlineStep id s .call
        { s with
          phase := if hook = .registered then s.phase.abort else s.phase
          cancels := pre ++ .marking live :: post }
  | returned {live : Bool} (pre post : List InlineCancel) (now : Time)
      (h : s.cancels = pre ++ .marking live :: post) :
      InlineStep id s (.returned live)
        { s.onRecord (·.markTerminal now .cancelled) with
          cancels := pre ++ post
          trace := if live then s.trace ++ [.cancelled] else s.trace }
  | crash : InlineStep id s .crash { s with phase := .down, slot := none, cancels := [] }
  | boot {i : Intent} (h : s.phase = .down) (hr : s.row = some i) (hu : i.terminal = none) :
      InlineStep id s .boot { s with phase := .replaying i, trace := s.trace ++ [.listed] }
  | bootSettled (h : s.phase = .down) (hu : ¬Unterminated s.row) :
      InlineStep id s .boot { s with phase := .settled }
  | replay {i : Intent} (h : s.phase = .replaying i) (hc : i.replayCount + 1 ≤ replayLimit) :
      InlineStep id s .replay
        { s with phase := .counting { i with replayCount := i.replayCount + 1 } }
  | giveUp {i : Intent} (h : s.phase = .replaying i) (hc : replayLimit < i.replayCount + 1) :
      InlineStep id s .replay
        { s with phase := match s.row with
          | some j => .failing (j.markTerminal replayLimitExceeded)
          | none => .settled }
  | fail {i : Intent} (h : s.phase = .failing i) :
      InlineStep id s .fail { s with row := some i, phase := .settled }
  | count {i : Intent} (h : s.phase = .counting i) :
      InlineStep id s .count { s with row := some i, phase := .resolving i }
  | resolve {i : Intent} {registry : ToolRegistry BaseTool} (now : Time) (fresh : Uuid)
      (h : s.phase = .resolving i) (hr : registry.contains (workflowToolName i.workflow) = true) :
      InlineStep id s (.resolve registry)
        { s with
          phase := .inserted (i.replaySpec fresh) true
          slot := some ⟨.pending id i.workflow "inline" now, .unset⟩ }
  | notFound {i : Intent} {registry : ToolRegistry BaseTool} (h : s.phase = .resolving i)
      (hr : registry.contains (workflowToolName i.workflow) = false) :
      InlineStep id s (.resolve registry) { s with phase := .settled }

def InlineRun.Spawned (id : Uuid) (spec : WorkflowSpec) (s : InlineRun) : Prop :=
  ∃ now, s = .spawned id spec now

end Konf.Runner
