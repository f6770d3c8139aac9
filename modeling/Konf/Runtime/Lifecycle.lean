import Konf.Executor.Moves
import Konf.Runtime.Handoff
import Konf.Substrate.Stream

/-! # The life of a run

Model of `Runtime::start` and `start_streaming` (`runtime.rs`) with `Engine::run` and `run_streaming`
(`engine.rs`) below them. Three parties share a run: the task that calls `execute` (the worker), the
task that reads the event stream and writes the run's status and journal entries (the watcher: for
`start` the completion task, for `start_streaming` the forwarding task), and the caller, who may
cancel or stop reading. They move one at a time, in any order.

`cancel` looks at the status and then cancels the token, with other moves possible in between, so the
token may be cancelled at any time. The journal is present and its appends succeed. Metrics, the event
bus and durations are left out. `early`, `late` and `timedOut` are ghosts: what was sent besides the
farewell, before and after it, and whether the workflow timeout fired. -/

namespace Konf.Runtime
open Konf.Substrate Konf.Executor Konf.Text Konf.Transition
set_option autoImplicit false

/-- The arguments of `start` and `start_streaming`. -/
structure Launch where
  sys : System
  scope : ExecutionScope
  ctx : ExecutionContext
  workflow : Workflow
  input : Json
  streaming : Bool

def Launch.env (l : Launch) : ExecutorEnv := l.sys.executor l.scope l.ctx l.workflow

structure JournalRow where
  eventType : String
  payload : Json

/-- The task that calls `execute`. It panics when the finished channel has no room at all. -/
inductive Worker
  | absent
  | panicked
  | running (s : State)

/-- The `final_status` of the forwarding task. -/
structure FinalStatus where
  eventType : String
  payload : Json
  completed : Bool

/-- Where the watcher stands. The first four are of the completion task: it reads the stream, has the
result of `Engine::run`, has written the status. -/
inductive Watcher
  | absent
  | collecting (c : Collected)
  | finished (result : Except KonfluxError Json)
  | recorded (result : Except KonfluxError Json)
  -- the event it is sending to the caller, if it has taken one
  | forwarding (held : Option StreamEvent)
  | over (final : Option FinalStatus)
  | overRecorded (final : Option FinalStatus)
  | ended

structure LiveRun where
  worker : Worker
  -- the farewell, once sent: `execute`'s `Done` or `run_streaming`'s `Error`
  said : Option StreamEvent
  queue : List StreamEvent
  sendersGone : Bool
  watcher : Watcher
  callerGone : Bool
  status : RunStatus
  journal : List JournalRow
  early : List StreamEvent
  late : List StreamEvent
  timedOut : Bool

/-! ## The worker -/

namespace Worker

def result : Worker → Option (Except KonfluxError Json)
  | .running s => match s.main with
    | .returned result => some result
    | _ => none
  | .absent | .panicked => none

def isRunning : Worker → Bool
  | .running _ => true
  | .absent | .panicked => false

/-- Nothing of `execute` is left to run. -/
def settled (w : Worker) : Bool := !w.isRunning || w.result.isSome

/-- The token of the run is cancelled. -/
def cancel : Worker → Worker
  | .running s => .running { s with cancelled := true }
  | .absent => .absent
  | .panicked => .panicked

def trace : Worker → List Event
  | .running s => s.trace
  | .absent | .panicked => []

def tasks : Worker → List Task
  | .running s => s.tasks
  | .absent | .panicked => []

/-- A tool has been called, and may hold a sender of the stream. -/
def invoked (w : Worker) : Bool :=
  w.trace.any fun e => match e with
    | .read _ _ _ => true
    | _ => false

def begun (w : Worker) : List StepId :=
  w.trace.filterMap fun e => match e with
    | .began step _ _ => some step
    | _ => none

end Worker

/-- The event that the worker sends when `execute` has returned. -/
def Launch.farewell (l : Launch) : Except KonfluxError Json → Option StreamEvent
  | .ok output => some (.done output)
  | .error e => if l.streaming then some (errorEvent e) else none

/-! ## Outcomes -/

/-- The status that the completion task writes. -/
def startStatus : Except KonfluxError Json → RunStatus
  | .ok output => .completed output
  | .error e => if e.isCancelled then .cancelled e.display else .failed e.display

/-- The entry that the completion task appends to the journal. -/
def startEntry : Except KonfluxError Json → JournalRow
  | .ok _ => ⟨"workflow_completed", .obj []⟩
  | .error e =>
    if e.isCancelled then ⟨"workflow_cancelled", .obj [("reason", .str e.display)]⟩
    else ⟨"workflow_failed", .obj [("error", .str e.display)]⟩

/-- The forwarding task tells a cancellation by the text of the event. -/
def readsCancelled (code message : String) : Bool :=
  code == "cancelled" || contains message "cancelled"

def streamFinal : StreamEvent → Option FinalStatus
  | .done _ => some ⟨"workflow_completed", .obj [], true⟩
  | .error code message _ =>
    if readsCancelled code message then
      some ⟨"workflow_cancelled", .obj [("reason", .str message)], false⟩
    else some ⟨"workflow_failed", .obj [("error", .str message)], false⟩
  | .start _ | .progress _ _ _ => none

/-- The status that the forwarding task writes. -/
def streamStatus : Option FinalStatus → RunStatus
  | some f =>
    if f.completed then .completed .null
    else if f.eventType = "workflow_cancelled" then .cancelled "cancelled"
    else .failed (((f.payload.get "error").bind Json.asStr).getD "unknown")
  | none => .failed "stream ended without terminal event"

/-- The entry that the forwarding task appends, if it has seen a terminal event. -/
def FinalStatus.entry (f : FinalStatus) : JournalRow := ⟨f.eventType, f.payload⟩

def Launch.timeoutError (l : Launch) : KonfluxError :=
  .execution (.timeout l.workflow.id "workflow" l.env.config.maxWorkflowTimeoutMs)

def Launch.joinError (l : Launch) (text : String) : KonfluxError :=
  .execution (.joinFailed l.workflow.id "engine" text)

/-! ## Starting -/

def Launch.startedRow (l : Launch) : JournalRow :=
  ⟨"workflow_started", .obj
    [("workflow_id", .str l.workflow.id),
      ("namespace", .str l.scope.namespace_),
      ("actor_id", .str l.scope.actor.id),
      if l.streaming then ("streaming", .bool true)
      else ("actor_role", .str l.scope.actor.role.name)]⟩

/-- The run in the process table and the journal before its engine is called. -/
def Launch.inserted (l : Launch) : LiveRun where
  worker := .absent
  said := none
  queue := []
  sendersGone := false
  watcher := .absent
  callerGone := false
  status := .running
  journal := [l.startedRow]
  early := []
  late := []
  timedOut := false

/-- An accepted call of `start` or `start_streaming`. A workflow whose capabilities are not granted
fails inside the completion task; `start_streaming` then returns an error, and no task is left to end
the run. A stream without buffer panics. -/
def Launch.start (l : Launch) : LiveRun :=
  match validateGrant l.workflow.capabilities l.scope.capabilityPatterns with
  | .error e =>
    if l.streaming then l.inserted
    else { l.inserted with watcher := .finished (.error (.capabilityDenied e)) }
  | .ok _ =>
    if l.env.config.streamBuffer = 0 then l.inserted
    else { l.inserted with
      worker :=
        if l.env.config.finishedChannelSize = 0 then .panicked
        else .running (Executor.start l.env l.input)
      watcher := if l.streaming then .forwarding none else .collecting .empty }

/-- The task that reads the stream of a run. -/
def Launch.watcher (l : Launch) : Watcher :=
  if l.streaming then .forwarding none else .collecting .empty

/-- A run starts without its tasks, with a completion task that has failed already, with a worker
that panics, or with `execute` at its start. -/
theorem Launch.start_cases (l : Launch) :
    l.start = l.inserted ∨
      (∃ e, l.streaming = false ∧
        l.start = { l.inserted with watcher := .finished (.error (.capabilityDenied e)) }) ∨
      (l.env.config.finishedChannelSize = 0 ∧
        l.start = { l.inserted with worker := .panicked, watcher := l.watcher }) ∨
      (0 < l.env.config.finishedChannelSize ∧
        l.start = { l.inserted with
          worker := .running (Executor.start l.env l.input), watcher := l.watcher }) := by
  unfold Launch.start Launch.watcher
  split
  · rename_i e _
    cases hstream : l.streaming with
    | true => exact .inl rfl
    | false => exact .inr (.inl ⟨e, rfl, rfl⟩)
  · by_cases hbuffer : l.env.config.streamBuffer = 0
    · rw [if_pos hbuffer]
      exact .inl rfl
    · rw [if_neg hbuffer]
      by_cases hsize : l.env.config.finishedChannelSize = 0
      · rw [if_pos hsize]
        exact .inr (.inr (.inl ⟨hsize, rfl⟩))
      · rw [if_neg hsize]
        exact .inr (.inr (.inr ⟨Nat.pos_of_ne_zero hsize, rfl⟩))

/-- A worker runs from the launch on only where the channel has room for a message. -/
theorem Launch.start_running {l : Launch} {s : Executor.State} (h : l.start.worker = .running s) :
    s = Executor.start l.env l.input ∧ 0 < l.env.config.finishedChannelSize := by
  obtain hs | ⟨e, -, hs⟩ | ⟨-, hs⟩ | ⟨hsize, hs⟩ := l.start_cases
  all_goals
    rw [hs] at h
    cases h
  exact ⟨rfl, hsize⟩

/-! ## Moves -/

/-- Who moves. `drained` carries the text of the join error, for a worker that panicked. -/
inductive LifeMove
  | work (c : Choice StepAnswer)
  | emit (e : StreamEvent)
  | announce
  | hangUp
  | interaction (payload : Json)
  | leave
  | recv
  | pass
  | drained (text : String)
  | timeout
  | record
  | append

def Watcher.receiving : Watcher → Bool
  | .collecting _ | .forwarding _ => true
  | _ => false

/-- The channel after a send; the event is lost when the receiver has been dropped. -/
def LiveRun.queued (r : LiveRun) (e : StreamEvent) : List StreamEvent :=
  if r.watcher.receiving then r.queue ++ [e] else r.queue

/-- An event of a tool, or of the executor on its way. -/
def LiveRun.send (r : LiveRun) (e : StreamEvent) : LiveRun :=
  { r with
    queue := r.queued e
    early := if r.said.isNone then r.early ++ [e] else r.early
    late := if r.said.isNone then r.late else r.late ++ [e] }

/-- The farewell of the worker. -/
def LiveRun.announce (r : LiveRun) (e : StreamEvent) : LiveRun :=
  { r with queue := r.queued e, said := some e }

/-- `send` goes on at once: there is room, or no receiver. A `try_send` that finds no room drops its
event, which is no move. -/
def LiveRun.accepts (r : LiveRun) (buffer : ℕ) : Bool :=
  !r.watcher.receiving || r.queue.length < buffer

inductive LifeStep (l : Launch) (r : LiveRun) : LifeMove → LiveRun → Prop
  | work {c : Choice StepAnswer} {s s' : State} (hw : r.worker = .running s)
      (h : Trans l.env s c s') : LifeStep l r (.work c) { r with worker := .running s' }
  -- only a tool sends a terminal event besides the farewell
  | emit {e : StreamEvent} (hopen : r.sendersGone = false)
      (htool : e.isTerminal = true → r.worker.invoked = true)
      (hroom : r.accepts l.env.config.streamBuffer = true) : LifeStep l r (.emit e) (r.send e)
  | announce {result : Except KonfluxError Json} {e : StreamEvent}
      (hres : r.worker.result = some result) (hnew : r.said = none)
      (hlast : l.farewell result = some e)
      (hroom : r.accepts l.env.config.streamBuffer = true) :
      LifeStep l r .announce (r.announce e)
  | hangUp (hset : r.worker.settled = true)
      (hsaid : (r.worker.result.bind l.farewell).isSome = true → r.said.isSome = true) :
      LifeStep l r .hangUp { r with sendersGone := true }
  | interaction (payload : Json) :
      LifeStep l r (.interaction payload)
        { r with journal := r.journal ++ [⟨"interaction", payload⟩] }
  | leave : LifeStep l r .leave { r with callerGone := true }
  | collect {c : Collected} {e : StreamEvent} {rest : List StreamEvent}
      (hw : r.watcher = .collecting c) (hq : r.queue = e :: rest) :
      LifeStep l r .recv { r with queue := rest, watcher := .collecting (c.absorb e) }
  | take {e : StreamEvent} {rest : List StreamEvent} (hw : r.watcher = .forwarding none)
      (hq : r.queue = e :: rest) :
      LifeStep l r .recv { r with queue := rest, watcher := .forwarding (some e) }
  | pass {e : StreamEvent} (hw : r.watcher = .forwarding (some e))
      (hgo : r.callerGone = false) (hmore : e.isTerminal = false) :
      LifeStep l r .pass { r with watcher := .forwarding none }
  | passLast {e : StreamEvent} (hw : r.watcher = .forwarding (some e))
      (hlast : r.callerGone = true ∨ e.isTerminal = true) :
      LifeStep l r .pass { r with watcher := .over (streamFinal e) }
  | drained {c : Collected} {result : Except KonfluxError Json} {text : String}
      (hw : r.watcher = .collecting c) (hq : r.queue = []) (hgone : r.sendersGone = true)
      (hres : r.worker.result = some result) :
      LifeStep l r (.drained text)
        { r with watcher := .finished (c.result l.workflow.id result) }
  | joinFailed {c : Collected} {text : String} (hw : r.watcher = .collecting c) (hq : r.queue = [])
      (hgone : r.sendersGone = true) (hpanic : r.worker = .panicked) :
      LifeStep l r (.drained text) { r with watcher := .finished (.error (l.joinError text)) }
  | closed {text : String} (hw : r.watcher = .forwarding none) (hq : r.queue = [])
      (hgone : r.sendersGone = true) : LifeStep l r (.drained text) { r with watcher := .over none }
  -- the worker is detached and goes on
  | timeout {c : Collected} (hw : r.watcher = .collecting c)
      (hms : 0 < l.env.config.maxWorkflowTimeoutMs) :
      LifeStep l r .timeout
        { r with watcher := .finished (.error l.timeoutError), timedOut := true }
  | record {result : Except KonfluxError Json} (hw : r.watcher = .finished result) :
      LifeStep l r .record { r with watcher := .recorded result, status := startStatus result }
  | streamRecord {final : Option FinalStatus} (hw : r.watcher = .over final) :
      LifeStep l r .record { r with watcher := .overRecorded final, status := streamStatus final }
  | append {result : Except KonfluxError Json} (hw : r.watcher = .recorded result) :
      LifeStep l r .append
        { r with watcher := .ended, journal := r.journal ++ [startEntry result] }
  | streamAppend {final : Option FinalStatus} (hw : r.watcher = .overRecorded final) :
      LifeStep l r .append
        { r with watcher := .ended, journal := r.journal ++ (final.map FinalStatus.entry).toList }

def Launch.Started (l : Launch) (r : LiveRun) : Prop := r = l.start

/-! ## Evaluation -/

/-- The run after a move, when the move is possible. -/
def LiveRun.apply (l : Launch) (r : LiveRun) : LifeMove → Option LiveRun
  | .work c => match r.worker with
    | .running s => (Executor.apply l.env s c).map fun s' => { r with worker := .running s' }
    | .absent | .panicked => none
  | .emit e =>
    if r.sendersGone = false ∧ (e.isTerminal = true → r.worker.invoked = true) ∧
        r.accepts l.env.config.streamBuffer = true then some (r.send e)
    else none
  | .announce => (r.worker.result.bind l.farewell).bind fun e =>
    if r.said = none ∧ r.accepts l.env.config.streamBuffer = true then some (r.announce e) else none
  | .hangUp =>
    if r.worker.settled = true ∧
        ((r.worker.result.bind l.farewell).isSome = true → r.said.isSome = true) then
      some { r with sendersGone := true }
    else none
  | .interaction payload =>
    some { r with journal := r.journal ++ [⟨"interaction", payload⟩] }
  | .leave => some { r with callerGone := true }
  | .recv => match r.watcher, r.queue with
    | .collecting c, e :: rest =>
      some { r with queue := rest, watcher := .collecting (c.absorb e) }
    | .forwarding none, e :: rest => some { r with queue := rest, watcher := .forwarding (some e) }
    | _, _ => none
  | .pass => match r.watcher with
    | .forwarding (some e) =>
      if r.callerGone = true ∨ e.isTerminal = true then
        some { r with watcher := .over (streamFinal e) }
      else some { r with watcher := .forwarding none }
    | _ => none
  | .drained text => match r.watcher, r.queue, r.sendersGone with
    | .collecting c, [], true => match r.worker, r.worker.result with
      | _, some result => some { r with watcher := .finished (c.result l.workflow.id result) }
      | .panicked, none => some { r with watcher := .finished (.error (l.joinError text)) }
      | _, none => none
    | .forwarding none, [], true => some { r with watcher := .over none }
    | _, _, _ => none
  | .timeout => match r.watcher with
    | .collecting _ =>
      if 0 < l.env.config.maxWorkflowTimeoutMs then
        some { r with watcher := .finished (.error l.timeoutError), timedOut := true }
      else none
    | _ => none
  | .record => match r.watcher with
    | .finished result =>
      some { r with watcher := .recorded result, status := startStatus result }
    | .over final => some { r with watcher := .overRecorded final, status := streamStatus final }
    | _ => none
  | .append => match r.watcher with
    | .recorded result =>
      some { r with watcher := .ended, journal := r.journal ++ [startEntry result] }
    | .overRecorded final => some
      { r with watcher := .ended, journal := r.journal ++ (final.map FinalStatus.entry).toList }
    | _ => none

theorem LiveRun.apply_sound {l : Launch} {r r' : LiveRun} {m : LifeMove}
    (h : r.apply l m = some r') : LifeStep l r m r' := by
  cases m with
  | work c =>
    simp only [LiveRun.apply] at h
    split at h
    · rename_i s hw
      obtain ⟨s', hs, rfl⟩ := Option.map_eq_some_iff.mp h
      exact .work hw (Executor.apply_sound hs)
    · cases h
    · cases h
  | emit e =>
    simp only [LiveRun.apply] at h
    split_ifs at h with hok
    cases h
    exact .emit hok.1 hok.2.1 hok.2.2
  | announce =>
    obtain ⟨e, he, h⟩ := Option.bind_eq_some_iff.mp h
    obtain ⟨result, hres, hlast⟩ := Option.bind_eq_some_iff.mp he
    split_ifs at h with hok
    cases h
    exact .announce hres hok.1 hlast hok.2
  | hangUp =>
    simp only [LiveRun.apply] at h
    split_ifs at h with hok
    cases h
    exact .hangUp hok.1 hok.2
  | interaction payload =>
    cases h
    exact .interaction payload
  | leave =>
    cases h
    exact .leave
  | recv =>
    simp only [LiveRun.apply] at h
    split at h
    · rename_i hw hq
      cases h
      exact .collect hw hq
    · rename_i hw hq
      cases h
      exact .take hw hq
    · cases h
  | pass =>
    simp only [LiveRun.apply] at h
    split at h
    · rename_i e hw
      split_ifs at h with hlast
      · cases h
        exact .passLast hw hlast
      · cases h
        rw [not_or, Bool.not_eq_true, Bool.not_eq_true] at hlast
        exact .pass hw hlast.1 hlast.2
    · cases h
  | drained text =>
    simp only [LiveRun.apply] at h
    split at h
    · rename_i hw hq hgone
      split at h
      · rename_i hres
        cases h
        exact .drained hw hq hgone hres
      · rename_i hpanic _
        cases h
        exact .joinFailed hw hq hgone hpanic
      · cases h
    · rename_i hw hq hgone
      cases h
      exact .closed hw hq hgone
    · cases h
  | timeout =>
    simp only [LiveRun.apply] at h
    split at h
    · rename_i hw
      split_ifs at h with hms
      cases h
      exact .timeout hw hms
    · cases h
  | record =>
    simp only [LiveRun.apply] at h
    split at h
    · rename_i hw
      cases h
      exact .record hw
    · rename_i hw
      cases h
      exact .streamRecord hw
    · cases h
  | append =>
    simp only [LiveRun.apply] at h
    split at h
    · rename_i hw
      cases h
      exact .append hw
    · rename_i hw
      cases h
      exact .streamAppend hw
    · cases h

/-- A scripted life of a run, each move of which meets a condition. -/
def Launch.life (l : Launch) (ok : LiveRun → LifeMove → Prop) [∀ r m, Decidable (ok r m)]
    (script : List LifeMove) : Option LiveRun :=
  exec (fun r m => if ok r m then r.apply l m else none) l.start script

theorem Launch.life_reaches {l : Launch} {ok : LiveRun → LifeMove → Prop}
    [∀ r m, Decidable (ok r m)] {script : List LifeMove} {r : LiveRun}
    (h : l.life ok script = some r) : ReachesBy (LifeStep l) ok l.Started r :=
  exec_guarded_reachesBy (fun _ _ _ => LiveRun.apply_sound) (.start rfl) h

/-! ## A worker at rest -/

section Rest
variable {l : Launch} {r r' : LiveRun} {m : LifeMove} {w : Worker}

@[simp] theorem Worker.cancel_trace : w.cancel.trace = w.trace := by
  cases w <;> rfl

@[simp] theorem Worker.cancel_result : w.cancel.result = w.result := by
  cases w <;> rfl

@[simp] theorem Worker.cancel_isRunning : w.cancel.isRunning = w.isRunning := by
  cases w <;> rfl

@[simp] theorem Worker.cancel_settled : w.cancel.settled = w.settled := by
  simp only [Worker.settled, Worker.cancel_isRunning, Worker.cancel_result]

/-- The worker is one that a run of `execute` can come to. -/
def Worker.Sound (l : Launch) (w : Worker) : Prop := ∀ s, w = .running s → Reachable l.env s

theorem Worker.main_of_result {s : State} {x : Except KonfluxError Json}
    (h : (Worker.running s).result = some x) : s.main = .returned x := by
  simp only [Worker.result] at h
  split at h
  · rename_i hm
    rw [hm, Option.some.inj h]
  · cases h

theorem Worker.settled_of_result {x : Except KonfluxError Json} (h : w.result = some x) :
    w.settled = true := by
  simp only [Worker.settled, h, Option.isSome_some, Bool.or_true]

theorem Worker.Sound.tasks_nil (hs : w.Sound l) (hset : w.settled = true) : w.tasks = [] := by
  cases w with
  | absent | panicked => rfl
  | running s =>
    obtain ⟨x, hx⟩ := Option.isSome_iff_exists.mp (show (Worker.running s).result.isSome from hset)
    exact Reachable.idle (hs s rfl) x (Worker.main_of_result hx)

theorem LifeStep.worker_cases (h : LifeStep l r m r') :
    r'.worker = r.worker ∨ ∃ c s s', m = .work c ∧ r.worker = .running s ∧ Trans l.env s c s' ∧
      r'.worker = .running s' := by
  cases h with
  | work hw h => exact .inr ⟨_, _, _, rfl, hw, h, rfl⟩
  | _ => exact .inl rfl

theorem LifeStep.sound (h : LifeStep l r m r') (hs : r.worker.Sound l) : r'.worker.Sound l := by
  obtain hw | ⟨c, s, s', -, hw, hstep, hw'⟩ := h.worker_cases
  · rw [hw]
    exact hs
  · rw [hw']
    rintro _ ⟨⟩
    exact (hs s hw).tail trivial hstep

theorem LifeStep.isRunning (h : LifeStep l r m r') : r'.worker.isRunning = r.worker.isRunning := by
  obtain hw | ⟨c, s, s', -, hw, -, hw'⟩ := h.worker_cases
  · rw [hw]
  · rw [hw, hw']
    rfl

/-- A settled worker stays as it is, whatever moves, up to its token. -/
theorem LifeStep.settled_worker (h : LifeStep l r m r') (hs : r.worker.Sound l)
    (hset : r.worker.settled = true) : r'.worker = r.worker ∨ r'.worker = r.worker.cancel := by
  obtain hw | ⟨c, s, s', -, hw, hstep, hw'⟩ := h.worker_cases
  · exact .inl hw
  · rw [hw] at hset hs
    obtain ⟨x, hx⟩ := Option.isSome_iff_exists.mp (show (Worker.running s).result.isSome from hset)
    have hrest := hstep.at_rest (Worker.main_of_result hx) (hs.tasks_nil hset)
    rw [hw', hw, hrest]
    exact .inr rfl

theorem LifeStep.settled (h : LifeStep l r m r') (hs : r.worker.Sound l)
    (hset : r.worker.settled = true) : r'.worker.settled = true := by
  obtain hw | hw := h.settled_worker hs hset
  · rw [hw, hset]
  · rw [hw, Worker.cancel_settled, hset]

theorem LifeStep.result (h : LifeStep l r m r') (hs : r.worker.Sound l)
    {x : Except KonfluxError Json} (hx : r.worker.result = some x) : r'.worker.result = some x := by
  obtain hw | hw := h.settled_worker hs (Worker.settled_of_result hx)
  · rw [hw, hx]
  · rw [hw, Worker.cancel_result, hx]

theorem LifeStep.trace (h : LifeStep l r m r') (hs : r.worker.Sound l)
    (hset : r.worker.settled = true) : r'.worker.trace = r.worker.trace := by
  obtain hw | hw := h.settled_worker hs hset
  · rw [hw]
  · rw [hw, Worker.cancel_trace]

theorem Launch.start_sound (l : Launch) : l.start.worker.Sound l := by
  intro s hs
  obtain ⟨rfl, hsize⟩ := Launch.start_running hs
  exact .start ⟨hsize, l.input, rfl⟩

/-- Once a worker has settled it stays settled, and its trace does not grow. -/
theorem settled_forever (hs : r.worker.Sound l) (hset : r.worker.settled = true)
    (h : Reaches (LifeStep l) (· = r) r') :
    r'.worker.Sound l ∧ r'.worker.settled = true ∧ r'.worker.trace = r.worker.trace := by
  induction h with
  | start h =>
    cases h
    exact ⟨hs, hset, rfl⟩
  | tail _ _ hstep ih =>
    obtain ⟨hs', hset', htrace⟩ := ih
    exact ⟨hstep.sound hs', hstep.settled hs' hset', (hstep.trace hs' hset').trans htrace⟩

end Rest

end Konf.Runtime
