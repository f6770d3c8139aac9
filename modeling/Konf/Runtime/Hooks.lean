import Konf.Executor.Recorder
import Konf.Journal.Redb
import Konf.Runtime.Terminal

/-! # Runtime hooks

Model of `RuntimeHooks` (`konf-runtime/src/hooks.rs`) over the life of a run. `execute_step` hands its
lifecycle events to `on_event` as it goes; each event updates the run's `active_nodes` and spawns a
task that appends it to the journal. The spawned tasks run whenever they like, in any order, and so do
the other users of the same journal. When the append of such a task fails, the entry is dropped with a
warning; hooks without a journal are hooks that drop all their entries.

`log`, the events so far, `written`, the sequence ids that this run's entries have got, and `dropped`,
the events whose entries were dropped, are ghosts. The event bus is left out, as in the life of the
run. -/

namespace Konf.Runtime
open Konf.Substrate Konf.Executor Konf.Text Konf.Transition Konf.Journal
set_option autoImplicit false

/-! ## Entries -/

structure RuntimeHooks where
  runId : RunId
  namespace_ : String
  sessionId : String
  actor : Actor
  traceId : Uuid

inductive InteractionStatus
  | pending
  | ok
  | failed (error : String)
  | observed
deriving DecidableEq

def InteractionStatus.toJson : InteractionStatus → Json
  | .pending => .obj [("type", .str "pending")]
  | .ok => .obj [("type", .str "ok")]
  | .failed error => .obj [("error", .str error), ("type", .str "failed")]
  | .observed => .obj [("type", .str "observed")]

/-- What an interaction takes from outside: its id, the text of the clock, and the time that a
completed step has taken. -/
structure Stamp where
  id : Uuid
  timestamp : String
  durationMs : ℕ

namespace RuntimeHooks

def entry (h : RuntimeHooks) (eventType : String) (payload : Json) : JournalEntry where
  runId := some h.runId
  sessionId := h.sessionId
  namespace_ := h.namespace_
  eventType := eventType
  payload := payload
  validTo := none
  idempotencyKey := none

def buildNodeInteractionEntry (h : RuntimeHooks) (lib : Externals) (stamp : Stamp)
    (nodeId tool phase : String) (status : InteractionStatus) (attributes : List (String × Json)) :
    JournalEntry :=
  let attributes := [("node_id", Json.str nodeId), ("tool", .str tool), ("phase", .str phase)].foldl
    (fun fields f => Json.insertField f.1 f.2 fields) attributes
  h.entry "interaction" (.obj
    [("actor", .obj [("id", .str h.actor.id), ("role", .str h.actor.role.name)]),
      ("attributes", .obj attributes),
      ("edge_rules_fired", .arr []),
      ("id", .str (lib.formatUuid stamp.id)),
      ("in_reply_to", .null),
      ("kind", .obj [("type", .str "node_lifecycle")]),
      ("namespace", .str h.namespace_),
      ("node_id", .str nodeId),
      ("parent_id", .null),
      ("references", .arr []),
      ("run_id", .str (lib.formatUuid h.runId)),
      ("state_after_hash", .null),
      ("state_before_hash", .null),
      ("status", status.toJson),
      ("step_index", Json.ofNat 0),
      ("stream_id", .str ""),
      ("summary", .null),
      ("target", .str ("node:" ++ nodeId)),
      ("timestamp", .str stamp.timestamp),
      ("trace_id", .str (lib.formatUuid h.traceId))])

/-- The entry that `on_event` hands to `spawn_journal_append`. -/
def eventEntry (h : RuntimeHooks) (lib : Externals) (stamp : Stamp) :
    ExecutorEvent → JournalEntry
  | .nodeStarted nodeId tool => h.buildNodeInteractionEntry lib stamp nodeId tool "start" .pending []
  | .nodeCompleted nodeId tool _ => h.buildNodeInteractionEntry lib stamp nodeId tool "end" .ok
      [("duration_ms", Json.ofNat stamp.durationMs)]
  | .nodeFailed nodeId tool error =>
    h.buildNodeInteractionEntry lib stamp nodeId tool "failed" (.failed error) []
  | .toolRetry nodeId tool attempt error =>
    h.buildNodeInteractionEntry lib stamp nodeId tool "retry" .pending
      [("attempt", Json.ofNat attempt), ("error", .str error)]

end RuntimeHooks

/-! ## Active nodes -/

inductive NodeStatus
  | running
  | retrying (attempt max : ℕ)
deriving DecidableEq

structure ActiveNode where
  nodeId : String
  toolName : String
  status : NodeStatus
deriving DecidableEq

/-- The first active node with this id is marked. -/
def markRetrying (nodeId : String) (attempt : ℕ) : List ActiveNode → List ActiveNode
  | [] => []
  | node :: nodes =>
    if node.nodeId = nodeId then { node with status := .retrying attempt 0 } :: nodes
    else node :: markRetrying nodeId attempt nodes

/-- What `on_event` does to `active_nodes`: an ended node is removed by its id. -/
def onNodes : ExecutorEvent → List ActiveNode → List ActiveNode
  | .nodeStarted nodeId tool, nodes => nodes ++ [⟨nodeId, tool, .running⟩]
  | .nodeCompleted nodeId _ _, nodes | .nodeFailed nodeId _ _, nodes =>
    nodes.filter fun node => node.nodeId != nodeId
  | .toolRetry nodeId _ attempt _, nodes => markRetrying nodeId attempt nodes

/-! ## Observed runs -/

/-- A run with its hooks: the nodes in the process table, the append tasks that have not run, each
with its entry, and the journal that they write to. -/
structure Observed where
  run : LiveRun
  activeNodes : List ActiveNode
  log : List NodeEvent
  spawned : List (NodeEvent × JournalEntry)
  journal : RedbJournal
  -- the terminal entry has no event
  written : List (ℕ × Option NodeEvent)
  dropped : List NodeEvent

def Launch.hooks (l : Launch) (runId : RunId) : RuntimeHooks :=
  ⟨runId, l.scope.namespace_, l.ctx.sessionId, l.scope.actor, l.ctx.traceId⟩

def Launch.stepContext (l : Launch) : StepContext Tool :=
  { l.sys.stepContext l.scope l.ctx l.workflow with workflowId := l.workflow.id }

/-- The end with which a call of `execute_step` is reported. -/
def Launch.finalEvent (l : Launch) : StepAnswer → Step → Outputs → Option ExecutorEvent :=
  l.stepContext.finalEvent l.sys.lib

namespace Observed
variable (l : Launch) (runId : RunId) (o : Observed)

/-- `on_event`: the entry is built at once and appended by a task of its own. -/
def onEvent (stamp : Stamp) (e : NodeEvent) : Observed :=
  { o with
    activeNodes := onNodes e.event o.activeNodes
    log := o.log ++ [e]
    spawned := o.spawned ++ [(e, (l.hooks runId).eventEntry l.sys.lib stamp e.event)] }

/-- `on_event`, when there is an event. -/
def raise (stamp : Stamp) : Option NodeEvent → Observed
  | some e => o.onEvent l runId stamp e
  | none => o

/-- The retries that an execution has announced. -/
def retriesOf (x : StepExecution) : List ExecutorEvent :=
  (o.log.filter fun e => decide (e.execution = x) && e.event.boundary.isNone).map NodeEvent.event

/-- An answer is given when its retries have been announced. -/
def answerable (s : State) : Choice StepAnswer → Bool
  | .answer k a => (s.tasks[k]?).any fun t => match t.pc with
    | .executing seen =>
      decide (l.stepContext.stepRetries l.sys.lib a t.current seen = o.retriesOf t.execution)
    | _ => false
  | _ => true

/-- One append of this run, with the id it gets. -/
def write (now : Time) (entry : JournalEntry) (e : Option NodeEvent) : Observed :=
  { o with
    journal := (o.journal.append now entry).2
    written := o.written ++ [((o.journal.append now entry).1, e)] }

end Observed

/-- The entry that the watcher is about to append. -/
def Watcher.terminalRow : Watcher → Option JournalRow
  | .recorded result => some (startEntry result)
  | .overRecorded final => final.map FinalStatus.entry
  | _ => none

/-- Who moves: the worker, an attempt that is to be retried, the watcher or the caller, an append
task, one whose append fails, the watcher with the terminal entry, another user of the journal. -/
inductive ObservedMove
  | work (c : Choice StepAnswer) (stamp : Stamp)
  | retry (k : ℕ) (a : StepAnswer) (stamp : Stamp)
  | aside (m : LifeMove)
  | append (k : ℕ) (now : Time)
  | drop (k : ℕ)
  | finish (now : Time)
  | others (op : JournalOp)

/-- The moves that neither the worker makes nor an append. -/
def LifeMove.isAside : LifeMove → Bool
  | .work _ | .interaction _ | .append => false
  | _ => true

inductive ObservedStep (l : Launch) (runId : RunId) (o : Observed) : ObservedMove → Observed → Prop
  | work {c : Choice StepAnswer} {s s' : State} {stamp : Stamp} (hw : o.run.worker = .running s)
      (h : Trans l.env s c s') (hready : o.answerable l s c = true) :
      ObservedStep l runId o (.work c stamp)
        ({ o with run := { o.run with worker := .running s' } }.raise l runId stamp
          (raised l.finalEvent s c))
  | retry {k : ℕ} {a : StepAnswer} {s : State} {t : Task} {seen : Outputs} {e : ExecutorEvent}
      {rest : List ExecutorEvent} {stamp : Stamp} (hw : o.run.worker = .running s)
      (hk : s.tasks[k]? = some t) (hpc : t.pc = .executing seen)
      (hnext : l.stepContext.stepRetries l.sys.lib a t.current seen =
        o.retriesOf t.execution ++ e :: rest) :
      ObservedStep l runId o (.retry k a stamp) (o.onEvent l runId stamp ⟨t.execution, e⟩)
  | aside {m : LifeMove} {r' : LiveRun} (h : LifeStep l o.run m r') (hm : m.isAside = true) :
      ObservedStep l runId o (.aside m) { o with run := r' }
  | append {k : ℕ} {e : NodeEvent} {entry : JournalEntry} {now : Time} {r' : LiveRun}
      (hk : o.spawned[k]? = some (e, entry)) (h : LifeStep l o.run (.interaction entry.payload) r') :
      ObservedStep l runId o (.append k now)
        ({ o with run := r', spawned := o.spawned.eraseIdx k }.write now entry (some e))
  -- the append fails, or there is no journal
  | drop {k : ℕ} {e : NodeEvent} {entry : JournalEntry} (hk : o.spawned[k]? = some (e, entry)) :
      ObservedStep l runId o (.drop k)
        { o with spawned := o.spawned.eraseIdx k, dropped := o.dropped ++ [e] }
  | finish {row : JournalRow} {now : Time} {r' : LiveRun} (h : LifeStep l o.run .append r')
      (hrow : o.run.watcher.terminalRow = some row) :
      ObservedStep l runId o (.finish now)
        ({ o with run := r' }.write now ((l.hooks runId).entry row.eventType row.payload) none)
  -- the forwarding task has seen no terminal event and appends nothing
  | finishSilent {now : Time} {r' : LiveRun} (h : LifeStep l o.run .append r')
      (hrow : o.run.watcher.terminalRow = none) :
      ObservedStep l runId o (.finish now) { o with run := r' }
  | others {op : JournalOp} {j' : RedbJournal} (h : JournalStep o.journal op j') :
      ObservedStep l runId o (.others op) { o with journal := j' }

/-- Where an observed run starts, on any journal. -/
def Launch.ObservedStart (l : Launch) (o : Observed) : Prop :=
  ∃ j, o = ⟨l.start, [], [], [], j, [], []⟩

/-! ## Evaluation -/

/-- The observed run after a move, when the move is possible. Reconciliation is left to the relation. -/
def Observed.apply (l : Launch) (runId : RunId) (o : Observed) : ObservedMove → Option Observed
  | .work c stamp => match o.run.worker with
    | .running s =>
      if o.answerable l s c then
        (Executor.apply l.env s c).map fun s' =>
          { o with run := { o.run with worker := .running s' } }.raise l runId stamp
            (raised l.finalEvent s c)
      else none
    | .absent | .panicked => none
  | .retry k a stamp => match o.run.worker with
    | .running s => (s.tasks[k]?).bind fun t => match t.pc with
      | .executing seen =>
        match (l.stepContext.stepRetries l.sys.lib a t.current seen).drop
          (o.retriesOf t.execution).length with
        | e :: rest =>
          if l.stepContext.stepRetries l.sys.lib a t.current seen =
              o.retriesOf t.execution ++ e :: rest then
            some (o.onEvent l runId stamp ⟨t.execution, e⟩)
          else none
        | [] => none
      | _ => none
    | .absent | .panicked => none
  | .aside m => if m.isAside then (o.run.apply l m).map fun r' => { o with run := r' } else none
  | .append k now => (o.spawned[k]?).bind fun p =>
    (o.run.apply l (.interaction p.2.payload)).map fun r' =>
      { o with run := r', spawned := o.spawned.eraseIdx k }.write now p.2 (some p.1)
  | .drop k => (o.spawned[k]?).map fun p =>
    { o with spawned := o.spawned.eraseIdx k, dropped := o.dropped ++ [p.1] }
  | .finish now => (o.run.apply l .append).map fun r' => match o.run.watcher.terminalRow with
    | some row =>
      { o with run := r' }.write now ((l.hooks runId).entry row.eventType row.payload) none
    | none => { o with run := r' }
  | .others (.write w) => some { o with journal := (w.perform o.journal).2 }
  | .others (.reconcileZombies _) => none

theorem Observed.apply_sound {l : Launch} {runId : RunId} {o o' : Observed} {m : ObservedMove}
    (h : o.apply l runId m = some o') : ObservedStep l runId o m o' := by
  cases m with
  | work c stamp =>
    simp only [Observed.apply] at h
    split at h
    · rename_i s hw
      split_ifs at h with hready
      obtain ⟨s', hs, rfl⟩ := Option.map_eq_some_iff.mp h
      exact .work hw (Executor.apply_sound hs) hready
    · cases h
    · cases h
  | retry k a stamp =>
    simp only [Observed.apply] at h
    split at h
    · rename_i s hw
      obtain ⟨t, hk, h⟩ := Option.bind_eq_some_iff.mp h
      split at h
      · rename_i seen hpc
        split at h
        · split_ifs at h with hnext
          cases h
          exact .retry hw hk hpc hnext
        · cases h
      · cases h
    · cases h
    · cases h
  | aside m =>
    simp only [Observed.apply] at h
    split_ifs at h with hm
    obtain ⟨r', hr, rfl⟩ := Option.map_eq_some_iff.mp h
    exact .aside (LiveRun.apply_sound hr) hm
  | append k now =>
    obtain ⟨⟨e, entry⟩, hk, h⟩ := Option.bind_eq_some_iff.mp h
    obtain ⟨r', hr, rfl⟩ := Option.map_eq_some_iff.mp h
    exact .append hk (LiveRun.apply_sound hr)
  | drop k =>
    obtain ⟨⟨e, entry⟩, hk, rfl⟩ := Option.map_eq_some_iff.mp h
    exact .drop hk
  | finish now =>
    obtain ⟨r', hr, rfl⟩ := Option.map_eq_some_iff.mp h
    split
    · rename_i row hrow
      exact .finish (LiveRun.apply_sound hr) hrow
    · rename_i hrow
      exact .finishSilent (LiveRun.apply_sound hr) hrow
  | others op =>
    cases op with
    | write w =>
      cases h
      exact .others (.write w)
    | reconcileZombies => cases h

/-- A scripted observed run on an empty journal, each move of which meets a condition. -/
def Launch.observe (l : Launch) (runId : RunId) (ok : Observed → ObservedMove → Prop)
    [∀ o m, Decidable (ok o m)] (script : List ObservedMove) : Option Observed :=
  exec (fun o m => if ok o m then o.apply l runId m else none) ⟨l.start, [], [], [], .open_, [], []⟩
    script

theorem Launch.observe_reaches {l : Launch} {runId : RunId} {ok : Observed → ObservedMove → Prop}
    [∀ o m, Decidable (ok o m)] {script : List ObservedMove} {o : Observed}
    (h : l.observe runId ok script = some o) :
    ReachesBy (ObservedStep l runId) ok l.ObservedStart o :=
  exec_guarded_reachesBy (fun _ _ _ => Observed.apply_sound) (.start ⟨.open_, rfl⟩) h

/-! ## The run below -/

section Run
variable {l : Launch} {runId : RunId} {o o' : Observed} {m : ObservedMove}

@[simp] theorem Observed.raise_run (o : Observed) (stamp : Stamp) (e : Option NodeEvent) :
    (o.raise l runId stamp e).run = o.run := by
  cases e <;> rfl

@[simp] theorem Observed.raise_log (o : Observed) (stamp : Stamp) (e : Option NodeEvent) :
    (o.raise l runId stamp e).log = o.log ++ e.toList := by
  cases e
  · exact (List.append_nil _).symm
  · rfl

/-- The watcher does not stop early. -/
def ObservedMove.StaysOn (l : Launch) (o : Observed) : ObservedMove → Prop
  | .aside m => Runtime.StaysOn l o.run m
  | _ => True

theorem ObservedStep.life (h : ObservedStep l runId o m o') (hok : m.StaysOn l o)
    (hr : ReachesBy (LifeStep l) (StaysOn l) l.Started o.run) :
    ReachesBy (LifeStep l) (StaysOn l) l.Started o'.run := by
  cases h with
  | work hw h _ =>
    rw [Observed.raise_run]
    exact hr.tail (show StaysOn l o.run (.work _) from trivial) (.work hw h)
  | retry => exact hr
  | aside h _ => exact hr.tail hok h
  | append _ h => exact hr.tail (show StaysOn l o.run (.interaction _) from trivial) h
  | finish h _ | finishSilent h _ => exact hr.tail (show StaysOn l o.run .append from trivial) h
  | drop | others => exact hr

theorem LifeStep.aside_worker {r r' : LiveRun} {m : LifeMove} (h : LifeStep l r m r')
    (hm : ∀ c, m ≠ .work c) : r'.worker = r.worker := by
  obtain hw | ⟨c, s, s', rfl, -⟩ := h.worker_cases
  · exact hw
  · exact absurd rfl (hm c)

/-- Either the worker moves and its event is recorded, or an execution in flight announces a retry, or
worker, nodes and log stay. -/
theorem ObservedStep.log_cases (h : ObservedStep l runId o m o') :
    (∃ c s s' stamp, m = .work c stamp ∧ o.run.worker = .running s ∧ Trans l.env s c s' ∧
      o'.run.worker = .running s' ∧
      o' = { o with run := o'.run }.raise l runId stamp (raised l.finalEvent s c)) ∨
    (∃ s t e stamp, o.run.worker = .running s ∧ t ∈ s.tasks ∧ 0 < t.pc.inFlight ∧
      e.boundary = none ∧ o' = o.onEvent l runId stamp ⟨t.execution, e⟩) ∨
    (o'.run.worker = o.run.worker ∧ o'.log = o.log ∧ o'.activeNodes = o.activeNodes) := by
  cases h with
  | @work c s s' stamp hw h _ =>
    left
    refine ⟨c, s, s', stamp, rfl, hw, h, by rw [Observed.raise_run], ?_⟩
    rw [Observed.raise_run]
  | @retry k a s t seen e rest stamp hw hk hpc hnext =>
    right; left
    have hmem : e ∈ l.stepContext.stepRetries l.sys.lib a t.current seen := by
      rw [hnext]
      exact List.mem_append_right _ List.mem_cons_self
    exact ⟨s, t, e, stamp, hw, List.mem_of_getElem? hk, by rw [hpc]; exact Nat.one_pos,
      stepRetries_boundary hmem, rfl⟩
  | aside h hm =>
    right; right
    refine ⟨h.aside_worker ?_, rfl, rfl⟩
    rintro c rfl
    cases hm
  | append _ h => exact .inr (.inr ⟨h.aside_worker (by simp), rfl, rfl⟩)
  | finish h _ | finishSilent h _ => exact .inr (.inr ⟨h.aside_worker (by simp), rfl, rfl⟩)
  | drop | others => exact .inr (.inr ⟨rfl, rfl, rfl⟩)

/-- The log follows the worker. -/
structure Observed.Sound (l : Launch) (o : Observed) : Prop where
  worker : o.run.worker.Sound l
  logged : ∀ s, o.run.worker = .running s → Logged s o.log
  silent : o.run.worker.isRunning = false → o.log = []

theorem Observed.Sound.step (hi : o.Sound l) (h : ObservedStep l runId o m o') : o'.Sound l := by
  obtain ⟨c, s, s', stamp, -, hw, htrans, hw', ho'⟩ | ⟨s, t, e, stamp, hw, ht, hfly, hretry, rfl⟩ |
    ⟨hw, hlog, -⟩ := h.log_cases
  · have hreach := hi.worker s hw
    have hlog : o'.log = o.log ++ (raised l.finalEvent s c).toList := by
      rw [ho', Observed.raise_log]
    refine ⟨?_, ?_, ?_⟩
    · rw [hw']
      rintro _ ⟨⟩
      exact hreach.tail trivial htrans
    · rw [hw', hlog]
      rintro _ ⟨⟩
      exact (hi.logged s hw).step (Reachable.tallies hreach) (Reachable.ledger hreach)
        (fun a step seen e => finalEvent_boundary) htrans
    · rw [hw']
      intro hnot
      cases hnot
  · have hlogged := hi.logged s hw
    have hopen := hlogged.flying t ht hfly
    refine ⟨hi.worker, ?_, ?_⟩
    · intro s₁ hs₁
      cases hw.symm.trans hs₁
      refine hlogged.append (e := ⟨t.execution, e⟩) ?_ ?_ (fun _ _ _ _ => hretry)
      · rw [hopen]
        exact List.cons_ne_nil _ _
      · rw [hopen, hretry]
        exact .inr (.inl rfl)
    · intro hnot
      have hrunning : o.run.worker.isRunning = false := hnot
      rw [hw] at hrunning
      cases hrunning
  · refine ⟨?_, ?_, ?_⟩
    · rw [hw]
      exact hi.worker
    · rw [hw, hlog]
      exact hi.logged
    · rw [hw, hlog]
      exact hi.silent

theorem Observed.Sound.paired (hi : o.Sound l) (x : StepExecution) : Paired (phases o.log x) := by
  cases hw : o.run.worker with
  | running s => exact (hi.logged s hw).paired x
  | absent | panicked =>
    rw [hi.silent (by rw [hw]; rfl)]
    exact .inl rfl

theorem Launch.ObservedStart.sound (h : l.ObservedStart o) : o.Sound l := by
  obtain ⟨j, rfl⟩ := h
  refine ⟨l.start_sound, ?_, fun _ => rfl⟩
  intro s hs
  obtain ⟨rfl, -⟩ := Launch.start_running hs
  exact logged_start l.env l.input

/-- While the watcher stays on, an observed run is a run whose watcher stays on, and its log follows
the worker. -/
theorem observed_sound {ok : Observed → ObservedMove → Prop} (hok : ∀ o m, ok o m → m.StaysOn l o)
    (h : ReachesBy (ObservedStep l runId) ok l.ObservedStart o) :
    ReachesBy (LifeStep l) (StaysOn l) l.Started o.run ∧ o.Sound l := by
  induction h with
  | start h =>
    have hsound := h.sound
    obtain ⟨j, rfl⟩ := h
    exact ⟨.start rfl, hsound⟩
  | tail _ hm hstep ih => exact ⟨hstep.life (hok _ _ hm) ih.1, ih.2.step hstep⟩

end Run

end Konf.Runtime
