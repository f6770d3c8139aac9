import Konf.Runtime.EventBus
import Konf.Runtime.Outcome

/-! # The runs of a runtime

Model of `Runtime` (`runtime.rs`) with all its runs: the process table (`process.rs`) with its garbage
collection, the counters of `metrics`, the events of `start` and of the watchers on the bus, and the
callers of `wait` and `run`. A run's id is its place in the order of starts. Of a run and its watcher
everything moves as in the life of a run; between the status and the journal entry the watcher tells the
outcome to the counters and to the bus.

The quota, the rows' other fields and the text of instants (`format`) are left out. The clock counts
nanoseconds. -/

namespace Konf.Runtime
open Konf.Substrate Konf.Executor Konf.Transition Konf.EventBus
set_option autoImplicit false

/-! ## What the watcher tells -/

/-- An outcome, as the watcher tells it. -/
inductive RunOutcome
  | completed
  | failed (error : String)
  | cancelled (reason : String)

namespace RunOutcome

/-- What the completion task makes of the result of `Engine::run`. -/
def ofResult : Except KonfluxError Json → RunOutcome
  | .ok _ => .completed
  | .error e => if e.isCancelled then .cancelled e.display else .failed e.display

/-- What the forwarding task makes of its `final_status`. -/
def ofFinal : Option FinalStatus → RunOutcome
  | some f =>
    if f.completed then .completed
    else if f.eventType = "workflow_cancelled" then
      .cancelled (((f.payload.get "reason").bind Json.asStr).getD "cancelled")
    else .failed (((f.payload.get "error").bind Json.asStr).getD "unknown")
  | none => .failed "stream ended without terminal event"

def event (runId : Uuid) (durationMs : ℕ) : RunOutcome → RunEvent
  | completed => .runCompleted runId durationMs
  | failed error => .runFailed runId durationMs error
  | cancelled reason => .runCancelled runId reason

/-- The outcome and the status say the same. The reason of a cancellation may be another. -/
inductive Tells : RunOutcome → RunStatus → Prop
  | completed (output : Json) : Tells .completed (.completed output)
  | failed (error : String) : Tells (.failed error) (.failed error)
  | cancelled (reason reason' : String) : Tells (.cancelled reason) (.cancelled reason')

theorem ofResult_tells (result : Except KonfluxError Json) :
    (ofResult result).Tells (startStatus result) := by
  cases result with
  | ok output => exact .completed output
  | error e =>
    cases hcancel : e.isCancelled with
    | true => simp [ofResult, startStatus, hcancel, Tells.cancelled]
    | false => simp [ofResult, startStatus, hcancel, Tells.failed]

theorem ofFinal_tells (final : Option FinalStatus) : (ofFinal final).Tells (streamStatus final) := by
  cases final with
  | none => exact .failed _
  | some f =>
    unfold ofFinal streamStatus
    simp only
    split_ifs
    · exact .completed _
    · exact .cancelled _ _
    · exact .failed _

end RunOutcome

namespace Watcher

/-- What the watcher has to tell, from the status to the journal entry. -/
def outcome : Watcher → Option RunOutcome
  | .recorded result => some (.ofResult result)
  | .overRecorded final => some (.ofFinal final)
  | .absent | .collecting _ | .finished _ | .forwarding _ | .over _ | .ended => none

def hasRecorded : Watcher → Bool
  | .recorded _ | .overRecorded _ | .ended => true
  | .absent | .collecting _ | .finished _ | .forwarding _ | .over _ => false

/-- It knows the outcome and has not yet written it. -/
def isReady : Watcher → Bool
  | .finished _ | .over _ => true
  | .absent | .collecting _ | .recorded _ | .forwarding _ | .overRecorded _ | .ended => false

end Watcher

def RunStatus.isCompleted : RunStatus → Bool
  | .completed _ => true
  | _ => false

def RunStatus.isFailed : RunStatus → Bool
  | .failed _ => true
  | _ => false

def RunStatus.isCancelled : RunStatus → Bool
  | .cancelled _ => true
  | _ => false

/-- The run that a lifecycle event is about. -/
def lifecycleOf : RunEvent → Option Uuid
  | .runStarted runId .. | .runCompleted runId _ | .runFailed runId .. | .runCancelled runId _ => some runId
  | .nodeStart .. | .nodeEnd .. | .textDelta .. | .toolInvoked .. | .scheduleFired ..
  | .scheduleFailed .. | .intentReplayed .. | .journalAppended .. => none

theorem RunOutcome.lifecycleOf_event (o : RunOutcome) (runId : Uuid) (durationMs : ℕ) :
    lifecycleOf (o.event runId durationMs) = some runId := by
  cases o <;> rfl

/-! ## The runs -/

/-- An instant that the watcher has read, with the duration it makes of it. -/
structure EndStamp where
  at_ : ℤ
  durationMs : ℕ

/-- A run with its row of the process table, which is there while it is `listed`. `counted` and
`announced` say how far its watcher is with the outcome. -/
structure FleetRun where
  launch : Launch
  live : LiveRun
  startedAt : ℤ
  stamp : Option EndStamp
  completedAt : Option ℤ
  listed : Bool
  counted : Bool
  announced : Bool

namespace FleetRun

def new (l : Launch) (now : ℤ) : FleetRun := ⟨l, l.start, now, none, none, true, false, false⟩

def withLive (r : FleetRun) (live : LiveRun) : FleetRun := { r with live := live }

/-- `(now - started_at).num_milliseconds().max(0)`, from `now` if the row is gone. -/
def durationMs (r : FleetRun) (now : ℤ) : ℕ :=
  if r.listed then ((now - r.startedAt).tdiv 1000000).toNat else 0

def stamped (r : FleetRun) (now : ℤ) : FleetRun := { r with stamp := some ⟨now, r.durationMs now⟩ }

/-- The update of the row, if it is there. -/
def recorded (r : FleetRun) (live : LiveRun) (at_ : ℤ) : FleetRun :=
  if r.listed then { r with live := live, completedAt := some at_ }
  else { r with live := { live with status := r.live.status } }

end FleetRun

/-- The counters of `RuntimeMetrics`, atomic words. -/
structure Totals where
  completed : UInt64
  failed : UInt64
  cancelled : UInt64
deriving DecidableEq

def Totals.add (t : Totals) : RunOutcome → Totals
  | .completed => { t with completed := t.completed + 1 }
  | .failed _ => { t with failed := t.failed + 1 }
  | .cancelled _ => { t with cancelled := t.cancelled + 1 }

inductive WaitError
  | notFound (runId : Uuid)
  | engine (e : KonfluxError)
deriving DecidableEq

/-- What `wait` makes of a status. It sleeps on a run that is not over. -/
def waitAnswer : RunStatus → Option (Except WaitError Json)
  | .completed output => some (.ok output)
  | .failed error => some (.error (.engine (.execution (.nodeFailed "runtime" "wait" error))))
  | .cancelled reason => some (.error (.engine (.execution (.cancelled reason))))
  | .pending | .running => none

/-- A caller of `wait`; with `started` it is `run`, which has started the run itself. -/
structure Waiter where
  run : ℕ
  started : Bool
  polledAt : ℤ
  answer : Option (Except WaitError Json)

/-- `condemned` are the runs that a garbage collection has chosen and not yet removed. -/
structure Fleet where
  now : ℤ
  runs : List FleetRun
  totals : Totals
  events : List RunEvent
  condemned : List ℕ
  waiters : List Waiter

namespace Fleet

def boot (now : ℤ) : Fleet := ⟨now, [], ⟨0, 0, 0⟩, [], [], []⟩

def setRun (s : Fleet) (i : ℕ) (r : FleetRun) : Fleet := { s with runs := s.runs.set i r }

def setWaiter (s : Fleet) (k : ℕ) (w : Waiter) : Fleet := { s with waiters := s.waiters.set k w }

def startedEvent (format : ℤ → String) (i : ℕ) (r : FleetRun) : RunEvent :=
  .runStarted i r.launch.workflow.id r.launch.scope.namespace_ none (format r.startedAt)

def started (s : Fleet) (format : ℤ → String) (l : Launch) : Fleet :=
  { s with
    runs := s.runs ++ [.new l s.now]
    events := s.events ++ [startedEvent format s.runs.length (.new l s.now)] }

/-- The row of a run in the process table. -/
def row (s : Fleet) (i : ℕ) : Option FleetRun := s.runs[i]?.filter FleetRun.listed

/-- One look of `wait` at the process table. -/
def polled (s : Fleet) (w : Waiter) : Waiter :=
  match s.row w.run with
  | none => { w with answer := some (.error (.notFound w.run)) }
  | some r => match waitAnswer r.live.status with
    | none => { w with polledAt := s.now }
    | some answer => { w with answer := some answer }

/-- `ProcessTable::active_count`. -/
def activeCount (s : Fleet) : ℕ := s.runs.countP fun r => r.listed && r.live.status.isRunning

end Fleet

/-! ## Moves -/

inductive FleetMove
  | tick (t : ℤ)
  | start (l : Launch)
  | run (l : Launch)
  | life (i : ℕ) (m : LifeMove)
  | stamp (i : ℕ)
  | record (i : ℕ)
  | count (i : ℕ)
  | announce (i : ℕ)
  | append (i : ℕ)
  | others (e : RunEvent)
  | condemn (i : ℕ) (cutoff : ℤ)
  | evict (i : ℕ)
  | wait (i : ℕ)
  | poll (k : ℕ)

/-- The moves of a run that nothing of the fleet depends on. -/
def LifeMove.isInner : LifeMove → Bool
  | .record | .append => false
  | _ => true

inductive FleetStep (format : ℤ → String) (s : Fleet) : FleetMove → Fleet → Prop
  | tick {t : ℤ} (ht : s.now ≤ t) : FleetStep format s (.tick t) { s with now := t }
  | start (l : Launch) : FleetStep format s (.start l) (s.started format l)
  | run {l : Launch} (hplain : l.streaming = false) :
      FleetStep format s (.run l)
        { s.started format l with waiters := s.waiters ++ [⟨s.runs.length, true, s.now, none⟩] }
  | life {i : ℕ} {r : FleetRun} {m : LifeMove} {live : LiveRun} (hi : s.runs[i]? = some r)
      (hm : m.isInner = true) (h : LifeStep r.launch r.live m live) :
      FleetStep format s (.life i m) (s.setRun i (r.withLive live))
  | stamp {i : ℕ} {r : FleetRun} (hi : s.runs[i]? = some r) (hready : r.live.watcher.isReady = true)
      (hnew : r.stamp = none) : FleetStep format s (.stamp i) (s.setRun i (r.stamped s.now))
  | record {i : ℕ} {r : FleetRun} {c : EndStamp} {live : LiveRun} (hi : s.runs[i]? = some r)
      (hstamp : r.stamp = some c) (h : LifeStep r.launch r.live .record live) :
      FleetStep format s (.record i) (s.setRun i (r.recorded live c.at_))
  | count {i : ℕ} {r : FleetRun} {o : RunOutcome} (hi : s.runs[i]? = some r)
      (ho : r.live.watcher.outcome = some o) (hnew : r.counted = false) :
      FleetStep format s (.count i)
        { s.setRun i { r with counted := true } with totals := s.totals.add o }
  | announce {i : ℕ} {r : FleetRun} {o : RunOutcome} {c : EndStamp} (hi : s.runs[i]? = some r)
      (ho : r.live.watcher.outcome = some o) (hstamp : r.stamp = some c) (hcounted : r.counted = true)
      (hnew : r.announced = false) :
      FleetStep format s (.announce i)
        { s.setRun i { r with announced := true } with events := s.events ++ [o.event i c.durationMs] }
  | append {i : ℕ} {r : FleetRun} {live : LiveRun} (hi : s.runs[i]? = some r)
      (htold : r.announced = true) (h : LifeStep r.launch r.live .append live) :
      FleetStep format s (.append i) (s.setRun i (r.withLive live))
  | others {e : RunEvent} (he : lifecycleOf e = none) :
      FleetStep format s (.others e) { s with events := s.events ++ [e] }
  -- the cutoff was computed from the clock when the collection began
  | condemn {i : ℕ} {r : FleetRun} {t cutoff : ℤ} (hrow : s.row i = some r)
      (hover : r.live.status.isTerminal = true) (ht : r.completedAt = some t) (hold : t < cutoff)
      (hcutoff : cutoff ≤ s.now) :
      FleetStep format s (.condemn i cutoff) { s with condemned := i :: s.condemned }
  | evict {i : ℕ} {r : FleetRun} (hc : i ∈ s.condemned) (hi : s.runs[i]? = some r) :
      FleetStep format s (.evict i)
        { s.setRun i { r with listed := false } with condemned := s.condemned.erase i }
  -- an id is known to its caller from the start that has returned it
  | wait {i : ℕ} (hi : i < s.runs.length) : FleetStep format s (.wait i)
      { s with waiters := s.waiters ++ [⟨i, false, s.now, none⟩] }
  | poll {k : ℕ} {w : Waiter} (hk : s.waiters[k]? = some w) (hopen : w.answer = none) :
      FleetStep format s (.poll k) (s.setWaiter k (s.polled w))

def Fleet.Boot (s : Fleet) : Prop := ∃ now, s = .boot now

/-! ## One run -/

section Steps
variable {l : Launch} {r r' : LiveRun} {m : LifeMove}

/-- The watcher stands as before with respect to the outcome. -/
structure SameOutcome (r r' : LiveRun) : Prop where
  status : r'.status = r.status
  outcome : r'.watcher.outcome = r.watcher.outcome
  hasRecorded : r'.watcher.hasRecorded = r.watcher.hasRecorded
  hasEnded : r'.watcher.hasEnded = r.watcher.hasEnded

theorem SameOutcome.of_watcher (hw : r'.watcher = r.watcher) (hs : r'.status = r.status) :
    SameOutcome r r' := by
  refine ⟨hs, ?_, ?_, ?_⟩ <;> rw [hw]

theorem LifeStep.sameOutcome (h : LifeStep l r m r') (hm : m.isInner = true) : SameOutcome r r' := by
  cases h with
  | record | streamRecord | append | streamAppend => cases hm
  | collect hw | take hw | pass hw | passLast hw | drained hw | joinFailed hw | closed hw | timeout hw =>
    refine ⟨rfl, ?_, ?_, ?_⟩ <;> simp only [hw] <;> rfl
  | _ => exact .of_watcher rfl rfl

theorem LifeStep.records (h : LifeStep l r .record r') :
    r.watcher.hasRecorded = false ∧ r'.watcher.hasRecorded = true ∧ r'.watcher.hasEnded = false ∧
      ∃ o, r'.watcher.outcome = some o ∧ o.Tells r'.status := by
  cases h with
  | @record result hw => exact ⟨by rw [hw]; rfl, rfl, rfl, _, rfl, RunOutcome.ofResult_tells result⟩
  | @streamRecord final hw => exact ⟨by rw [hw]; rfl, rfl, rfl, _, rfl, RunOutcome.ofFinal_tells final⟩

theorem LifeStep.appends (h : LifeStep l r .append r') :
    r'.status = r.status ∧ r'.watcher = .ended ∧ r.watcher.hasRecorded = true := by
  cases h with
  | append hw => exact ⟨rfl, rfl, by rw [hw]; rfl⟩
  | streamAppend hw => exact ⟨rfl, rfl, by rw [hw]; rfl⟩

theorem RunOutcome.Tells.isTerminal {o : RunOutcome} {status : RunStatus} (h : o.Tells status) :
    status.isTerminal = true := by
  cases h <;> rfl

theorem Launch.start_fresh (l : Launch) :
    l.start.status = .running ∧ l.start.watcher.hasRecorded = false := by
  obtain hs | ⟨e, -, hs⟩ | ⟨-, hs⟩ | ⟨-, hs⟩ := l.start_cases
  · rw [hs]
    exact ⟨rfl, rfl⟩
  · rw [hs]
    exact ⟨rfl, rfl⟩
  · rw [hs, Launch.watcher]
    split_ifs <;> exact ⟨rfl, rfl⟩
  · rw [hs, Launch.watcher]
    split_ifs <;> exact ⟨rfl, rfl⟩

end Steps

/-! ## The lifecycle events of a run -/

/-- The lifecycle events of a run on the bus, oldest first. -/
def Fleet.told (s : Fleet) (i : ℕ) : List RunEvent :=
  s.events.filter fun e => lifecycleOf e == some i

/-- What the bus has been told of a run: its start and, once announced, its outcome. -/
inductive Reported (format : ℤ → String) (i : ℕ) (r : FleetRun) : List RunEvent → Prop
  | going (h : r.announced = false) : Reported format i r [Fleet.startedEvent format i r]
  | concluded {o : RunOutcome} (durationMs : ℕ) (h : r.announced = true) (ho : o.Tells r.live.status) :
      Reported format i r [Fleet.startedEvent format i r, o.event i durationMs]

theorem Reported.congr {format : ℤ → String} {i : ℕ} {r r' : FleetRun} {told : List RunEvent}
    (h : Reported format i r told)
    (hstart : Fleet.startedEvent format i r' = Fleet.startedEvent format i r)
    (hannounced : r'.announced = r.announced)
    (hstatus : r.announced = true → r'.live.status = r.live.status) : Reported format i r' told := by
  cases h with
  | going hnew =>
    rw [← hstart]
    exact .going (hannounced.trans hnew)
  | concluded d hold ho =>
    rw [← hstart]
    exact .concluded d (hannounced.trans hold) (hstatus hold ▸ ho)

/-- A run, its row and what it has told. -/
structure FleetRun.Sound (format : ℤ → String) (i : ℕ) (told : List RunEvent) (r : FleetRun) : Prop where
  live : Reaches (LifeStep r.launch) r.launch.Started r.live
  early : r.live.watcher.hasRecorded = false →
    r.live.status = .running ∧ r.counted = false ∧ r.announced = false ∧ r.completedAt = none ∧
      r.listed = true
  late : r.live.watcher.hasRecorded = true → r.live.status.isTerminal = true
  outcome : ∀ o, r.live.watcher.outcome = some o → o.Tells r.live.status
  ended : r.live.watcher.hasEnded = true → r.announced = true
  order : r.announced = true → r.counted = true
  reported : Reported format i r told

namespace FleetRun.Sound
variable {format : ℤ → String} {i : ℕ} {told : List RunEvent} {r : FleetRun}

theorem new (l : Launch) (now : ℤ) :
    (FleetRun.new l now).Sound format i [Fleet.startedEvent format i (.new l now)] := by
  obtain ⟨hstatus, hwatcher⟩ := l.start_fresh
  refine ⟨.start rfl, fun _ => ⟨hstatus, rfl, rfl, rfl, rfl⟩, ?_, ?_, ?_, ?_, .going rfl⟩
  · intro h
    exact absurd (hwatcher.symm.trans h) (by decide)
  · intro o h
    have hnone : (FleetRun.new l now).live.watcher.outcome = none := by
      show l.start.watcher.outcome = none
      cases hw : l.start.watcher <;> simp_all [Watcher.hasRecorded, Watcher.outcome]
    rw [hnone] at h
    cases h
  · intro h
    have hended : l.start.watcher = .ended := Watcher.ended_of h
    rw [hended] at hwatcher
    cases hwatcher
  · intro h
    cases h

theorem hasRecorded_of_outcome {o : RunOutcome} (ho : r.live.watcher.outcome = some o) :
    r.live.watcher.hasRecorded = true := by
  cases hw : r.live.watcher <;> simp_all [Watcher.hasRecorded, Watcher.outcome]

theorem listed (h : r.Sound format i told) (hrec : r.live.watcher.hasRecorded = false) :
    r.listed = true := (h.early hrec).2.2.2.2

/-- A move of the run itself. -/
theorem inner (h : r.Sound format i told) {m : LifeMove} {live : LiveRun}
    (hstep : LifeStep r.launch r.live m live) (hsame : SameOutcome r.live live) :
    (r.withLive live).Sound format i told := by
  refine ⟨h.live.tail trivial hstep, ?_, ?_, ?_, ?_, h.order,
    h.reported.congr rfl rfl fun _ => hsame.status⟩
  · intro hrec
    obtain ⟨hstatus, hrest⟩ := h.early (hsame.hasRecorded ▸ hrec)
    exact ⟨hsame.status.trans hstatus, hrest⟩
  · intro hrec
    show live.status.isTerminal = true
    rw [hsame.status]
    exact h.late (hsame.hasRecorded ▸ hrec)
  · intro o ho
    show o.Tells live.status
    rw [hsame.status]
    exact h.outcome o (hsame.outcome ▸ ho)
  · intro hend
    exact h.ended (hsame.hasEnded ▸ hend)

theorem stamped (h : r.Sound format i told) (now : ℤ) : (r.stamped now).Sound format i told :=
  ⟨h.live, h.early, h.late, h.outcome, h.ended, h.order, h.reported.congr rfl rfl fun _ => rfl⟩

theorem recorded_eq (h : r.Sound format i told) {live : LiveRun} {at_ : ℤ}
    (hstep : LifeStep r.launch r.live .record live) :
    r.recorded live at_ = { r with live := live, completedAt := some at_ } :=
  if_pos (h.listed hstep.records.1)

theorem record (h : r.Sound format i told) {live : LiveRun} {at_ : ℤ}
    (hstep : LifeStep r.launch r.live .record live) : (r.recorded live at_).Sound format i told := by
  rw [h.recorded_eq hstep]
  obtain ⟨hbefore, hafter, hend, o, ho, htells⟩ := hstep.records
  obtain ⟨-, -, hnew, -, -⟩ := h.early hbefore
  refine ⟨h.live.tail trivial hstep, ?_, fun _ => htells.isTerminal, ?_, ?_, h.order,
    h.reported.congr rfl rfl fun hold => absurd (hnew.symm.trans hold) (by decide)⟩
  · intro hrec
    exact absurd (hafter.symm.trans hrec) (by decide)
  · intro o' ho'
    have hsame : o = o' := Option.some.inj (ho.symm.trans ho')
    exact hsame ▸ htells
  · intro hended
    exact absurd (hend.symm.trans hended) (by decide)

theorem count (h : r.Sound format i told) {o : RunOutcome} (ho : r.live.watcher.outcome = some o) :
    FleetRun.Sound format i told { r with counted := true } := by
  refine ⟨h.live, ?_, h.late, h.outcome, h.ended, fun _ => rfl, h.reported.congr rfl rfl fun _ => rfl⟩
  intro hrec
  exact absurd ((hasRecorded_of_outcome ho).symm.trans hrec) (by decide)

theorem announce (h : r.Sound format i told) {o : RunOutcome} {durationMs : ℕ}
    (ho : r.live.watcher.outcome = some o) (hcounted : r.counted = true) (hnew : r.announced = false) :
    FleetRun.Sound format i (told ++ [o.event i durationMs]) { r with announced := true } := by
  refine ⟨h.live, ?_, h.late, h.outcome, fun _ => rfl, fun _ => hcounted, ?_⟩
  · intro hrec
    exact absurd ((hasRecorded_of_outcome ho).symm.trans hrec) (by decide)
  · have hreported := h.reported
    cases hreported with
    | going => exact .concluded durationMs rfl (h.outcome o ho)
    | concluded _ hold => exact absurd (hnew.symm.trans hold) (by decide)

theorem append (h : r.Sound format i told) {live : LiveRun}
    (hstep : LifeStep r.launch r.live .append live) (htold : r.announced = true) :
    (r.withLive live).Sound format i told := by
  obtain ⟨hstatus, hend, hrec⟩ := hstep.appends
  have hwatcher : (r.withLive live).live.watcher = .ended := hend
  refine ⟨h.live.tail trivial hstep, ?_, ?_, ?_, fun _ => htold, h.order,
    h.reported.congr rfl rfl fun _ => hstatus⟩
  · intro hnot
    rw [hwatcher] at hnot
    cases hnot
  · intro _
    show live.status.isTerminal = true
    rw [hstatus]
    exact h.late hrec
  · intro o ho
    rw [hwatcher] at ho
    cases ho

theorem evict (h : r.Sound format i told) (hrec : r.live.watcher.hasRecorded = true) :
    FleetRun.Sound format i told { r with listed := false } := by
  refine ⟨h.live, ?_, h.late, h.outcome, h.ended, h.order, h.reported.congr rfl rfl fun _ => rfl⟩
  intro hnot
  exact absurd (hrec.symm.trans hnot) (by decide)

/-- A run is active, between its status and its counter, or counted under its status. -/
theorem one_kind (h : r.Sound format i told) :
    (if (r.listed && r.live.status.isRunning) = true then 1 else 0) +
      (if (r.live.status.isTerminal && !r.counted) = true then 1 else 0) +
      (if (r.counted && r.live.status.isCompleted) = true then 1 else 0) +
      (if (r.counted && r.live.status.isFailed) = true then 1 else 0) +
      (if (r.counted && r.live.status.isCancelled) = true then 1 else 0) = 1 := by
  cases hrec : r.live.watcher.hasRecorded with
  | false =>
    obtain ⟨hstatus, hcounted, -, -, hlisted⟩ := h.early hrec
    rw [hstatus, hcounted, hlisted]
    rfl
  | true =>
    have hover := h.late hrec
    generalize r.live.status = status at hover
    cases r.listed <;> cases r.counted <;> cases status <;> first | rfl | cases hover

end FleetRun.Sound

/-! ## The whole fleet -/

/-- The runs that the counters have counted with a status of this kind. -/
def Fleet.countedAs (s : Fleet) (kind : RunStatus → Bool) : ℕ :=
  s.runs.countP fun r => r.counted && kind r.live.status

/-- The counters, as they follow from the runs. -/
def Fleet.expected (s : Fleet) : Totals :=
  ⟨.ofNat (s.countedAs RunStatus.isCompleted), .ofNat (s.countedAs RunStatus.isFailed),
    .ofNat (s.countedAs RunStatus.isCancelled)⟩

structure Fleet.Sound (format : ℤ → String) (s : Fleet) : Prop where
  runs : ∀ (i : ℕ) (r : FleetRun), s.runs[i]? = some r → r.Sound format i (s.told i)
  fresh : ∀ i, s.runs.length ≤ i → s.told i = []
  totals : s.totals = s.expected
  condemned : ∀ i ∈ s.condemned, ∃ r, s.runs[i]? = some r ∧ r.live.watcher.hasRecorded = true

section Counting
variable {α : Type} {l : List α} {i : ℕ} {a b : α} {p : α → Bool}

theorem countP_set_same (hi : l[i]? = some a) (hp : p b = p a) : (l.set i b).countP p = l.countP p := by
  obtain ⟨hlt, rfl⟩ := List.getElem?_eq_some_iff.mp hi
  rw [List.countP_set hlt, hp]
  have hpos : p l[i] = true → 0 < l.countP p := fun h => List.countP_pos_iff.mpr ⟨_, l.getElem_mem hlt, h⟩
  split_ifs with h
  · have := hpos h
    omega
  · omega

theorem countP_set_new (hi : l[i]? = some a) (hold : p a = false) (hnew : p b = true) :
    (l.set i b).countP p = l.countP p + 1 := by
  obtain ⟨hlt, rfl⟩ := List.getElem?_eq_some_iff.mp hi
  rw [List.countP_set hlt, hold, hnew]
  simp

end Counting

namespace Fleet
variable {format : ℤ → String} {s s' : Fleet} {i : ℕ} {r r' : FleetRun}

theorem told_append (e : RunEvent) (j : ℕ)
    (hs : s'.events = s.events ++ [e]) :
    s'.told j = if lifecycleOf e = some j then s.told j ++ [e] else s.told j := by
  unfold told
  rw [hs, List.filter_append]
  split_ifs with h
  · simp [h]
  · simp [h]

theorem Sound.update (h : s.Sound format) {told : List RunEvent} (hi : s.runs[i]? = some r)
    (hruns : s'.runs = s.runs.set i r') (hr : r'.Sound format i told)
    (htold : ∀ j, s'.told j = if j = i then told else s.told j) (htotals : s'.totals = s'.expected)
    (hcondemned : ∀ j ∈ s'.condemned, j ∈ s.condemned)
    (hrec : r.live.watcher.hasRecorded = true → r'.live.watcher.hasRecorded = true) :
    s'.Sound format := by
  have hlt : i < s.runs.length := (List.getElem?_eq_some_iff.mp hi).1
  refine ⟨?_, ?_, htotals, ?_⟩
  · intro j u hj
    rw [hruns, List.getElem?_set] at hj
    rw [htold]
    split_ifs at hj with hij
    · cases hij
      cases hj
      rwa [if_pos rfl]
    · rw [if_neg fun hji => hij hji.symm]
      exact h.runs j u hj
  · intro j hj
    rw [hruns, List.length_set] at hj
    rw [htold, if_neg (by omega)]
    exact h.fresh j hj
  · intro j hj
    obtain ⟨u, hu, hover⟩ := h.condemned j (hcondemned j hj)
    rw [hruns, List.getElem?_set]
    split_ifs with hij
    · cases hij
      rw [hi, Option.some.injEq] at hu
      exact ⟨r', rfl, hrec (hu ▸ hover)⟩
    · exact ⟨u, hu, hover⟩

theorem expected_same (r' : FleetRun) (hi : s.runs[i]? = some r) (hruns : s'.runs = s.runs.set i r')
    (hsame : ∀ kind : RunStatus → Bool,
      (r'.counted && kind r'.live.status) = (r.counted && kind r.live.status)) :
    s'.expected = s.expected := by
  have hcount : ∀ kind, s'.countedAs kind = s.countedAs kind := by
    intro kind
    unfold countedAs
    rw [hruns]
    exact countP_set_same hi (hsame kind)
  unfold expected
  rw [hcount, hcount, hcount]

/-- A step of one run that no counter and no subscriber hears of. -/
theorem Sound.setRun (h : s.Sound format) (hi : s.runs[i]? = some r) (hr : r'.Sound format i (s.told i))
    (hsame : ∀ kind : RunStatus → Bool,
      (r'.counted && kind r'.live.status) = (r.counted && kind r.live.status))
    (hrec : r.live.watcher.hasRecorded = true → r'.live.watcher.hasRecorded = true) :
    (s.setRun i r').Sound format := by
  refine h.update hi rfl hr ?_ ?_ (fun _ hj => hj) hrec
  · intro j
    split_ifs with hj
    · rw [hj]
      rfl
    · rfl
  · exact h.totals.trans (expected_same r' hi rfl hsame).symm

theorem told_started (h : s.Sound format) (l : Launch) (j : ℕ) :
    (s.started format l).told j =
      if j = s.runs.length then [startedEvent format j (.new l s.now)] else s.told j := by
  rw [told_append (s := s) (startedEvent format s.runs.length (.new l s.now)) j rfl]
  by_cases hj : j = s.runs.length
  · cases hj
    rw [h.fresh _ (le_refl _), if_pos rfl]
    exact if_pos rfl
  · rw [if_neg hj, if_neg]
    intro hsome
    exact hj (Option.some.inj hsome).symm

theorem Sound.started (h : s.Sound format) (l : Launch) : (s.started format l).Sound format := by
  refine ⟨?_, ?_, ?_, ?_⟩
  · intro j u hj
    rw [told_started h]
    have hj : (s.runs ++ [FleetRun.new l s.now])[j]? = some u := hj
    rw [List.getElem?_append] at hj
    split_ifs at hj with hlt
    · rw [if_neg (by omega)]
      exact h.runs j u hj
    · rw [List.getElem?_singleton] at hj
      split_ifs at hj with hzero
      · cases hj
        rw [if_pos (by omega)]
        exact .new l s.now
  · intro j hj
    have hj : (s.runs ++ [FleetRun.new l s.now]).length ≤ j := hj
    rw [List.length_append, List.length_singleton] at hj
    rw [told_started h, if_neg (by omega)]
    exact h.fresh j (by omega)
  · have hcount : ∀ kind, (s.started format l).countedAs kind = s.countedAs kind := by
      intro kind
      show (s.runs ++ [FleetRun.new l s.now]).countP _ = _
      rw [List.countP_append]
      rfl
    show s.totals = (s.started format l).expected
    unfold expected
    rw [hcount, hcount, hcount]
    exact h.totals
  · intro j hj
    obtain ⟨u, hu, hover⟩ := h.condemned j hj
    have hlt : j < s.runs.length := (List.getElem?_eq_some_iff.mp hu).1
    exact ⟨u, (List.getElem?_append_left hlt).trans hu, hover⟩

/-- A step that leaves the runs and their events alone. -/
theorem Sound.aside (h : s.Sound format) (hruns : s'.runs = s.runs) (htold : ∀ j, s'.told j = s.told j)
    (htotals : s'.totals = s.totals)
    (hcondemned : ∀ j ∈ s'.condemned, ∃ r, s.runs[j]? = some r ∧ r.live.watcher.hasRecorded = true) :
    s'.Sound format := by
  refine ⟨?_, ?_, ?_, ?_⟩
  · intro j u hj
    rw [htold]
    exact h.runs j u (hruns ▸ hj)
  · intro j hj
    rw [htold]
    exact h.fresh j (hruns ▸ hj)
  · rw [htotals, h.totals]
    unfold expected countedAs
    rw [hruns]
  · intro j hj
    rw [hruns]
    exact hcondemned j hj

theorem row_eq_some : s.row i = some r ↔ s.runs[i]? = some r ∧ r.listed = true :=
  Option.filter_eq_some_iff

theorem expected_count {o : RunOutcome} (hi : s.runs[i]? = some r) (hnew : r.counted = false)
    (ho : o.Tells r.live.status) (hruns : s'.runs = s.runs.set i { r with counted := true }) :
    s'.expected = s.expected.add o := by
  have hsame : ∀ kind : RunStatus → Bool, kind r.live.status = false →
      s'.countedAs kind = s.countedAs kind := by
    intro kind hkind
    unfold countedAs
    rw [hruns]
    exact countP_set_same hi (by simp [hkind])
  have hone : ∀ kind : RunStatus → Bool, kind r.live.status = true →
      s'.countedAs kind = s.countedAs kind + 1 := by
    intro kind hkind
    unfold countedAs
    rw [hruns]
    exact countP_set_new hi (by simp [hnew]) (by simp [hkind])
  unfold expected
  generalize r.live.status = status at ho hsame hone
  cases ho with
  | completed output =>
    rw [hone _ rfl, hsame RunStatus.isFailed rfl, hsame RunStatus.isCancelled rfl]
    simp [Totals.add]
  | failed error =>
    rw [hone RunStatus.isFailed rfl, hsame RunStatus.isCompleted rfl, hsame RunStatus.isCancelled rfl]
    simp [Totals.add]
  | cancelled reason reason' =>
    rw [hone RunStatus.isCancelled rfl, hsame RunStatus.isCompleted rfl, hsame RunStatus.isFailed rfl]
    simp [Totals.add]

/-- Every step keeps the invariant. -/
theorem Sound.step (h : s.Sound format) {m : FleetMove} (hs : FleetStep format s m s') :
    s'.Sound format := by
  cases hs with
  | tick | wait | poll => exact h.aside rfl (fun _ => rfl) rfl h.condemned
  | start l => exact h.started l
  | run => exact (h.started _).aside rfl (fun _ => rfl) rfl (h.started _).condemned
  | life hi hm hlife =>
    have hsame := hlife.sameOutcome hm
    refine h.setRun hi ((h.runs _ _ hi).inner hlife hsame) ?_ ?_
    · intro kind
      show (_ && kind (FleetRun.withLive _ _).live.status) = _
      rw [FleetRun.withLive, hsame.status]
    · intro hrec
      exact hsame.hasRecorded.trans hrec
  | stamp hi => exact h.setRun hi ((h.runs _ _ hi).stamped _) (fun _ => rfl) id
  | @record i r c live hi hstamp hlife =>
    have hr := h.runs i r hi
    obtain ⟨-, hnew, -⟩ := hr.early hlife.records.1
    refine h.setRun hi (hr.record hlife) ?_ ?_
    · intro kind
      rw [hr.recorded_eq hlife]
      show (r.counted && _) = (r.counted && _)
      rw [hnew, Bool.false_and, Bool.false_and]
    · intro _
      rw [hr.recorded_eq hlife]
      exact hlife.records.2.1
  | count hi ho hnew =>
    have hr := h.runs _ _ hi
    refine h.update hi rfl (hr.count ho) ?_ ?_ (fun _ hj => hj) id
    · intro j
      split_ifs with hj
      · rw [hj]
        rfl
      · rfl
    · show s.totals.add _ = _
      rw [h.totals]
      exact (expected_count hi hnew (hr.outcome _ ho) rfl).symm
  | @announce i r o c hi ho hstamp hcounted hnew =>
    have hr : FleetRun.Sound format i (s.told i ++ [o.event i c.durationMs]) { r with announced := true } :=
      (h.runs i r hi).announce ho hcounted hnew
    refine h.update hi rfl hr ?_ ?_ (fun _ hj => hj) id
    · intro j
      rw [told_append (s := s) (o.event i c.durationMs) j rfl, o.lifecycleOf_event]
      simp only [Option.some.injEq]
      by_cases hj : j = i
      · rw [hj, if_pos rfl]
      · rw [if_neg hj, if_neg fun hij => hj hij.symm]
    · exact h.totals.trans (expected_same { r with announced := true } hi rfl fun _ => rfl).symm
  | append hi htold hlife =>
    obtain ⟨hstatus, hend, -⟩ := hlife.appends
    refine h.setRun hi ((h.runs _ _ hi).append hlife htold) ?_ ?_
    · intro kind
      show (_ && kind (FleetRun.withLive _ _).live.status) = _
      rw [FleetRun.withLive, hstatus]
    · intro _
      show Watcher.hasRecorded (FleetRun.withLive _ _).live.watcher = true
      rw [FleetRun.withLive, hend]
      rfl
  | @others e he =>
    refine h.aside rfl ?_ rfl h.condemned
    intro j
    rw [told_append (s := s) e j rfl, if_neg]
    rw [he]
    exact (Option.some_ne_none j).symm
  | @condemn i r t cutoff hrow hover =>
    refine h.aside rfl (fun _ => rfl) rfl ?_
    intro j hj
    obtain ⟨hi, -⟩ := row_eq_some.mp hrow
    obtain rfl | hj := List.mem_cons.mp hj
    · refine ⟨r, hi, ?_⟩
      by_contra hnot
      rw [Bool.not_eq_true] at hnot
      rw [((h.runs j r hi).early hnot).1] at hover
      cases hover
    · exact h.condemned j hj
  | @evict i r hc hi =>
    obtain ⟨u, hu, hover⟩ := h.condemned i hc
    rw [hi, Option.some.injEq] at hu
    refine h.update hi rfl ((h.runs i r hi).evict (hu ▸ hover)) ?_ ?_ (fun _ => List.mem_of_mem_erase) id
    · intro j
      split_ifs with hj
      · rw [hj]
        rfl
      · rfl
    · exact h.totals.trans (expected_same { r with listed := false } hi rfl fun _ => rfl).symm

theorem reaches_sound (h : Reaches (FleetStep format) Boot s) : s.Sound format := by
  refine Reaches.invariant ?_ (fun _ _ _ _ hi hs => hi.step hs) h
  rintro s ⟨now, rfl⟩
  refine ⟨?_, fun _ _ => rfl, rfl, ?_⟩
  · intro i r hi
    cases hi
  · intro j hj
    cases hj

theorem length_split {runs : List FleetRun} (h : ∀ r ∈ runs, ∃ i told, r.Sound format i told) :
    runs.length = runs.countP (fun r => r.listed && r.live.status.isRunning) +
      runs.countP (fun r => r.live.status.isTerminal && !r.counted) +
      runs.countP (fun r => r.counted && r.live.status.isCompleted) +
      runs.countP (fun r => r.counted && r.live.status.isFailed) +
      runs.countP fun r => r.counted && r.live.status.isCancelled := by
  induction runs with
  | nil => rfl
  | cons r runs ih =>
    obtain ⟨i, told, hr⟩ := h r List.mem_cons_self
    have hone := hr.one_kind
    have hrest := ih fun u hu => h u (List.mem_cons_of_mem _ hu)
    simp only [List.countP_cons, List.length_cons]
    omega

end Fleet

/-- In every reachable state: the counters are the numbers of runs that were counted with a status of
their kind, modulo the word; a run that was started is active, counted, or between its status and its
counter; the bus has heard of a run its start, and of its end once and as the status has it. -/
theorem outcomes_counted (format : ℤ → String) {s : Fleet}
    (h : Reaches (FleetStep format) Fleet.Boot s) :
    s.totals = s.expected ∧
    s.runs.length = s.activeCount + s.runs.countP (fun r => r.live.status.isTerminal && !r.counted) +
      s.countedAs RunStatus.isCompleted + s.countedAs RunStatus.isFailed +
      s.countedAs RunStatus.isCancelled ∧
    ∀ i r, s.runs[i]? = some r → Reported format i r (s.told i) := by
  have hs := Fleet.reaches_sound h
  have hrows : ∀ r ∈ s.runs, ∃ i told, r.Sound format i told := by
    intro r hr
    obtain ⟨i, hi⟩ := List.mem_iff_getElem?.mp hr
    exact ⟨i, _, hs.runs i r hi⟩
  exact ⟨hs.totals, Fleet.length_split hrows, fun i r hi => (hs.runs i r hi).reported⟩

/-! ## Evaluation -/

namespace Fleet

/-- The fleet after a move, when the move is possible. -/
def apply (format : ℤ → String) (s : Fleet) : FleetMove → Option Fleet
  | .tick t => if s.now ≤ t then some { s with now := t } else none
  | .start l => some (s.started format l)
  | .run l =>
    if l.streaming = false then
      some { s.started format l with waiters := s.waiters ++ [⟨s.runs.length, true, s.now, none⟩] }
    else none
  | .life i m => (s.runs[i]?).bind fun r =>
    if m.isInner = true then (r.live.apply r.launch m).map fun live => s.setRun i (r.withLive live)
    else none
  | .stamp i => (s.runs[i]?).bind fun r =>
    if r.live.watcher.isReady = true ∧ r.stamp.isNone = true then some (s.setRun i (r.stamped s.now))
    else none
  | .record i => (s.runs[i]?).bind fun r => r.stamp.bind fun c =>
    (r.live.apply r.launch .record).map fun live => s.setRun i (r.recorded live c.at_)
  | .count i => (s.runs[i]?).bind fun r => r.live.watcher.outcome.bind fun o =>
    if r.counted = false then
      some { s.setRun i { r with counted := true } with totals := s.totals.add o }
    else none
  | .announce i => (s.runs[i]?).bind fun r => r.live.watcher.outcome.bind fun o => r.stamp.bind fun c =>
    if r.counted = true ∧ r.announced = false then some
      { s.setRun i { r with announced := true } with events := s.events ++ [o.event i c.durationMs] }
    else none
  | .append i => (s.runs[i]?).bind fun r =>
    if r.announced = true then
      (r.live.apply r.launch .append).map fun live => s.setRun i (r.withLive live)
    else none
  | .others e => if lifecycleOf e = none then some { s with events := s.events ++ [e] } else none
  | .condemn i cutoff => (s.row i).bind fun r => r.completedAt.bind fun t =>
    if r.live.status.isTerminal = true ∧ t < cutoff ∧ cutoff ≤ s.now then
      some { s with condemned := i :: s.condemned }
    else none
  | .evict i => (s.runs[i]?).bind fun r =>
    if i ∈ s.condemned then
      some { s.setRun i { r with listed := false } with condemned := s.condemned.erase i }
    else none
  | .wait i =>
    if i < s.runs.length then some { s with waiters := s.waiters ++ [⟨i, false, s.now, none⟩] }
    else none
  | .poll k => (s.waiters[k]?).bind fun w =>
    if w.answer.isNone = true then some (s.setWaiter k (s.polled w)) else none

theorem apply_sound {format : ℤ → String} {s s' : Fleet} {m : FleetMove}
    (h : s.apply format m = some s') : FleetStep format s m s' := by
  cases m with
  | tick t =>
    obtain ⟨ht, h⟩ := Option.ite_none_right_eq_some.mp h
    cases h
    exact .tick ht
  | start l =>
    cases h
    exact .start l
  | run l =>
    obtain ⟨hplain, h⟩ := Option.ite_none_right_eq_some.mp h
    cases h
    exact .run hplain
  | life i m =>
    obtain ⟨r, hi, h⟩ := Option.bind_eq_some_iff.mp h
    obtain ⟨hm, h⟩ := Option.ite_none_right_eq_some.mp h
    obtain ⟨live, hlive, rfl⟩ := Option.map_eq_some_iff.mp h
    exact .life hi hm (LiveRun.apply_sound hlive)
  | stamp i =>
    obtain ⟨r, hi, h⟩ := Option.bind_eq_some_iff.mp h
    obtain ⟨⟨hready, hnew⟩, h⟩ := Option.ite_none_right_eq_some.mp h
    cases h
    exact .stamp hi hready (Option.isNone_iff_eq_none.mp hnew)
  | record i =>
    obtain ⟨r, hi, h⟩ := Option.bind_eq_some_iff.mp h
    obtain ⟨c, hstamp, h⟩ := Option.bind_eq_some_iff.mp h
    obtain ⟨live, hlive, rfl⟩ := Option.map_eq_some_iff.mp h
    exact .record hi hstamp (LiveRun.apply_sound hlive)
  | count i =>
    obtain ⟨r, hi, h⟩ := Option.bind_eq_some_iff.mp h
    obtain ⟨o, ho, h⟩ := Option.bind_eq_some_iff.mp h
    obtain ⟨hnew, h⟩ := Option.ite_none_right_eq_some.mp h
    cases h
    exact .count hi ho hnew
  | announce i =>
    obtain ⟨r, hi, h⟩ := Option.bind_eq_some_iff.mp h
    obtain ⟨o, ho, h⟩ := Option.bind_eq_some_iff.mp h
    obtain ⟨c, hstamp, h⟩ := Option.bind_eq_some_iff.mp h
    obtain ⟨⟨hcounted, hnew⟩, h⟩ := Option.ite_none_right_eq_some.mp h
    cases h
    exact .announce hi ho hstamp hcounted hnew
  | append i =>
    obtain ⟨r, hi, h⟩ := Option.bind_eq_some_iff.mp h
    obtain ⟨htold, h⟩ := Option.ite_none_right_eq_some.mp h
    obtain ⟨live, hlive, rfl⟩ := Option.map_eq_some_iff.mp h
    exact .append hi htold (LiveRun.apply_sound hlive)
  | others e =>
    obtain ⟨he, h⟩ := Option.ite_none_right_eq_some.mp h
    cases h
    exact .others he
  | condemn i cutoff =>
    obtain ⟨r, hrow, h⟩ := Option.bind_eq_some_iff.mp h
    obtain ⟨t, ht, h⟩ := Option.bind_eq_some_iff.mp h
    obtain ⟨⟨hover, hold, hcutoff⟩, h⟩ := Option.ite_none_right_eq_some.mp h
    cases h
    exact .condemn hrow hover ht hold hcutoff
  | evict i =>
    obtain ⟨r, hi, h⟩ := Option.bind_eq_some_iff.mp h
    obtain ⟨hc, h⟩ := Option.ite_none_right_eq_some.mp h
    cases h
    exact .evict hc hi
  | wait i =>
    obtain ⟨hi, h⟩ := Option.ite_none_right_eq_some.mp h
    cases h
    exact .wait hi
  | poll k =>
    obtain ⟨w, hk, h⟩ := Option.bind_eq_some_iff.mp h
    obtain ⟨hopen, h⟩ := Option.ite_none_right_eq_some.mp h
    cases h
    exact .poll hk (Option.isNone_iff_eq_none.mp hopen)

end Fleet

/-- What the watcher does once the run's own moves are over. -/
def closingMoves (i : ℕ) : List FleetMove := [.stamp i, .record i, .count i, .announce i, .append i]

/-- Two runs side by side, one completing and one timing out, with the first removed from the table. -/
def pairFleetMoves : List FleetMove :=
  [.run pairLaunch, .start pairLaunch] ++
    (pairScript .null ++ ([.recv, .drained ""] : List LifeMove)).map (FleetMove.life 0) ++
    [.life 1 .timeout, .tick 7000000] ++ closingMoves 1 ++ closingMoves 0 ++
    [.poll 0, .tick 9000000, .condemn 0 8000000, .evict 0, .wait 0, .poll 1]

def pairFleet : Option Fleet := exec (Fleet.apply fun _ => "") (.boot 0) pairFleetMoves

theorem outcomes_counted_pair : ∃ s, pairFleet = some s ∧ s.totals = ⟨1, 1, 0⟩ ∧
    s.runs.map FleetRun.listed = [false, true] ∧ s.totals = s.expected ∧
    ∀ i r, s.runs[i]? = some r → Reported (fun _ => "") i r (s.told i) := by
  have hends : pairFleet.isSome = true := by decide +kernel
  obtain ⟨s, hs⟩ := Option.isSome_iff_exists.mp hends
  have hfacts : ∀ s ∈ pairFleet, s.totals = ⟨1, 1, 0⟩ ∧ s.runs.map FleetRun.listed = [false, true] := by
    decide +kernel
  obtain ⟨htotals, hlisted⟩ := hfacts s hs
  have hsound : ∀ s m s', Fleet.apply (fun _ => "") s m = some s' → FleetStep (fun _ => "") s m s' := by
    intro s m s' h
    exact Fleet.apply_sound h
  have hreach : Reaches (FleetStep fun _ => "") Fleet.Boot s := exec_reaches hsound (.start ⟨0, rfl⟩) hs
  obtain ⟨hexpected, -, htold⟩ := outcomes_counted (fun _ => "") hreach
  exact ⟨s, hs, htotals, hlisted, hexpected, htold⟩

end Konf.Runtime
