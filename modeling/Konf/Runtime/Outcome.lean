import Konf.Runtime.Terminal

/-! # Outcomes of a run

How a run is recorded when its watcher has ended: the status in the process table, the outcome in the
journal, and the two compared between `start` and `start_streaming`. The completion task derives both
from the result of `Engine::run`. The forwarding task derives both from the first terminal event it
sees, writes a status even if it saw none, and then appends nothing to the journal. -/

namespace Konf.Runtime
open Konf.Substrate Konf.Executor Konf.Text Konf.Transition
set_option autoImplicit false

/-! ## What the parties have said -/

/-- Everything sent on the event stream, oldest first. -/
def LiveRun.stream (r : LiveRun) : List StreamEvent := r.early ++ r.said.toList ++ r.late

def outcomeTypes : List String := ["workflow_completed", "workflow_failed", "workflow_cancelled"]

def LiveRun.outcomes (r : LiveRun) : List String :=
  (r.journal.map JournalRow.eventType).filter (· ∈ outcomeTypes)

/-- The journal entry that corresponds to a status. -/
def RunStatus.eventType : RunStatus → Option String
  | .completed _ => some "workflow_completed"
  | .failed _ => some "workflow_failed"
  | .cancelled _ => some "workflow_cancelled"
  | .pending | .running => none

/-- The worker hangs up after its farewell. -/
structure LiveRun.Closing (l : Launch) (r : LiveRun) : Prop where
  sound : r.worker.Sound l
  settled : r.sendersGone = true → r.worker.settled = true
  closed : r.sendersGone = true → (r.worker.result.bind l.farewell).isSome = true →
    r.said.isSome = true
  said : ∀ e, r.said = some e → r.worker.result.bind l.farewell = some e
  late : r.said = none → r.late = []

section Closing
variable {l : Launch} {r r' : LiveRun} {m : LifeMove}

theorem LifeStep.result_eq (h : LifeStep l r m r') (hs : r.worker.Sound l)
    (hset : r.worker.settled = true) : r'.worker.result = r.worker.result := by
  obtain hw | hw := h.settled_worker hs hset
  · rw [hw]
  · rw [hw, Worker.cancel_result]

/-- What has been said was said after `execute` had returned. -/
theorem LiveRun.Closing.settled_of_said (hc : r.Closing l) {e : StreamEvent}
    (he : r.said = some e) : r.worker.settled = true := by
  obtain ⟨x, hx, -⟩ := Option.bind_eq_some_iff.mp (hc.said e he)
  exact Worker.settled_of_result hx

theorem LiveRun.Closing.said_none (hc : r.Closing l) {x : Except KonfluxError Json}
    {e : StreamEvent} (hx : r.worker.result = some x) (hlast : l.farewell x = some e)
    (hnew : r.said = none) : r.sendersGone = false := by
  by_contra hgone
  have hsome : (r.worker.result.bind l.farewell).isSome = true := by
    simp only [hx, Option.bind_some, hlast, Option.isSome_some]
  have hsaid := hc.closed (Bool.not_eq_false _ ▸ hgone) hsome
  rw [hnew] at hsaid
  cases hsaid

theorem LiveRun.Closing.stream_send (hc : r.Closing l) (e : StreamEvent) :
    (r.send e).stream = r.stream ++ [e] := by
  cases hsaid : r.said with
  | none => simp [LiveRun.stream, LiveRun.send, hsaid, hc.late hsaid]
  | some e' => simp [LiveRun.stream, LiveRun.send, hsaid]

theorem LiveRun.Closing.stream_announce (hc : r.Closing l) (hnew : r.said = none)
    (e : StreamEvent) : (r.announce e).stream = r.stream ++ [e] := by
  simp [LiveRun.stream, LiveRun.announce, hnew, hc.late hnew]

theorem LiveRun.Closing.step (hc : r.Closing l) (h : LifeStep l r m r') : r'.Closing l := by
  have hsound := h.sound hc.sound
  cases h with
  | @work c s s' hw h =>
    have hstep : LifeStep l r (.work c) { r with worker := .running s' } := .work hw h
    refine ⟨hsound, ?_, ?_, ?_, hc.late⟩
    · intro hgone
      exact hstep.settled hc.sound (hc.settled hgone)
    · intro hgone hsome
      rw [hstep.result_eq hc.sound (hc.settled hgone)] at hsome
      exact hc.closed hgone hsome
    · intro e he
      rw [hstep.result_eq hc.sound (hc.settled_of_said he)]
      exact hc.said e he
  | @emit e hopen _ _ =>
    refine ⟨hsound, hc.settled, hc.closed, hc.said, ?_⟩
    intro hnone
    have hsaid : r.said = none := hnone
    simp [LiveRun.send, hsaid, hc.late hsaid]
  | @announce x e hx hnew hlast _ =>
    refine ⟨hsound, hc.settled, fun _ _ => rfl, ?_, ?_⟩
    · intro e' he
      cases he
      exact Option.bind_eq_some_iff.mpr ⟨x, hx, hlast⟩
    · intro hnone
      cases hnone
  | hangUp hset hsaid => exact ⟨hsound, fun _ => hset, fun _ => hsaid, hc.said, hc.late⟩
  | _ => exact ⟨hsound, hc.settled, hc.closed, hc.said, hc.late⟩

theorem Launch.start_closing (l : Launch) : l.start.Closing l := by
  have hsound := l.start_sound
  obtain hs | ⟨e, -, hs⟩ | ⟨-, hs⟩ | ⟨-, hs⟩ := l.start_cases
  all_goals
    rw [hs] at hsound ⊢
    exact ⟨hsound, nofun, nofun, nofun, fun _ => rfl⟩

theorem reaches_closing (h : Reaches (LifeStep l) l.Started r) : r.Closing l := by
  induction h with
  | start h =>
    cases h
    exact l.start_closing
  | tail _ _ hstep hc => exact hc.step hstep

theorem LiveRun.Closing.stream_frozen (hc : r.Closing l) (hgone : r.sendersGone = true)
    (h : LifeStep l r m r') : r'.stream = r.stream := by
  cases h with
  | emit hopen => cases hgone.symm.trans hopen
  | announce hx hnew hlast => cases hgone.symm.trans (hc.said_none hx hlast hnew)
  | _ => rfl

theorem LifeStep.gone (h : LifeStep l r m r') (hgone : r.sendersGone = true) :
    r'.sendersGone = true := by
  cases h with
  | hangUp => rfl
  | _ => exact hgone

/-- In a forwarded run with a worker the farewell is a terminal event. -/
theorem LiveRun.Closing.last_sent (hc : r.Closing l) (hstream : l.streaming = true)
    (hrun : r.worker.isRunning = true) (hgone : r.sendersGone = true) :
    ∃ e ∈ r.stream, e.isTerminal = true := by
  have hset := hc.settled hgone
  simp only [Worker.settled, hrun, Bool.not_true, Bool.false_or] at hset
  obtain ⟨x, hx⟩ := Option.isSome_iff_exists.mp hset
  have hlast : ∃ e, l.farewell x = some e ∧ e.isTerminal = true := by
    cases x with
    | ok output => exact ⟨_, rfl, rfl⟩
    | error err => exact ⟨errorEvent err, if_pos hstream, rfl⟩
  obtain ⟨e, he, hterm⟩ := hlast
  have hsome := hc.closed hgone (by rw [hx, Option.bind_some, he]; rfl)
  obtain ⟨e', he'⟩ := Option.isSome_iff_exists.mp hsome
  have hsame := hc.said e' he'
  rw [hx, Option.bind_some, he, Option.some.injEq] at hsame
  subst hsame
  refine ⟨e, ?_, hterm⟩
  simp [LiveRun.stream, he']

end Closing

/-! ## Non-streaming runs -/

/-- What the completion task has made of a run: the timeout fired, there was no worker to ask, or the
result is that of `execute` with what was sent on the stream. -/
inductive Concluded (l : Launch) (r : LiveRun) : Except KonfluxError Json → Prop
  | timedOut (h : r.timedOut = true) : Concluded l r (.error l.timeoutError)
  | noWorker (e : KonfluxError) (hrun : r.worker.isRunning = false) : Concluded l r (.error e)
  | returned {x : Except KonfluxError Json} (htime : r.timedOut = false)
      (hgone : r.sendersGone = true) (hx : r.worker.result = some x) :
      Concluded l r ((collect r.stream).result l.workflow.id x)

/-- The completion task and its records. -/
def PlainInv (l : Launch) (r : LiveRun) : Prop :=
  match r.watcher with
  | .absent => r.outcomes = []
  | .collecting c =>
    r.queue.foldl Collected.absorb c = collect r.stream ∧ r.timedOut = false ∧ r.outcomes = []
  | .finished result => Concluded l r result ∧ r.outcomes = []
  | .recorded result =>
    Concluded l r result ∧ r.status = startStatus result ∧ r.outcomes = []
  | .ended => ∃ result, Concluded l r result ∧ r.status = startStatus result ∧
      r.outcomes = [(startEntry result).eventType]
  | .forwarding _ | .over _ | .overRecorded _ => False

def LifeMove.byWatcher : LifeMove → Bool
  | .recv | .pass | .drained _ | .timeout | .record | .append => true
  | _ => false

/-- A move that is not the watcher's, as the watcher sees it. -/
structure Aside (r r' : LiveRun) : Prop where
  watcher : r'.watcher = r.watcher
  status : r'.status = r.status
  outcomes : r'.outcomes = r.outcomes
  timedOut : r'.timedOut = r.timedOut
  stream : r'.stream = r.stream ∧ r'.queue = r.queue ∨
    ∃ e, r'.stream = r.stream ++ [e] ∧ r'.queue = r.queued e

section Plain
variable {l : Launch} {r r' : LiveRun} {m : LifeMove}

theorem Launch.inserted_outcomes (l : Launch) : l.inserted.outcomes = [] := rfl

theorem LiveRun.outcomes_append {rows : List JournalRow} (h : r'.journal = r.journal ++ rows) :
    r'.outcomes = r.outcomes ++ (rows.map JournalRow.eventType).filter (· ∈ outcomeTypes) := by
  simp only [LiveRun.outcomes, h, List.map_append, List.filter_append]

theorem LifeStep.aside (h : LifeStep l r m r') (hc : r.Closing l) (hm : m.byWatcher = false) :
    Aside r r' := by
  cases h with
  | emit => exact ⟨rfl, rfl, rfl, rfl, .inr ⟨_, hc.stream_send _, rfl⟩⟩
  | announce _ hnew _ _ => exact ⟨rfl, rfl, rfl, rfl, .inr ⟨_, hc.stream_announce hnew _, rfl⟩⟩
  | interaction payload =>
    refine ⟨rfl, rfl, ?_, rfl, .inl ⟨rfl, rfl⟩⟩
    rw [LiveRun.outcomes_append (r := r) rfl]
    exact List.append_nil _
  | work | hangUp | leave => exact ⟨rfl, rfl, rfl, rfl, .inl ⟨rfl, rfl⟩⟩
  | _ => cases hm

theorem Concluded.step {result : Except KonfluxError Json} (hi : Concluded l r result)
    (hc : r.Closing l) (h : LifeStep l r m r') (htime : r'.timedOut = r.timedOut) :
    Concluded l r' result := by
  cases hi with
  | timedOut ht => exact .timedOut (htime.trans ht)
  | noWorker e hrun => exact .noWorker e (h.isRunning.trans hrun)
  | @returned x ht hgone hx =>
    rw [← hc.stream_frozen hgone h]
    exact .returned (htime.trans ht) (h.gone hgone) (h.result hc.sound hx)

theorem PlainInv.aside (hi : PlainInv l r) (hc : r.Closing l) (h : LifeStep l r m r')
    (ha : Aside r r') : PlainInv l r' := by
  have hconc : ∀ {result}, Concluded l r result → Concluded l r' result :=
    fun hconc => hconc.step hc h ha.timedOut
  unfold PlainInv at hi ⊢
  rw [ha.watcher, ha.outcomes, ha.status]
  split at hi
  · exact hi
  · rename_i c hw
    obtain ⟨hcollect, htime, hnone⟩ := hi
    refine ⟨?_, ha.timedOut.trans htime, hnone⟩
    obtain ⟨hstream, hqueue⟩ | ⟨e, hstream, hqueue⟩ := ha.stream
    · rw [hstream, hqueue]
      exact hcollect
    · rw [hstream, hqueue, LiveRun.queued, if_pos (by rw [hw]; rfl), collect, List.foldl_append,
        List.foldl_append, hcollect]
      rfl
  · exact ⟨hconc hi.1, hi.2⟩
  · exact ⟨hconc hi.1, hi.2⟩
  · obtain ⟨result, hresult, hrest⟩ := hi
    exact ⟨result, hconc hresult, hrest⟩
  all_goals exact hi

theorem startEntry_outcome (result : Except KonfluxError Json) :
    (startEntry result).eventType ∈ outcomeTypes ∧
      (startStatus result).eventType = some (startEntry result).eventType := by
  cases result with
  | ok output => exact ⟨List.mem_cons_self .., rfl⟩
  | error e =>
    cases hcancel : e.isCancelled with
    | true => simp [startEntry, startStatus, hcancel, outcomeTypes, RunStatus.eventType]
    | false => simp [startEntry, startStatus, hcancel, outcomeTypes, RunStatus.eventType]

theorem PlainInv.step (hi : PlainInv l r) (hc : r.Closing l) (h : LifeStep l r m r') :
    PlainInv l r' := by
  cases hm : m.byWatcher with
  | false => exact hi.aside hc h (h.aside hc hm)
  | true =>
    unfold PlainInv at hi
    cases h with
    | collect hw hq =>
      rw [hw, hq] at hi
      exact hi
    | @drained c x text hw hq hgone hx =>
      rw [hw, hq] at hi
      obtain ⟨rfl, htime, hnone⟩ := hi
      exact ⟨.returned htime hgone hx, hnone⟩
    | joinFailed hw _ _ hpanic =>
      rw [hw] at hi
      exact ⟨.noWorker _ (by rw [hpanic]; rfl), hi.2.2⟩
    | timeout hw _ =>
      rw [hw] at hi
      exact ⟨.timedOut rfl, hi.2.2⟩
    | record hw =>
      rw [hw] at hi
      exact ⟨hi.1.step hc (.record hw) rfl, rfl, hi.2⟩
    | @append result hw =>
      rw [hw] at hi
      obtain ⟨hconc, hstatus, hnone⟩ := hi
      refine ⟨result, hconc.step hc (.append hw) rfl, hstatus, ?_⟩
      rw [LiveRun.outcomes_append (r := r) rfl, hnone]
      simp [(startEntry_outcome result).1]
    | take hw | pass hw | passLast hw | closed hw | streamRecord hw | streamAppend hw =>
      rw [hw] at hi
      exact hi.elim
    | _ => cases hm

theorem plainInv_of_reaches (hplain : l.streaming = false) (h : Reaches (LifeStep l) l.Started r) :
    PlainInv l r := by
  induction h with
  | start h =>
    cases h
    obtain hs | ⟨e, -, hs⟩ | ⟨-, hs⟩ | ⟨-, hs⟩ := l.start_cases
    · rw [hs]
      exact l.inserted_outcomes
    · rw [hs]
      exact ⟨.noWorker _ rfl, l.inserted_outcomes⟩
    · rw [hs, PlainInv, Launch.watcher, hplain]
      exact ⟨rfl, rfl, l.inserted_outcomes⟩
    · rw [hs, PlainInv, Launch.watcher, hplain]
      exact ⟨rfl, rfl, l.inserted_outcomes⟩
  | tail hr _ hstep ih => exact ih.step (reaches_closing hr) hstep

end Plain

/-! ## Streaming runs -/

/-- The caller is there for every event before the last. -/
def Attended (r : LiveRun) : LifeMove → Prop
  | .pass => r.callerGone = true → r.watcher.holdsLast = true
  | _ => True

instance (r : LiveRun) : (m : LifeMove) → Decidable (Attended r m)
  | .pass => inferInstanceAs (Decidable (r.callerGone = true → r.watcher.holdsLast = true))
  | .work _ | .emit _ | .announce | .hangUp | .interaction _ | .leave | .recv | .drained _ | .timeout
  | .record | .append => inferInstanceAs (Decidable True)

/-- The first terminal event on the stream. -/
def LiveRun.verdict (r : LiveRun) : Option StreamEvent := r.stream.find? StreamEvent.isTerminal

/-- The forwarding task and its records, for a run with a worker. -/
def StreamInv (r : LiveRun) : Prop :=
  match r.watcher with
  | .absent => r.outcomes = []
  | .forwarding held =>
    (held.toList ++ r.queue).find? StreamEvent.isTerminal = r.verdict ∧ r.outcomes = []
  | .over final => ∃ e, r.verdict = some e ∧ final = streamFinal e ∧ r.outcomes = []
  | .overRecorded final => ∃ e, r.verdict = some e ∧ final = streamFinal e ∧
      r.status = streamStatus final ∧ r.outcomes = []
  | .ended => ∃ e, r.verdict = some e ∧ r.status = streamStatus (streamFinal e) ∧
      r.outcomes = ((streamFinal e).map FinalStatus.eventType).toList
  | .collecting _ | .finished _ | .recorded _ => False

section Streaming
variable {l : Launch} {r r' : LiveRun} {m : LifeMove}

theorem Aside.verdict (ha : Aside r r') {e : StreamEvent} (h : r.verdict = some e) :
    r'.verdict = some e := by
  unfold LiveRun.verdict at h ⊢
  obtain ⟨hstream, -⟩ | ⟨e', hstream, -⟩ := ha.stream
  · rw [hstream, h]
  · rw [hstream, List.find?_append, h, Option.some_or]

theorem StreamInv.aside (hi : StreamInv r) (ha : Aside r r') : StreamInv r' := by
  unfold StreamInv at hi ⊢
  rw [ha.watcher, ha.outcomes, ha.status]
  split at hi
  · exact hi
  · rename_i held hw
    refine ⟨?_, hi.2⟩
    have hseen := hi.1
    unfold LiveRun.verdict at hseen ⊢
    obtain ⟨hstream, hqueue⟩ | ⟨e, hstream, hqueue⟩ := ha.stream
    · rw [hstream, hqueue]
      exact hseen
    · rw [hstream, hqueue, LiveRun.queued, if_pos (by rw [hw]; rfl), ← List.append_assoc,
        List.find?_append, hseen, ← List.find?_append]
  · obtain ⟨e, he, hrest⟩ := hi
    exact ⟨e, ha.verdict he, hrest⟩
  · obtain ⟨e, he, hrest⟩ := hi
    exact ⟨e, ha.verdict he, hrest⟩
  · obtain ⟨e, he, hrest⟩ := hi
    exact ⟨e, ha.verdict he, hrest⟩
  all_goals exact hi

/-- A terminal event gives the forwarding task an outcome, and the status that corresponds to it. -/
theorem streamFinal_outcome {e : StreamEvent} (h : e.isTerminal = true) :
    ∃ t ∈ outcomeTypes, (streamFinal e).map FinalStatus.eventType = some t ∧
      (streamStatus (streamFinal e)).eventType = some t := by
  cases e with
  | start | progress => cases h
  | done output => exact ⟨_, List.mem_cons_self .., rfl, rfl⟩
  | error code message retryable =>
    cases hcancel : readsCancelled code message with
    | true =>
      refine ⟨"workflow_cancelled", by decide, ?_⟩
      simp [streamFinal, hcancel, streamStatus, RunStatus.eventType]
    | false =>
      refine ⟨"workflow_failed", by decide, ?_⟩
      simp [streamFinal, hcancel, streamStatus, RunStatus.eventType]

theorem LiveRun.verdict_terminal {e : StreamEvent} (h : r.verdict = some e) :
    e.isTerminal = true := List.find?_some h

theorem StreamInv.step (hi : StreamInv r) (hc : r.Closing l) (hstream : l.streaming = true)
    (hrun : r.worker.isRunning = true) (hok : Attended r m) (h : LifeStep l r m r') :
    StreamInv r' := by
  cases hm : m.byWatcher with
  | false => exact hi.aside (h.aside hc hm)
  | true =>
    unfold StreamInv at hi
    cases h with
    | take hw hq =>
      rw [hw, hq] at hi
      exact hi
    | @pass e hw _ hmore =>
      rw [hw] at hi
      refine ⟨?_, hi.2⟩
      have hseen : (e :: r.queue).find? StreamEvent.isTerminal = r.verdict := hi.1
      rw [List.find?_cons_of_neg (by simp [hmore])] at hseen
      exact hseen
    | @passLast e hw hlast =>
      rw [hw] at hi
      have hterm : e.isTerminal = true := by
        obtain hgone | hterm := hlast
        · have hheld := hok hgone
          rw [hw] at hheld
          exact hheld
        · exact hterm
      have hseen : (e :: r.queue).find? StreamEvent.isTerminal = r.verdict := hi.1
      rw [List.find?_cons_of_pos hterm] at hseen
      exact ⟨e, hseen.symm, rfl, hi.2⟩
    | closed hw hq hgone =>
      rw [hw, hq] at hi
      -- the stream does not close before the farewell
      obtain ⟨e, he, hterm⟩ := hc.last_sent hstream hrun hgone
      have hnone := List.find?_eq_none.mp (show r.stream.find? _ = none from hi.1.symm) e he
      exact absurd hterm hnone
    | streamRecord hw =>
      rw [hw] at hi
      obtain ⟨e, he, hfinal, hnone⟩ := hi
      exact ⟨e, he, hfinal, rfl, hnone⟩
    | @streamAppend final hw =>
      rw [hw] at hi
      obtain ⟨e, he, rfl, hstatus, hnone⟩ := hi
      refine ⟨e, he, hstatus, ?_⟩
      obtain ⟨t, ht, htype, -⟩ := streamFinal_outcome (LiveRun.verdict_terminal he)
      obtain ⟨f, hf, rfl⟩ := Option.map_eq_some_iff.mp htype
      rw [LiveRun.outcomes_append (r := r) rfl, hnone, hf]
      simp [FinalStatus.entry, ht]
    | collect hw | drained hw | joinFailed hw | timeout hw | record hw | append hw =>
      rw [hw] at hi
      exact hi.elim
    | _ => cases hm

theorem streamInv_of_reaches (hstream : l.streaming = true)
    (h : ReachesBy (LifeStep l) Attended l.Started r) (hrun : r.worker.isRunning = true) :
    StreamInv r := by
  induction h with
  | start h =>
    cases h
    obtain hs | ⟨e, hplain, -⟩ | ⟨-, hs⟩ | ⟨-, hs⟩ := l.start_cases
    · rw [hs]
      exact l.inserted_outcomes
    · cases hstream.symm.trans hplain
    · rw [hs] at hrun
      cases hrun
    · rw [hs, StreamInv, Launch.watcher, hstream]
      exact ⟨rfl, l.inserted_outcomes⟩
  | tail hr hok hstep ih =>
    rw [hstep.isRunning] at hrun
    exact (ih hrun).step (reaches_closing hr.reaches) hstream hrun hok hstep

end Streaming

/-! ## Journal and process table -/

theorem LifeStep.absent {l : Launch} {r r' : LiveRun} {m : LifeMove} (h : LifeStep l r m r')
    (habsent : r.watcher = .absent) : r'.watcher = .absent := by
  cases h with
  | work | emit | announce | hangUp | interaction | leave => exact habsent
  | collect hw | take hw | pass hw | passLast hw | drained hw | joinFailed hw | closed hw
  | timeout hw | record hw | streamRecord hw | append hw | streamAppend hw =>
    cases hw.symm.trans habsent

theorem running_or_absent {l : Launch} {r : LiveRun} (hstream : l.streaming = true)
    (hsize : 0 < l.env.config.finishedChannelSize) (h : Reaches (LifeStep l) l.Started r) :
    r.worker.isRunning = true ∨ r.watcher = .absent := by
  induction h with
  | start h =>
    cases h
    obtain hs | ⟨e, hplain, -⟩ | ⟨hzero, -⟩ | ⟨-, hs⟩ := l.start_cases
    · rw [hs]
      exact .inr rfl
    · cases hstream.symm.trans hplain
    · omega
    · rw [hs]
      exact .inl rfl
  | tail _ _ hstep ih =>
    obtain hrun | habsent := ih
    · exact .inl (hstep.isRunning.trans hrun)
    · exact .inr (hstep.absent habsent)

/-- When the watcher of a run has ended, the journal holds exactly one outcome of the run, the one
that corresponds to its status; for a streaming run if the executor does not panic and the caller was
there for every event before the last. -/
theorem journal_tells_status (l : Launch) (r : LiveRun)
    (hsize : l.streaming = true → 0 < l.env.config.finishedChannelSize)
    (h : ReachesBy (LifeStep l) Attended l.Started r) (hend : r.watcher = .ended) :
    ∃ t, r.status.eventType = some t ∧ r.outcomes = [t] := by
  cases hstream : l.streaming with
  | false =>
    have hi := plainInv_of_reaches hstream h.reaches
    rw [PlainInv, hend] at hi
    obtain ⟨result, -, hstatus, hout⟩ := hi
    refine ⟨_, ?_, hout⟩
    rw [hstatus]
    exact (startEntry_outcome result).2
  | true =>
    have hrun : r.worker.isRunning = true := by
      refine (running_or_absent hstream (hsize hstream) h.reaches).resolve_right ?_
      rw [hend]
      exact nofun
    have hi := streamInv_of_reaches hstream h hrun
    rw [StreamInv, hend] at hi
    obtain ⟨e, he, hstatus, hout⟩ := hi
    obtain ⟨t, -, htype, hsame⟩ := streamFinal_outcome (LiveRun.verdict_terminal he)
    rw [htype] at hout
    exact ⟨t, hstatus ▸ hsame, hout⟩

/-! ## A caller who stays, and one who leaves -/

def Watcher.hasEnded : Watcher → Bool
  | .ended => true
  | _ => false

theorem Watcher.ended_of {w : Watcher} (h : w.hasEnded = true) : w = .ended := by
  cases w with
  | ended => rfl
  | _ => cases h

def pairStreaming : Launch := { pairLaunch with streaming := true }

/-- A streaming run that is read to its end is journaled as it is recorded. -/
theorem read_run_journaled : ∃ r, ReachesBy (LifeStep pairStreaming) Attended pairStreaming.Started r ∧
    r.watcher = .ended ∧ ∃ t, r.status.eventType = some t ∧ r.outcomes = [t] := by
  have hrun : (pairStreaming.life Attended (pairScript .null ++ [.recv, .pass, .record, .append])).any
      (fun r => r.watcher.hasEnded) = true := by
    decide +kernel
  obtain ⟨r, hlife, hr⟩ := (Option.any_eq_true ..).mp hrun
  have hreach := Launch.life_reaches hlife
  have hend := Watcher.ended_of hr
  have hsize : pairStreaming.streaming = true → 0 < pairStreaming.env.config.finishedChannelSize := by
    decide
  exact ⟨r, hreach, hend, journal_tells_status pairStreaming r hsize hreach hend⟩

/-- The caller leaves before the first event is passed on: the run is recorded as failed, and the
journal has no outcome of it. -/
theorem left_run_not_journaled : ∃ l r, Reaches (LifeStep l) l.Started r ∧ r.watcher = .ended ∧
    r.status.eventType = some "workflow_failed" ∧ r.outcomes = [] := by
  have hrun : (pairStreaming.life (fun _ _ => True)
      [.emit (.start "pair"), .leave, .recv, .pass, .record, .append]).any (fun r =>
        r.watcher.hasEnded && decide (r.status.eventType = some "workflow_failed") &&
          decide (r.outcomes = [])) = true := by
    decide +kernel
  obtain ⟨r, hlife, hr⟩ := (Option.any_eq_true ..).mp hrun
  rw [Bool.and_eq_true, Bool.and_eq_true] at hr
  exact ⟨pairStreaming, r, Launch.life_reaches hlife, Watcher.ended_of hr.1.1,
    of_decide_eq_true hr.1.2, of_decide_eq_true hr.2⟩

end Konf.Runtime
