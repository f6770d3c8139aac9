import Konf.Runtime.Outcome

/-! # The same result, with and without streaming

`start` classifies a run by the typed result of `Engine::run`, `start_streaming` by the first terminal
event on the stream: any `Done` is a completion with the output `null`, and an `Error` is a
cancellation when its text says so. The two classifications are compared on runs with the same
executor result and the same events of tools. -/

namespace Konf.Runtime
open Konf.Substrate Konf.Executor Konf.Text Konf.Transition
set_option autoImplicit false

/-- The same kind of status, and the same output if the run completed. -/
def RunStatus.sameOutcome : RunStatus → RunStatus → Bool
  | .completed a, .completed b => a = b
  | .failed _, .failed _ => true
  | .cancelled _, .cancelled _ => true
  | _, _ => false

def farewellEvent : Except KonfluxError Json → StreamEvent
  | .ok output => .done output
  | .error e => errorEvent e

/-- The tools sent the same terminal events, before and after the farewell. -/
def SameSent (p q : LiveRun) : Prop :=
  p.early.filter StreamEvent.isTerminal = q.early.filter StreamEvent.isTerminal ∧
    p.late.filter StreamEvent.isTerminal = q.late.filter StreamEvent.isTerminal

/-- When the two classifications agree. If the first terminal event is an error, its text must speak
of a cancellation exactly if the executor's result is one (and the timeout did not fire before it). If
it is a completion, the executor must have succeeded, with no error on the stream and with `null` as
the last output. -/
def Alike (timedOut : Bool) (x : Except KonfluxError Json) (events : List StreamEvent) : Prop :=
  match events.find? StreamEvent.isTerminal with
  | some (.error code message _) =>
    readsCancelled code message = true ↔ timedOut = false ∧ ∃ e, x = .error e ∧ e.isCancelled = true
  | some (.done _) => timedOut = false ∧ (∃ output, x = .ok output) ∧ collect events = .empty
  | _ => False

/-! ## The two classifications -/

/-- What `Engine::run` returns. -/
def Launch.runResult (l : Launch) (timedOut : Bool) (x : Except KonfluxError Json)
    (events : List StreamEvent) : Except KonfluxError Json :=
  if timedOut then .error l.timeoutError else (collect events).result l.workflow.id x

section Classify
variable (l : Launch) (timedOut : Bool) (x : Except KonfluxError Json) (events : List StreamEvent)

theorem runResult_ok_iff {output : Json} : l.runResult timedOut x events = .ok output ↔
    timedOut = false ∧ (∃ out, x = .ok out) ∧ collect events = ⟨output, none⟩ := by
  cases timedOut with
  | true => simp [Launch.runResult]
  | false => simp [Launch.runResult, Collected.result_ok_iff]

theorem runResult_cancelled_iff :
    (∃ e, l.runResult timedOut x events = .error e ∧ e.isCancelled = true) ↔
      timedOut = false ∧ ∃ e, x = .error e ∧ e.isCancelled = true := by
  cases timedOut with
  | true => simp [Launch.runResult, Launch.timeoutError, KonfluxError.isCancelled]
  | false => simpa [Launch.runResult] using Collected.result_cancelled_iff ..

theorem runResult_error {code message : String} {retryable : Bool}
    (h : .error code message retryable ∈ events) : ∃ e, l.runResult timedOut x events = .error e := by
  cases hr : l.runResult timedOut x events with
  | error e => exact ⟨e, rfl⟩
  | ok output =>
    obtain ⟨-, -, hcollect⟩ := (runResult_ok_iff l timedOut x events).mp hr
    have hsome := collect_error_isSome h
    rw [hcollect] at hsome
    cases hsome

theorem sameOutcome_completed {result : Except KonfluxError Json} {output : Json} :
    (startStatus result).sameOutcome (.completed output) = true ↔ result = .ok output := by
  cases result with
  | ok out => simp [startStatus, RunStatus.sameOutcome]
  | error e => cases hc : e.isCancelled <;> simp [startStatus, hc, RunStatus.sameOutcome]

theorem sameOutcome_cancelled {result : Except KonfluxError Json} {reason : String} :
    (startStatus result).sameOutcome (.cancelled reason) = true ↔
      ∃ e, result = .error e ∧ e.isCancelled = true := by
  cases result with
  | ok out => simp [startStatus, RunStatus.sameOutcome]
  | error e => cases hc : e.isCancelled <;> simp [startStatus, hc, RunStatus.sameOutcome]

theorem sameOutcome_failed {e : KonfluxError} {message : String} :
    (startStatus (.error e)).sameOutcome (.failed message) = true ↔ e.isCancelled = false := by
  cases hc : e.isCancelled <;> simp [startStatus, hc, RunStatus.sameOutcome]

/-- The two classifications of a result with the events that come with it. -/
theorem classifications_agree_iff {e : StreamEvent}
    (he : events.find? StreamEvent.isTerminal = some e) :
    (startStatus (l.runResult timedOut x events)).sameOutcome (streamStatus (streamFinal e)) = true ↔
      Alike timedOut x events := by
  have hterm : e.isTerminal = true := List.find?_some he
  unfold Alike
  rw [he]
  cases e with
  | start | progress => cases hterm
  | done output => exact sameOutcome_completed.trans (runResult_ok_iff l timedOut x events)
  | error code message retryable =>
    have hmem := List.mem_of_find?_eq_some he
    obtain ⟨err, herr⟩ := runResult_error l timedOut x events hmem
    have hcancel : err.isCancelled = true ↔
        timedOut = false ∧ ∃ e, x = .error e ∧ e.isCancelled = true := by
      rw [← runResult_cancelled_iff l timedOut x events, herr]
      simp
    simp only
    rw [herr, ← hcancel]
    cases hreads : readsCancelled code message with
    | true =>
      rw [streamFinal, if_pos hreads]
      exact sameOutcome_cancelled.trans (by simp)
    | false =>
      rw [streamFinal, if_neg (by simp [hreads])]
      exact sameOutcome_failed.trans (by simp)

end Classify

/-! ## Runs -/

section Runs
variable {l : Launch} {p q : LiveRun} {x : Except KonfluxError Json}

theorem LiveRun.Closing.stream_eq (hc : p.Closing l) (hgone : p.sendersGone = true) {output : Json}
    (hx : p.worker.result = some (.ok output)) : p.stream = p.early ++ .done output :: p.late := by
  have hbind : p.worker.result.bind l.farewell = some (.done output) := by
    rw [hx]
    rfl
  obtain ⟨e, he⟩ := Option.isSome_iff_exists.mp (hc.closed hgone (by rw [hbind]; rfl))
  have hsaid := hc.said e he
  rw [hbind, Option.some.injEq] at hsaid
  rw [LiveRun.stream, he, ← hsaid, List.append_assoc]
  rfl

theorem SameSent.collect_eq (h : SameSent p q) {e : StreamEvent} (he : e.isTerminal = true) :
    collect (p.early ++ e :: p.late) = collect (q.early ++ e :: q.late) := by
  have hfilter : ∀ r : LiveRun, (r.early ++ e :: r.late).filter StreamEvent.isTerminal =
      r.early.filter StreamEvent.isTerminal ++ e :: r.late.filter StreamEvent.isTerminal := by
    intro r
    rw [List.filter_append, List.filter_cons_of_pos he]
  rw [← collect_filter, ← collect_filter (q.early ++ _), hfilter p, hfilter q, h.1, h.2]

/-- A run of `start` is recorded by the result of `Engine::run`. -/
theorem plain_status (hplain : l.streaming = false) (h : Reaches (LifeStep l) l.Started p)
    (hend : p.watcher = .ended) (hx : p.worker.result = some x) (events : List StreamEvent)
    (hsame : ∀ output, x = .ok output → p.sendersGone = true → collect p.stream = collect events) :
    p.status = startStatus (l.runResult p.timedOut x events) := by
  have hi := plainInv_of_reaches hplain h
  rw [PlainInv, hend] at hi
  obtain ⟨result, hconc, hstatus, -⟩ := hi
  rw [hstatus]
  cases hconc with
  | timedOut ht =>
    rw [Launch.runResult, ht]
    rfl
  | noWorker e hrun =>
    have hsettled : p.worker.result = none := by
      cases hw : p.worker with
      | running s =>
        rw [hw] at hrun
        cases hrun
      | absent | panicked => rfl
    cases hsettled.symm.trans hx
  | returned ht hgone hx' =>
    cases hx.symm.trans hx'
    rw [Launch.runResult, ht]
    cases x with
    | error e => rfl
    | ok output =>
      rw [hsame output rfl hgone]
      rfl

/-- The first terminal event is a tool's, or the farewell. -/
theorem LiveRun.Closing.verdict_eq (hc : q.Closing l) (hstream : l.streaming = true)
    (hx : q.worker.result = some x) {e : StreamEvent} (he : q.verdict = some e) :
    (q.early ++ farewellEvent x :: q.late).find? StreamEvent.isTerminal = some e := by
  unfold LiveRun.verdict LiveRun.stream at he
  cases hsaid : q.said with
  | none =>
    rw [hsaid, hc.late hsaid, Option.toList_none, List.append_nil, List.append_nil] at he
    rw [List.find?_append, he, Option.some_or]
  | some e' =>
    have hlast := hc.said e' hsaid
    rw [hx, Option.bind_some] at hlast
    have hsame : e' = farewellEvent x := by
      cases x with
      | ok output => exact (Option.some.inj hlast).symm
      | error err =>
        rw [Launch.farewell, if_pos hstream] at hlast
        exact (Option.some.inj hlast).symm
    rw [hsaid, hsame, List.append_assoc] at he
    exact he

end Runs

/-- A run of `start` and one of `start_streaming` with the same executor result, the latter read to
its end, have the same kind of status and the same output exactly if the first terminal event on the
stream classifies the result as its type does. -/
theorem outcomes_agree_iff (l : Launch) (p q : LiveRun) (x : Except KonfluxError Json)
    (hp : Reaches (LifeStep { l with streaming := false })
      (Launch.Started { l with streaming := false }) p)
    (hq : ReachesBy (LifeStep { l with streaming := true }) Attended
      (Launch.Started { l with streaming := true }) q)
    (hpend : p.watcher = .ended) (hqend : q.watcher = .ended)
    (hpx : p.worker.result = some x) (hqx : q.worker.result = some x)
    (hsent : ∀ output, x = .ok output → SameSent p q) :
    p.status.sameOutcome q.status = true ↔
      Alike p.timedOut x (q.early ++ farewellEvent x :: q.late) := by
  have hqc := reaches_closing hq.reaches
  have hrun : q.worker.isRunning = true := by
    cases hw : q.worker with
    | running s => rfl
    | absent | panicked =>
      rw [hw] at hqx
      cases hqx
  have hi := streamInv_of_reaches rfl hq hrun
  rw [StreamInv, hqend] at hi
  obtain ⟨e, he, hqstatus, -⟩ := hi
  have hpstatus := plain_status (l := { l with streaming := false }) rfl hp hpend hpx
    (q.early ++ farewellEvent x :: q.late) (by
      rintro output rfl hgone
      rw [(reaches_closing hp).stream_eq hgone hpx]
      exact (hsent output rfl).collect_eq rfl)
  rw [hpstatus, hqstatus]
  exact classifications_agree_iff _ p.timedOut x _ (hqc.verdict_eq rfl hqx he)

/-! ## Tools that leave the stream alone -/

theorem display_cancelled {e : KonfluxError} (h : e.isCancelled = true) :
    contains e.display "cancelled" = true := by
  unfold KonfluxError.isCancelled at h
  split at h
  · have htext : contains "] workflow cancelled" "cancelled" = true := by decide
    exact contains_append_right _ (contains_append_right _ htext)
  · cases h

/-- Without terminal events of tools the classifications agree on a success without output, on a
cancellation, and on an error whose text does not speak of one. -/
theorem alike_farewell_iff (timedOut : Bool) (x : Except KonfluxError Json)
    {early late : List StreamEvent} (hearly : early.filter StreamEvent.isTerminal = [])
    (hlate : late.filter StreamEvent.isTerminal = []) :
    Alike timedOut x (early ++ farewellEvent x :: late) ↔ match x with
      | .ok output => timedOut = false ∧ output = .null
      | .error e =>
        if e.isCancelled then timedOut = false else contains e.display "cancelled" = false := by
  have hterm : (farewellEvent x).isTerminal = true := by
    cases x <;> rfl
  have hfind : (early ++ farewellEvent x :: late).find? StreamEvent.isTerminal =
      some (farewellEvent x) := by
    rw [List.find?_append, List.find?_eq_none.mpr (List.filter_eq_nil_iff.mp hearly), Option.none_or,
      List.find?_cons_of_pos hterm]
  have hcollect : collect (early ++ farewellEvent x :: late) = collect [farewellEvent x] := by
    rw [← collect_filter, List.filter_append, hearly, List.filter_cons_of_pos hterm, hlate]
    rfl
  unfold Alike
  rw [hfind, hcollect]
  cases x with
  | ok output => simp [farewellEvent, collect, Collected.absorb, Collected.empty]
  | error e =>
    have hreads : readsCancelled "execution_error" e.display = contains e.display "cancelled" := rfl
    simp only [farewellEvent, errorEvent, hreads]
    cases hc : e.isCancelled with
    | true => simp [display_cancelled hc, hc]
    | false => simp [hc]

/-! ## An output that streaming drops -/

/-- The run has ended, `execute` returned this output, and no tool has sent an event. -/
def LiveRun.endedOk (r : LiveRun) (output : Json) : Bool :=
  r.watcher.hasEnded && r.early.isEmpty && r.late.isEmpty && match r.worker.result with
    | some (.ok out) => out = output
    | _ => false

theorem LiveRun.endedOk_iff {r : LiveRun} {output : Json} (h : r.endedOk output = true) :
    r.watcher = .ended ∧ r.early = [] ∧ r.late = [] ∧ r.worker.result = some (.ok output) := by
  simp only [LiveRun.endedOk, Bool.and_eq_true, List.isEmpty_iff] at h
  obtain ⟨⟨⟨hend, hearly⟩, hlate⟩, hres⟩ := h
  refine ⟨Watcher.ended_of hend, hearly, hlate, ?_⟩
  split at hres
  · rename_i out hout
    rw [hout, of_decide_eq_true hres]
  · cases hres

theorem sameSent_of_nil {p q : LiveRun} (hp : p.early = [] ∧ p.late = [])
    (hq : q.early = [] ∧ q.late = []) : SameSent p q := by
  simp only [SameSent, hp, hq, List.filter_nil, and_self]

def plainScript (output : Json) : List LifeMove :=
  pairScript output ++ ([.recv, .drained "", .record, .append] : List LifeMove)

def readScript (output : Json) : List LifeMove :=
  pairScript output ++ ([.recv, .pass, .record, .append] : List LifeMove)

/-- A result without output is recorded alike. -/
theorem null_recorded_alike : ∃ p q, Reaches (LifeStep pairLaunch) pairLaunch.Started p ∧
    ReachesBy (LifeStep pairStreaming) Attended pairStreaming.Started q ∧
    p.worker.result = some (.ok .null) ∧ q.worker.result = some (.ok .null) ∧
    p.status.sameOutcome q.status = true := by
  have hplain : (pairLaunch.life (fun _ _ => True) (plainScript .null)).any
      (fun r => r.endedOk .null && !r.timedOut) = true := by
    decide +kernel
  have hread : (pairStreaming.life Attended (readScript .null)).any
      (fun r => r.endedOk .null) = true := by
    decide +kernel
  obtain ⟨p, hp, hpr⟩ := (Option.any_eq_true ..).mp hplain
  obtain ⟨q, hq, hqr⟩ := (Option.any_eq_true ..).mp hread
  rw [Bool.and_eq_true, Bool.not_eq_true'] at hpr
  obtain ⟨hpend, hpearly, hplate, hpx⟩ := LiveRun.endedOk_iff hpr.1
  obtain ⟨hqend, hqearly, hqlate, hqx⟩ := LiveRun.endedOk_iff hqr
  have hsent := sameSent_of_nil ⟨hpearly, hplate⟩ ⟨hqearly, hqlate⟩
  have hpreach : Reaches (LifeStep pairLaunch) pairLaunch.Started p := Launch.life_reaches hp
  have hqreach := Launch.life_reaches hq
  refine ⟨p, q, hpreach, hqreach, hpx, hqx, ?_⟩
  refine (outcomes_agree_iff pairLaunch p q (.ok .null) hpreach hqreach hpend hqend hpx hqx
    fun _ _ => hsent).mpr ?_
  refine (alike_farewell_iff p.timedOut (.ok .null) (by rw [hqearly]; rfl) (by rw [hqlate]; rfl)).mpr ?_
  exact ⟨hpr.2, rfl⟩

/-- The same workflow with the same answers, and the same executor result: `start` records the output,
`start_streaming` records `null`. -/
theorem output_recorded_as_null : ∃ p q, Reaches (LifeStep pairLaunch) pairLaunch.Started p ∧
    ReachesBy (LifeStep pairStreaming) Attended pairStreaming.Started q ∧
    p.watcher = .ended ∧ q.watcher = .ended ∧ p.worker.result = some (.ok (.str "hi")) ∧
    q.worker.result = some (.ok (.str "hi")) ∧ SameSent p q ∧
    p.status.sameOutcome q.status = false := by
  have hrun : (pairLaunch.life (fun _ _ => True) (plainScript (.str "hi"))).any (fun p =>
      p.endedOk (.str "hi") && (pairStreaming.life Attended (readScript (.str "hi"))).any (fun q =>
        q.endedOk (.str "hi") && !p.status.sameOutcome q.status)) = true := by
    decide +kernel
  obtain ⟨p, hp, hpr⟩ := (Option.any_eq_true ..).mp hrun
  rw [Bool.and_eq_true] at hpr
  obtain ⟨q, hq, hqr⟩ := (Option.any_eq_true ..).mp hpr.2
  rw [Bool.and_eq_true, Bool.not_eq_true'] at hqr
  obtain ⟨hpend, hpearly, hplate, hpx⟩ := LiveRun.endedOk_iff hpr.1
  obtain ⟨hqend, hqearly, hqlate, hqx⟩ := LiveRun.endedOk_iff hqr.1
  have hsent := sameSent_of_nil ⟨hpearly, hplate⟩ ⟨hqearly, hqlate⟩
  exact ⟨p, q, Launch.life_reaches hp, Launch.life_reaches hq, hpend, hqend, hpx, hqx, hsent, hqr.2⟩

end Konf.Runtime
