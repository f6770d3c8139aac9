import Konf.Journal.Reconcile
import Konf.Runtime.Nesting
import Konf.Runtime.Terminal

/-! # Starting a run

What a call of `Runtime::start` or `start_streaming` writes before it returns: the run's entry in the
process table and the `workflow_started` entry of the journal. `start` returns an error only from
`validate_start`, before both. `start_streaming` also returns the error of `Engine::run_streaming`,
after both, and spawns no task that would end the run. -/

namespace Konf.Runtime
open Konf.Substrate Konf.Executor Konf.Text Konf.Transition Konf.Journal
set_option autoImplicit false

/-- What a call may leave its traces in. A runtime may have no journal. -/
structure Host where
  table : ProcessTable
  journal : Option RedbJournal

/-- What a call takes from outside: the new run id, the clock, and whether the journal can write. -/
structure Draw where
  runId : RunId
  now : Time
  stored : Bool

def Launch.startedEntry (l : Launch) (runId : RunId) : JournalEntry where
  runId := some runId
  sessionId := l.ctx.sessionId
  namespace_ := l.scope.namespace_
  eventType := l.startedRow.eventType
  payload := l.startedRow.payload
  validTo := none
  idempotencyKey := none

/-- The two writes of an accepted call. A failed append is only logged. -/
def Host.register (h : Host) (l : Launch) (d : Draw) : Host where
  table := h.table.insertRun (newRun d.runId l.scope l.workflow)
  journal :=
    if d.stored then h.journal.map fun j => (j.append d.now (l.startedEntry d.runId)).2
    else h.journal

/-- `start` and `start_streaming`, without the tasks they spawn. The stream of a streaming run is
made in the call, and one without buffer panics. -/
def Launch.call (l : Launch) (h : Host) (d : Draw) :
    Option (Except RuntimeError RunId) × Host :=
  match l.scope.validateStart h.table with
  | .error e => (some (.error e), h)
  | .ok _ =>
    if l.streaming then
      match validateGrant l.workflow.capabilities l.scope.capabilityPatterns with
      | .error e => (some (.error (.engine (.capabilityDenied e))), h.register l d)
      | .ok _ =>
        if l.env.config.streamBuffer = 0 then (none, h.register l d)
        else (some (.ok d.runId), h.register l d)
    else (some (.ok d.runId), h.register l d)

/-- The runs with a `workflow_started` entry and no terminal one. -/
def Host.openRuns (h : Host) : Set RunId :=
  {run | ∃ j, h.journal = some j ∧ j.Started run ∧ ¬j.Ended run}

structure Traceless (before after : Host) : Prop where
  table : after.table = before.table
  active : ∀ namespacePrefix, after.table.activeCountInNamespace namespacePrefix =
    before.table.activeCountInNamespace namespacePrefix
  openRuns : after.openRuns = before.openRuns

theorem Traceless.refl (h : Host) : Traceless h h := ⟨rfl, fun _ => rfl, rfl⟩

/-! ## Refusals -/

section Refusals
variable {l : Launch} {h : Host} {d : Draw}

theorem Launch.call_error {e : RuntimeError} (herr : (l.call h d).1 = some (.error e)) :
    (l.scope.validateStart h.table = .error e ∧ (l.call h d).2 = h) ∨
      (l.streaming = true ∧ l.scope.validateStart h.table = .ok () ∧
        (∃ text, validateGrant l.workflow.capabilities l.scope.capabilityPatterns = .error text ∧
          e = .engine (.capabilityDenied text)) ∧
        (l.call h d).2 = h.register l d) := by
  unfold Launch.call at herr ⊢
  cases hstart : l.scope.validateStart h.table with
  | error e' =>
    rw [hstart] at herr
    cases herr
    exact .inl ⟨rfl, rfl⟩
  | ok u =>
    rw [hstart] at herr
    cases hstream : l.streaming with
    | false =>
      simp only [hstream] at herr
      cases herr
    | true =>
      simp only [hstream, if_true] at herr
      cases hgrant : validateGrant l.workflow.capabilities l.scope.capabilityPatterns with
      | error text =>
        rw [hgrant] at herr
        cases herr
        exact .inr ⟨rfl, rfl, ⟨text, rfl, rfl⟩, rfl⟩
      | ok u' =>
        simp only [hgrant] at herr
        split_ifs at herr
        cases herr

/-- A streaming call whose capabilities are not granted returns after its writes. -/
theorem Launch.call_ungranted {text : String} (hstream : l.streaming = true)
    (hstart : l.scope.validateStart h.table = .ok ())
    (hgrant : validateGrant l.workflow.capabilities l.scope.capabilityPatterns = .error text) :
    l.call h d = (some (.error (.engine (.capabilityDenied text))), h.register l d) := by
  unfold Launch.call
  rw [hstart]
  simp only [hstream, if_true, hgrant]

theorem Host.register_active (l : Launch) (hfresh : d.runId ∉ h.table) :
    (h.register l d).table.activeCountInNamespace l.scope.namespace_ =
      h.table.activeCountInNamespace l.scope.namespace_ + 1 := by
  have hin : ProcessTable.activeIn l.scope.namespace_ (newRun d.runId l.scope l.workflow) = true := by
    rw [ProcessTable.activeIn, Bool.and_eq_true]
    exact ⟨rfl, startsWith_iff.mpr (List.prefix_refl _)⟩
  change List.countP _ (h.table.insert d.runId (newRun d.runId l.scope l.workflow)).entries = _
  rw [AList.entries_insert_of_notMem hfresh, List.countP_cons, if_pos hin]
  rfl

theorem Host.register_openRuns (l : Launch) {j : RedbJournal} (hj : h.journal = some j)
    (hstored : d.stored = true) (hnew : ¬j.Ended d.runId) :
    (h.register l d).openRuns = insert d.runId h.openRuns := by
  have hrows := j.append_rows d.now (l.startedEntry d.runId)
  have hj' : (h.register l d).journal = some (j.append d.now (l.startedEntry d.runId)).2 := by
    simp only [Host.register, hstored, if_true, hj, Option.map_some]
  have hended : ∀ run, (j.append d.now (l.startedEntry d.runId)).2.Ended run ↔ j.Ended run := by
    intro run
    constructor
    · rintro ⟨r, hr, hrun, hterm⟩
      rw [hrows] at hr
      obtain hr | hr := List.mem_append.mp hr
      · exact ⟨r, hr, hrun, hterm⟩
      · rw [List.mem_singleton.mp hr] at hterm
        have hstarted : RedbJournal.isTerminalEvent "workflow_started" = true :=
          RedbJournal.isTerminalEvent_iff.mpr hterm
        cases hstarted
    · exact fun hend => hend.append hrows
  ext run
  simp only [Host.openRuns, Set.mem_ofPred_eq, Set.mem_insert_iff, hj, hj', Option.some.injEq,
    exists_eq_left', hended]
  constructor
  · rintro ⟨⟨r, hr, hrun, htype⟩, hlive⟩
    rw [hrows] at hr
    obtain hr | hr := List.mem_append.mp hr
    · exact .inr ⟨⟨r, hr, hrun, htype⟩, hlive⟩
    · rw [List.mem_singleton.mp hr] at hrun
      exact .inl (Option.some.inj hrun).symm
  · rintro (rfl | ⟨⟨r, hr, hrun⟩, hlive⟩)
    · refine ⟨⟨(j.nextId, .fromEntry d.now (l.startedEntry d.runId)), ?_, rfl, rfl⟩, hnew⟩
      rw [hrows]
      exact List.mem_append_right _ (List.mem_singleton_self _)
    · refine ⟨⟨r, ?_, hrun⟩, hlive⟩
      rw [hrows]
      exact List.mem_append_left _ hr

/-- No task of a run that `start_streaming` has refused is there to end it. -/
theorem Launch.refused_runs_on {text : String} (hstream : l.streaming = true)
    (hgrant : validateGrant l.workflow.capabilities l.scope.capabilityPatterns = .error text)
    {r : LiveRun} (hreach : Reaches (LifeStep l) l.Started r) :
    r.status = .running ∧ r.watcher = .absent := by
  have hbegin : l.start = l.inserted := by
    unfold Launch.start
    rw [hgrant]
    simp only [hstream, if_true]
  induction hreach with
  | start h =>
    rw [h, hbegin]
    exact ⟨rfl, rfl⟩
  | tail _ _ hs ih =>
    obtain ⟨hstatus, habsent⟩ := ih
    cases hs with
    | work | emit | announce | hangUp | interaction | leave => exact ⟨hstatus, habsent⟩
    | collect hw | take hw | pass hw | passLast hw | drained hw | joinFailed hw | closed hw
    | timeout hw | record hw | streamRecord hw | append hw | streamAppend hw =>
      rw [habsent] at hw
      cases hw

end Refusals

/-- A refused call leaves no trace exactly when it is not a streaming call that `validate_start` lets
through and the engine then refuses for want of a capability. The run id is new to the table. -/
theorem refused_start_traceless_iff (l : Launch) (h : Host) (d : Draw) (hfresh : d.runId ∉ h.table) :
    (∀ e, (l.call h d).1 = some (.error e) → Traceless h (l.call h d).2) ↔
      (l.streaming = true → l.scope.validateStart h.table = .ok () →
        validateGrant l.workflow.capabilities l.scope.capabilityPatterns = .ok ()) := by
  constructor
  · intro hall hstream hstart
    cases hgrant : validateGrant l.workflow.capabilities l.scope.capabilityPatterns with
    | ok u => rfl
    | error text =>
      have hcall : l.call h d = _ := Launch.call_ungranted hstream hstart hgrant
      have hless := hall (.engine (.capabilityDenied text)) (by rw [hcall])
      have hcount := hless.active l.scope.namespace_
      rw [hcall, Host.register_active l hfresh] at hcount
      exact absurd hcount (Nat.succ_ne_self _)
  · intro hgood e herr
    obtain ⟨-, heq⟩ | ⟨hstream, hstart, ⟨text, hgrant, -⟩, -⟩ := Launch.call_error herr
    · rw [heq]
      exact .refl h
    · rw [hgood hstream hstart] at hgrant
      cases hgrant

/-! ## Two refused calls -/

/-- A streaming run of a workflow that asks for a capability outside of its scope. -/
def ungrantedLaunch : Launch :=
  { pairLaunch with
    workflow := { pairWf with capabilities := ["shell:exec"] }
    streaming := true }

/-- No run may be active in the namespace. -/
def fullLaunch : Launch :=
  { ungrantedLaunch with
    scope := { callerScope with
      limits := { ResourceLimits.default with maxActiveRunsPerNamespace := 0 } } }

def emptyHost : Host := ⟨∅, some .open_⟩

def firstDraw : Draw := ⟨7, 0, true⟩

/-- The call that `validate_start` refuses leaves nothing. -/
theorem full_namespace_traceless : ∃ e,
    (fullLaunch.call emptyHost firstDraw).1 = some (.error e) ∧
      Traceless emptyHost (fullLaunch.call emptyHost firstDraw).2 := by
  have hstart : fullLaunch.scope.validateStart emptyHost.table =
      .error (.resourceLimit "max_active_runs_per_namespace" 0) := by
    decide +kernel
  have herr : (fullLaunch.call emptyHost firstDraw).1 =
      some (.error (.resourceLimit "max_active_runs_per_namespace" 0)) := by
    rw [Launch.call, hstart]
  refine ⟨_, herr, ?_⟩
  refine (refused_start_traceless_iff fullLaunch emptyHost firstDraw List.not_mem_nil).mpr ?_ _ herr
  intro _ hok
  rw [hstart] at hok
  cases hok

/-- The call that the engine refuses leaves a running entry, which counts against the limit of its
namespace, and a started run without end; and nothing that can happen to the run changes that. -/
theorem ungranted_start_leaks : ∃ e,
    (ungrantedLaunch.call emptyHost firstDraw).1 = some (.error e) ∧
      emptyHost.table.activeCountInNamespace "konf:demo" = 0 ∧
      (ungrantedLaunch.call emptyHost firstDraw).2.table.activeCountInNamespace "konf:demo" = 1 ∧
      emptyHost.openRuns = ∅ ∧
      (ungrantedLaunch.call emptyHost firstDraw).2.openRuns = {firstDraw.runId} ∧
      ∀ r, Reaches (LifeStep ungrantedLaunch) ungrantedLaunch.Started r →
        r.status = .running ∧ r.watcher = .absent := by
  have hempty : emptyHost.openRuns = ∅ := by
    rw [Set.eq_empty_iff_forall_notMem]
    rintro run ⟨j, hj, ⟨r, hr, -⟩, -⟩
    cases hj
    cases hr
  obtain ⟨text, hgrant⟩ : ∃ text, validateGrant ungrantedLaunch.workflow.capabilities
      ungrantedLaunch.scope.capabilityPatterns = .error text := ⟨_, by rfl⟩
  have hcall := Launch.call_ungranted (d := firstDraw) rfl
    (show ungrantedLaunch.scope.validateStart emptyHost.table = .ok () by decide +kernel) hgrant
  have hopen := Host.register_openRuns (d := firstDraw) ungrantedLaunch
    (show emptyHost.journal = some .open_ from rfl) rfl (by rintro ⟨r, hr, -⟩; cases hr)
  have hactive := Host.register_active (d := firstDraw) ungrantedLaunch
    (show firstDraw.runId ∉ emptyHost.table from List.not_mem_nil)
  rw [hempty, insert_empty_eq] at hopen
  rw [hcall]
  exact ⟨_, rfl, rfl, hactive, hempty, hopen, fun _ => ungrantedLaunch.refused_runs_on rfl hgrant⟩

end Konf.Runtime
