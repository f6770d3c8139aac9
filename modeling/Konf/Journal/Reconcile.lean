import Mathlib.Data.List.Induction
import Konf.Journal.Indexes

/-! # Reconciliation of interrupted runs

What the scan of `reconcile_zombies` collects, read off the log: the first start of each run, and the
runs with a terminal event. The entries it appends are then one for each run that has started and not
ended, and a second call finds none. -/

namespace Konf.Journal
open Konf.Substrate
set_option autoImplicit false

def StoredEntry.starts (run : RunId) (e : StoredEntry) : Bool :=
  e.runId == some run && e.eventType == "workflow_started"

def StoredEntry.ends (run : RunId) (e : StoredEntry) : Bool :=
  e.runId == some run && RedbJournal.isTerminalEvent e.eventType

namespace RedbJournal

def firstStart (j : RedbJournal) (run : RunId) : Option StoredEntry :=
  (j.events.rows.map Prod.snd).find? (StoredEntry.starts run)

def Started (j : RedbJournal) (run : RunId) : Prop :=
  ∃ r ∈ j.events.rows, r.2.runId = some run ∧ r.2.eventType = "workflow_started"

def Ended (j : RedbJournal) (run : RunId) : Prop :=
  ∃ r ∈ j.events.rows, r.2.runId = some run ∧ (r.2.eventType = "workflow_completed" ∨
    r.2.eventType = "workflow_failed" ∨ r.2.eventType = "workflow_cancelled")

/-! ## The scan -/

theorem isTerminalEvent_iff {eventType : String} :
    isTerminalEvent eventType = true ↔ eventType = "workflow_completed" ∨
      eventType = "workflow_failed" ∨ eventType = "workflow_cancelled" := by
  simp only [isTerminalEvent, Bool.or_eq_true, beq_iff_eq, or_assoc]

theorem isTerminalEvent_started : isTerminalEvent "workflow_started" = false := by decide

theorem Survey.visit_started (v : Survey) (e : StoredEntry) (run : RunId) :
    (v.visit e).started.lookup run = (v.started.lookup run).or
      (if e.starts run then some (e.sessionId, e.namespace_) else none) := by
  unfold Survey.visit StoredEntry.starts
  cases hrun : e.runId with
  | none => simp
  | some run' =>
    by_cases hstart : e.eventType = "workflow_started"
    · simp only [hstart, if_true]
      by_cases heq : run' = run
      · subst heq
        cases hlook : v.started.lookup run' with
        | none => simp
        | some o => simp [hlook]
      · have hne : run ≠ run' := fun h => heq h.symm
        cases v.started.lookup run' with
        | none => simp [heq, AList.lookup_insert_ne hne]
        | some o => simp [heq]
    · have hout : (e.eventType == "workflow_started") = false := by simpa using hstart
      simp only [hstart, if_false, hout, Bool.and_false, Bool.false_eq_true, Option.or_none]
      split_ifs <;> rfl

theorem Survey.visit_terminal (v : Survey) (e : StoredEntry) (run : RunId) :
    run ∈ (v.visit e).terminal ↔ run ∈ v.terminal ∨ e.ends run = true := by
  unfold Survey.visit StoredEntry.ends
  cases hrun : e.runId with
  | none => simp
  | some run' =>
    by_cases hstart : e.eventType = "workflow_started"
    · simp only [hstart, if_true, isTerminalEvent_started, Bool.and_false]
      split <;> simp
    · simp only [hstart, if_false]
      cases hterm : isTerminalEvent e.eventType with
      | true =>
        simp only [if_true, List.mem_insert_iff, Bool.and_true, beq_iff_eq, Option.some.injEq]
        rw [or_comm, eq_comm (a := run)]
      | false => simp

theorem survey_started (entries : List StoredEntry) (run : RunId) :
    (entries.foldl Survey.visit ⟨∅, []⟩).started.lookup run =
      (entries.find? (StoredEntry.starts run)).map fun e => (e.sessionId, e.namespace_) := by
  induction entries using List.reverseRecOn with
  | nil => rfl
  | append_singleton entries e ih =>
    rw [List.foldl_append, List.foldl_cons, List.foldl_nil, Survey.visit_started, ih,
      List.find?_append, Option.map_or, List.find?_singleton]
    split_ifs <;> rfl

theorem survey_terminal (entries : List StoredEntry) (run : RunId) :
    run ∈ (entries.foldl Survey.visit ⟨∅, []⟩).terminal ↔ ∃ e ∈ entries, e.ends run = true := by
  induction entries using List.reverseRecOn with
  | nil => simp
  | append_singleton entries e ih =>
    rw [List.foldl_append, List.foldl_cons, List.foldl_nil, Survey.visit_terminal, ih]
    simp only [List.mem_append, List.mem_singleton, or_and_right, exists_or, exists_eq_left]

/-! ## The entries to append -/

section Zombies
variable {j : RedbJournal}

theorem ended_iff {run : RunId} : j.Ended run ↔ run ∈ j.survey.terminal := by
  rw [survey, survey_terminal]
  constructor
  · rintro ⟨r, hr, hrun, hterm⟩
    refine ⟨r.2, List.mem_map_of_mem hr, ?_⟩
    rw [StoredEntry.ends, hrun, isTerminalEvent_iff.mpr hterm, beq_self_eq_true]
    rfl
  · rintro ⟨e, he, hends⟩
    obtain ⟨r, hr, rfl⟩ := List.mem_map.mp he
    rw [StoredEntry.ends, Bool.and_eq_true, beq_iff_eq, isTerminalEvent_iff] at hends
    exact ⟨r, hr, hends⟩

theorem started_iff {run : RunId} : j.Started run ↔ ∃ first, j.firstStart run = some first := by
  rw [← Option.isSome_iff_exists, firstStart, List.find?_isSome]
  constructor
  · rintro ⟨r, hr, hrun, hstart⟩
    refine ⟨r.2, List.mem_map_of_mem hr, ?_⟩
    rw [StoredEntry.starts, hrun, hstart, beq_self_eq_true, beq_self_eq_true]
    rfl
  · rintro ⟨e, he, hstarts⟩
    obtain ⟨r, hr, rfl⟩ := List.mem_map.mp he
    rw [StoredEntry.starts, Bool.and_eq_true, beq_iff_eq, beq_iff_eq] at hstarts
    exact ⟨r, hr, hstarts⟩

theorem mem_zombies {entry : JournalEntry} :
    entry ∈ j.zombies ↔ ∃ run first, j.firstStart run = some first ∧ ¬j.Ended run ∧
      entry = reconciliation run (first.sessionId, first.namespace_) := by
  have hlook : ∀ run origin, (⟨run, origin⟩ : Sigma fun _ : RunId => String × String) ∈
      j.survey.started.entries ↔ ∃ first, j.firstStart run = some first ∧
        (first.sessionId, first.namespace_) = origin := by
    intro run origin
    rw [← AList.mem_lookup_iff, Option.mem_def, survey, survey_started, Option.map_eq_some_iff]
    rfl
  rw [zombies, List.mem_map]
  constructor
  · rintro ⟨⟨run, origin⟩, hmem, rfl⟩
    obtain ⟨hmem, hlive⟩ := List.mem_filter.mp hmem
    obtain ⟨first, hfirst, rfl⟩ := (hlook run origin).mp hmem
    exact ⟨run, first, hfirst, fun hend => of_decide_eq_true hlive (ended_iff.mp hend), rfl⟩
  · rintro ⟨run, first, hfirst, hlive, rfl⟩
    refine ⟨⟨run, (first.sessionId, first.namespace_)⟩, List.mem_filter.mpr ⟨?_, ?_⟩, rfl⟩
    · exact (hlook run _).mpr ⟨first, hfirst, rfl⟩
    · exact decide_eq_true fun hterm => hlive (ended_iff.mpr hterm)

theorem zombies_runs_nodup (j : RedbJournal) : (j.zombies.map JournalEntry.runId).Nodup := by
  have hkeys : (j.survey.started.entries.map Sigma.fst).Nodup := j.survey.started.nodupKeys
  have hruns : j.zombies.map JournalEntry.runId =
      ((j.survey.started.entries.filter fun e => e.1 ∉ j.survey.terminal).map Sigma.fst).map some := by
    rw [zombies, List.map_map, List.map_map]
    rfl
  rw [hruns]
  refine List.Nodup.map (Option.some_injective _) ?_
  exact hkeys.sublist (List.filter_sublist.map Sigma.fst)

theorem zombies_eq_nil (h : ∀ run, j.Started run → j.Ended run) : j.zombies = [] := by
  rw [List.eq_nil_iff_forall_not_mem]
  intro entry hmem
  obtain ⟨run, first, hfirst, hlive, -⟩ := mem_zombies.mp hmem
  exact hlive (h run (started_iff.mpr ⟨first, hfirst⟩))

end Zombies

end RedbJournal

section Appended
variable {j j' : RedbJournal} {appended : List (ℕ × StoredEntry)}

theorem RedbJournal.Ended.append (h : j'.events.rows = j.events.rows ++ appended) {run : RunId}
    (hend : j.Ended run) : j'.Ended run := by
  obtain ⟨r, hr, hrun⟩ := hend
  refine ⟨r, ?_, hrun⟩
  rw [h]
  exact List.mem_append_left _ hr

/-- When the appended entries are failures of the runs that were open, no run is open. -/
theorem RedbJournal.ended_of_reconciled (h : j'.events.rows = j.events.rows ++ appended)
    (hfail : ∀ r ∈ appended, r.2.eventType = "workflow_failed")
    (hopen : ∀ run, j.Started run → ¬j.Ended run → some run ∈ appended.map fun r => r.2.runId)
    {run : RunId} (hstart : j'.Started run) : j'.Ended run := by
  obtain ⟨r, hr, hrun, htype⟩ := hstart
  rw [h] at hr
  obtain hr | hr := List.mem_append.mp hr
  · by_cases hend : j.Ended run
    · exact hend.append h
    · obtain ⟨r', hr', hrun'⟩ := List.mem_map.mp (hopen run ⟨r, hr, hrun, htype⟩ hend)
      refine ⟨r', ?_, hrun', .inr (.inl (hfail r' hr'))⟩
      rw [h]
      exact List.mem_append_right _ hr'
  · rw [hfail r hr] at htype
    exact absurd htype (by decide)

end Appended

section Appended
variable {j : RedbJournal} {stamped : List (Time × JournalEntry)} {appended : List (ℕ × StoredEntry)}

theorem RedbJournal.reconciled_runs
    (hentries : appended.map Prod.snd = stamped.map fun e => StoredEntry.fromEntry e.1 e.2) :
    appended.map (fun r => r.2.runId) = (stamped.map Prod.snd).map JournalEntry.runId := by
  have hmap := congrArg (List.map StoredEntry.runId) hentries
  rw [List.map_map, List.map_map] at hmap
  rw [List.map_map]
  exact hmap

/-- Each appended entry is the reconciliation of a run that has not ended. -/
theorem RedbJournal.reconciled_origin (horder : (stamped.map Prod.snd).Perm j.zombies)
    (hentries : appended.map Prod.snd = stamped.map fun e => StoredEntry.fromEntry e.1 e.2)
    {r : ℕ × StoredEntry} (hr : r ∈ appended) :
    ∃ run first now, j.firstStart run = some first ∧ ¬j.Ended run ∧
      r.2 = .fromEntry now (reconciliation run (first.sessionId, first.namespace_)) := by
  have hmem : r.2 ∈ stamped.map fun e => StoredEntry.fromEntry e.1 e.2 := by
    rw [← hentries]
    exact List.mem_map_of_mem hr
  obtain ⟨⟨now, entry⟩, he, hr2⟩ := List.mem_map.mp hmem
  obtain ⟨run, first, hfirst, hlive, rfl⟩ :=
    RedbJournal.mem_zombies.mp (horder.mem_iff.mp (List.mem_map_of_mem he))
  exact ⟨run, first, now, hfirst, hlive, hr2.symm⟩

theorem RedbJournal.mem_reconciled_runs (horder : (stamped.map Prod.snd).Perm j.zombies)
    (hentries : appended.map Prod.snd = stamped.map fun e => StoredEntry.fromEntry e.1 e.2)
    (run : RunId) :
    some run ∈ appended.map (fun r => r.2.runId) ↔ j.Started run ∧ ¬j.Ended run := by
  constructor
  · intro hmem
    obtain ⟨r, hr, hrun⟩ := List.mem_map.mp hmem
    obtain ⟨run', first, now, hfirst, hlive, hr2⟩ :=
      RedbJournal.reconciled_origin horder hentries hr
    rw [hr2] at hrun
    cases hrun
    exact ⟨RedbJournal.started_iff.mpr ⟨first, hfirst⟩, hlive⟩
  · rintro ⟨hstart, hlive⟩
    obtain ⟨first, hfirst⟩ := RedbJournal.started_iff.mp hstart
    rw [RedbJournal.reconciled_runs hentries, (horder.map JournalEntry.runId).mem_iff]
    exact List.mem_map.mpr ⟨_, RedbJournal.mem_zombies.mpr ⟨run, first, hfirst, hlive, rfl⟩, rfl⟩

end Appended

/-- Whatever the order of the hash map and the clock readings, reconciliation appends one
`workflow_failed` entry for each run that has started and not ended, with the session and namespace of
its first start, and nothing else; it returns their number. Then every started run has ended, and a
second call does nothing. -/
theorem reconcile_exact (j : RedbJournal) (stamped : List (Time × JournalEntry))
    (horder : (stamped.map Prod.snd).Perm j.zombies) :
    ∃ appended : List (ℕ × StoredEntry),
      (j.reconcileZombies stamped).2.events.rows = j.events.rows ++ appended ∧
      (j.reconcileZombies stamped).1 = appended.length ∧
      (appended.map fun r => r.2.runId).Nodup ∧
      (∀ run, some run ∈ appended.map (fun r => r.2.runId) ↔ j.Started run ∧ ¬j.Ended run) ∧
      (∀ r ∈ appended, ∃ run first now, j.firstStart run = some first ∧ r.2 = .fromEntry now
        (RedbJournal.reconciliation run (first.sessionId, first.namespace_))) ∧
      (∀ run, (j.reconcileZombies stamped).2.Started run →
        (j.reconcileZombies stamped).2.Ended run) ∧
      ∀ again, (again.map Prod.snd).Perm (j.reconcileZombies stamped).2.zombies →
        (j.reconcileZombies stamped).2.reconcileZombies again =
          (0, (j.reconcileZombies stamped).2) := by
  obtain ⟨appended, hrows, hentries⟩ := j.appendAll_rows stamped
  have hexact := RedbJournal.mem_reconciled_runs horder hentries
  have hfail : ∀ r ∈ appended, r.2.eventType = "workflow_failed" := by
    intro r hr
    obtain ⟨run, first, now, -, -, hr2⟩ := RedbJournal.reconciled_origin horder hentries hr
    rw [hr2]
    rfl
  have hclosed : ∀ run, (j.reconcileZombies stamped).2.Started run →
      (j.reconcileZombies stamped).2.Ended run :=
    fun run => RedbJournal.ended_of_reconciled hrows hfail fun run hs he => (hexact run).mpr ⟨hs, he⟩
  refine ⟨appended, hrows, ?_, ?_, hexact, ?_, hclosed, ?_⟩
  · have hlen := congrArg List.length hentries
    have hcount := horder.length_eq
    rw [List.length_map, List.length_map] at hlen
    rw [List.length_map] at hcount
    exact hcount.symm.trans hlen.symm
  · rw [RedbJournal.reconciled_runs hentries, (horder.map JournalEntry.runId).nodup_iff]
    exact j.zombies_runs_nodup
  · intro r hr
    obtain ⟨run, first, now, hfirst, -, hr2⟩ := RedbJournal.reconciled_origin horder hentries hr
    exact ⟨run, first, now, hfirst, hr2⟩
  · intro again hagain
    have hnil := RedbJournal.zombies_eq_nil hclosed
    rw [hnil] at hagain
    have hempty : again = [] := List.map_eq_nil_iff.mp hagain.eq_nil
    rw [hempty, RedbJournal.reconcileZombies, hnil]
    rfl

/-- One run has started and ended, one has started twice. -/
def openJournal : RedbJournal :=
  RedbJournal.open_.after
    [.append 0 (runEvent 7 "workflow_started"), .append 0 (runEvent 8 "workflow_started"),
      .append 0 (runEvent 7 "workflow_completed"), .append 0 (runEvent 8 "workflow_started")]

theorem open_run_reconciled :
    openJournal.zombies = [RedbJournal.reconciliation 8 ("s", "konf:demo:alice")] ∧
      ∃ stamped, (openJournal.reconcileZombies stamped).1 = 1 ∧
        ∀ run, (openJournal.reconcileZombies stamped).2.Started run →
          (openJournal.reconcileZombies stamped).2.Ended run := by
  have hzombies : openJournal.zombies =
      [RedbJournal.reconciliation 8 ("s", "konf:demo:alice")] := by
    decide +kernel
  refine ⟨hzombies, [(5, RedbJournal.reconciliation 8 ("s", "konf:demo:alice"))], ?_, ?_⟩
  · rw [RedbJournal.reconcileZombies, hzombies]
    rfl
  · obtain ⟨_, -, -, -, -, -, hclosed, -⟩ := reconcile_exact openJournal
      [(5, RedbJournal.reconciliation 8 ("s", "konf:demo:alice"))] (by rw [hzombies]; rfl)
    exact hclosed

end Konf.Journal
