import Konf.Foundations.Transition
import Konf.Scheduler.Timers

/-! # The polling loop

The transactions of `scheduler.rs` as they interleave. A tick reads the due timers in one transaction
and then goes through them one by one: it looks the workflow up, spawns it, and writes the timer's next
fire time in a transaction of its own. Timers are scheduled and cancelled at any time, also in the
middle of a tick, which goes on with what it has read.

`issued` and `trace` are ghosts: the ids that have been scheduled, and what has been fired and
cancelled, in order. -/

namespace Konf.Scheduler
open Konf.Substrate Konf.Runtime Konf.Journal Konf.Transition
set_option autoImplicit false

/-! ## Moves -/

/-- Where the loop stands: between two ticks, before the next due timer, or before the write that ends
a fire. -/
inductive Loop
  | idle
  | due (rest : List (ℕ × Timer))
  | rescheduling (oldFireAt : ℕ) (record : Timer) (next : Option Time) (rest : List (ℕ × Timer))

inductive SchedulerEvent
  | fired (id : JobId)
  | cancelled (id : JobId)
deriving DecidableEq

structure SchedulerState where
  tables : Tables
  loop : Loop
  issued : List JobId
  trace : List SchedulerEvent

inductive SchedulerMove
  | schedule (now : Instant) (request : Request)
  | cancel (id : JobId)
  | collect (now : Instant)
  -- the workflow is not registered
  | missing
  | fire (now : Instant)
  | reschedule
  | finish
  -- the tick fails, here or in its first read, or the process is restarted
  | abandon

/-- A cancellation, with its event if the id existed. -/
def SchedulerState.cancel (s : SchedulerState) (id : JobId) : SchedulerState :=
  { s with
    tables := (s.tables.cancel id).2
    trace := if (s.tables.cancel id).1 then s.trace ++ [.cancelled id] else s.trace }

inductive SchedulerStep (cron : Cron) (s : SchedulerState) : SchedulerMove → SchedulerState → Prop
  | schedule {now : Instant} {request : Request} {t' : Tables}
      (h : s.tables.schedule cron now request = .ok t') (hfresh : request.jobId ∉ s.issued) :
      SchedulerStep cron s (.schedule now request)
        { s with tables := t', issued := request.jobId :: s.issued }
  | cancel (id : JobId) : SchedulerStep cron s (.cancel id) (s.cancel id)
  | collect {due : List (ℕ × Timer)} (now : Instant) (hl : s.loop = .idle)
      (hdue : s.tables.collectDue now.ms = .ok due) :
      SchedulerStep cron s (.collect now) { s with loop := .due due }
  | missing {d : ℕ × Timer} {rest : List (ℕ × Timer)} (hl : s.loop = .due (d :: rest)) :
      SchedulerStep cron s .missing { s with loop := .due rest }
  | fire {oldFireAt : ℕ} {record : Timer} {rest : List (ℕ × Timer)} (now : Instant)
      (hl : s.loop = .due ((oldFireAt, record) :: rest)) :
      SchedulerStep cron s (.fire now)
        { s with
          loop := .rescheduling oldFireAt record (nextFireAfter cron now record.mode) rest
          trace := s.trace ++ [.fired record.jobId] }
  | reschedule {oldFireAt : ℕ} {record : Timer} {next : Option Time} {rest : List (ℕ × Timer)}
      (hl : s.loop = .rescheduling oldFireAt record next rest) :
      SchedulerStep cron s .reschedule
        { s with tables := s.tables.reschedule oldFireAt record next, loop := .due rest }
  | finish (hl : s.loop = .due []) : SchedulerStep cron s .finish { s with loop := .idle }
  | abandon : SchedulerStep cron s .abandon { s with loop := .idle }

def SchedulerState.start : SchedulerState := ⟨.empty, .idle, [], []⟩

def SchedulerState.Reachable (cron : Cron) : SchedulerState → Prop :=
  Reaches (SchedulerStep cron) (· = .start)

/-- The state after a move, when the move is possible. -/
def SchedulerState.apply (cron : Cron) (s : SchedulerState) : SchedulerMove → Option SchedulerState
  | .schedule now request =>
    if request.jobId ∉ s.issued then
      (s.tables.schedule cron now request).toOption.map fun t' =>
        { s with tables := t', issued := request.jobId :: s.issued }
    else none
  | .cancel id => some (s.cancel id)
  | .collect now => match s.loop with
    | .idle => (s.tables.collectDue now.ms).toOption.map fun due => { s with loop := .due due }
    | _ => none
  | .missing => match s.loop with
    | .due (_ :: rest) => some { s with loop := .due rest }
    | _ => none
  | .fire now => match s.loop with
    | .due ((oldFireAt, record) :: rest) => some { s with
        loop := .rescheduling oldFireAt record (nextFireAfter cron now record.mode) rest
        trace := s.trace ++ [.fired record.jobId] }
    | _ => none
  | .reschedule => match s.loop with
    | .rescheduling oldFireAt record next rest =>
      some { s with tables := s.tables.reschedule oldFireAt record next, loop := .due rest }
    | _ => none
  | .finish => match s.loop with
    | .due [] => some { s with loop := .idle }
    | _ => none
  | .abandon => some { s with loop := .idle }

theorem SchedulerState.apply_sound {cron : Cron} {s s' : SchedulerState} {a : SchedulerMove}
    (h : s.apply cron a = some s') : SchedulerStep cron s a s' := by
  cases a with
  | schedule now request =>
    simp only [apply] at h
    split_ifs at h with hfresh
    obtain ⟨t', ht, rfl⟩ := Option.map_eq_some_iff.mp h
    exact .schedule (Fallible.ok_of_toOption ht) hfresh
  | cancel id =>
    cases h
    exact .cancel id
  | collect now =>
    simp only [apply] at h
    split at h
    · rename_i hl
      obtain ⟨due, hdue, rfl⟩ := Option.map_eq_some_iff.mp h
      exact .collect now hl (Fallible.ok_of_toOption hdue)
    · cases h
  | missing =>
    simp only [apply] at h
    split at h
    · rename_i hl
      cases h
      exact .missing hl
    · cases h
  | fire now =>
    simp only [apply] at h
    split at h
    · rename_i hl
      cases h
      exact .fire now hl
    · cases h
  | reschedule =>
    simp only [apply] at h
    split at h
    · rename_i hl
      cases h
      exact .reschedule hl
    · cases h
  | finish =>
    simp only [apply] at h
    split at h
    · rename_i hl
      cases h
      exact .finish hl
    · cases h
  | abandon =>
    cases h
    exact .abandon

/-! ## The tables agree -/

/-- The timers that the loop has read and is not through with. -/
def Loop.pending : Loop → List (ℕ × Timer)
  | .idle => []
  | .due rest => rest
  | .rescheduling oldFireAt record _ rest => (oldFireAt, record) :: rest

/-- What a run keeps: a timer that the loop has read is stored under the time it was read with, or it
is no longer stored. -/
structure Consistent (s : SchedulerState) (m : JobId → Option (ℕ × StoredTimer)) : Prop where
  holds : s.tables.Holds m
  issued : ∀ id, m id ≠ none → id ∈ s.issued
  pending : ∀ d ∈ s.loop.pending, d.2.jobId ∈ s.issued ∧ DelayInRange d.2.mode ∧
    ∀ r, m d.2.jobId = some r → r.1 = d.1
  distinct : (s.loop.pending.map (·.2.jobId)).Nodup

namespace Consistent

variable {cron : Cron} {s s' : SchedulerState} {m : JobId → Option (ℕ × StoredTimer)}

theorem release (h : Consistent s m) {l : Loop} (hl : l.pending.Sublist s.loop.pending)
    (trace : List SchedulerEvent) : Consistent { s with loop := l, trace := trace } m :=
  ⟨h.holds, h.issued, fun d hd => h.pending d (hl.subset hd), h.distinct.sublist (hl.map _)⟩

theorem schedule (h : Consistent s m) {record : Timer} (hfresh : record.jobId ∉ s.issued)
    (hdelay : DelayInRange record.mode) (runAt : Time) :
    Consistent { s with tables := s.tables.insertNew record runAt, issued := record.jobId :: s.issued }
      (Function.update m record.jobId (some (fireAtMs runAt, .fromRecord record))) := by
  have hnew : m record.jobId = none := not_imp_comm.mp (h.issued record.jobId) hfresh
  refine ⟨h.holds.insertNew hnew hdelay runAt, ?_, ?_, h.distinct⟩
  · intro id hid
    by_cases heq : id = record.jobId
    · exact heq ▸ List.mem_cons_self
    · rw [Function.update_of_ne heq] at hid
      exact List.mem_cons_of_mem _ (h.issued id hid)
  · intro d hd
    obtain ⟨hissued, hrange, hrank⟩ := h.pending d hd
    have hne : d.2.jobId ≠ record.jobId := fun heq => hfresh (heq ▸ hissued)
    refine ⟨List.mem_cons_of_mem _ hissued, hrange, ?_⟩
    rw [Function.update_of_ne hne]
    exact hrank

theorem cancel (h : Consistent s m) (id : JobId) :
    Consistent (s.cancel id) (Function.update m id none) := by
  refine ⟨h.holds.cancel id, ?_, ?_, h.distinct⟩
  · intro id' hid'
    by_cases heq : id' = id
    · simp [heq] at hid'
    · exact h.issued id' (by simpa [heq] using hid')
  · intro d hd
    obtain ⟨hissued, hrange, hrank⟩ := h.pending d hd
    refine ⟨hissued, hrange, ?_⟩
    intro r hr
    by_cases heq : d.2.jobId = id
    · simp [heq] at hr
    · exact hrank r (by simpa [heq] using hr)

theorem collect (h : Consistent s m) {now : Instant} {due : List (ℕ × Timer)}
    (hdue : s.tables.collectDue now.ms = .ok due) : Consistent { s with loop := .due due } m := by
  refine ⟨h.holds, h.issued, ?_, h.holds.collectDue_nodup hdue⟩
  intro d hd
  obtain ⟨stored, hm, _, hrecord⟩ := (h.holds.mem_collectDue now.ms_fits hdue).mp hd
  have hid : d.2.jobId = stored.jobId := by
    rw [hrecord]
    rfl
  refine ⟨?_, ?_, ?_⟩
  · exact h.issued _ (by simp [hid, hm])
  · rw [hrecord]
    exact h.holds.delays _ _ hm
  · intro r hr
    rw [hid, hm] at hr
    cases hr
    rfl

theorem reschedule (h : Consistent s m) {oldFireAt : ℕ} {record : Timer} {next : Option Time}
    {rest : List (ℕ × Timer)} (hl : s.loop = .rescheduling oldFireAt record next rest) :
    Consistent { s with tables := s.tables.reschedule oldFireAt record next, loop := .due rest }
      (Function.update m record.jobId
        (next.map fun runAt => (fireAtMs runAt, .fromRecord record))) := by
  have hpending := h.pending
  have hdistinct := h.distinct
  rw [hl] at hpending hdistinct
  obtain ⟨hissued, hrange, hrank⟩ := hpending _ List.mem_cons_self
  refine ⟨h.holds.reschedule hrank hrange next, ?_, ?_, (List.nodup_cons.mp hdistinct).2⟩
  · intro id hid
    by_cases heq : id = record.jobId
    · exact heq ▸ hissued
    · exact h.issued id (by simpa [heq] using hid)
  · intro d hd
    obtain ⟨hissued', hrange', hrank'⟩ := hpending d (List.mem_cons_of_mem _ hd)
    -- the rest of the snapshot has other ids
    have hne : d.2.jobId ≠ record.jobId := by
      intro heq
      exact (List.nodup_cons.mp hdistinct).1 (List.mem_map.mpr ⟨d, hd, heq⟩)
    refine ⟨hissued', hrange', ?_⟩
    rw [Function.update_of_ne hne]
    exact hrank'

theorem step {a : SchedulerMove} (h : Consistent s m) (hs : SchedulerStep cron s a s') :
    ∃ m', Consistent s' m' := by
  cases hs with
  | schedule hsched hfresh =>
    obtain ⟨record, runAt, hid, hdelay, rfl⟩ := Tables.schedule_insertNew hsched
    rw [← hid] at hfresh ⊢
    exact ⟨_, h.schedule hfresh hdelay runAt⟩
  | cancel id => exact ⟨_, h.cancel id⟩
  | collect now _ hdue => exact ⟨m, h.collect hdue⟩
  | missing hl =>
    refine ⟨m, h.release ?_ s.trace⟩
    rw [hl]
    exact List.sublist_cons_self _ _
  | fire now hl =>
    refine ⟨m, h.release ?_ _⟩
    rw [hl]
    exact List.Sublist.refl _
  | reschedule hl => exact ⟨_, h.reschedule hl⟩
  | finish _ => exact ⟨m, h.release (l := .idle) (List.nil_sublist _) s.trace⟩
  | abandon => exact ⟨m, h.release (l := .idle) (List.nil_sublist _) s.trace⟩

end Consistent

theorem SchedulerState.start_consistent : Consistent .start fun _ => none :=
  ⟨Tables.holds_empty, by simp, by simp [start, Loop.pending], by simp [start, Loop.pending]⟩

theorem SchedulerState.Reachable.consistent {cron : Cron} {s : SchedulerState}
    (h : s.Reachable cron) : ∃ m, Consistent s m := by
  induction h with
  | start h => exact ⟨_, h ▸ start_consistent⟩
  | tail _ _ hs ih =>
    obtain ⟨m, hc⟩ := ih
    exact hc.step hs

/-- The rows of one table are the rows of the other, and a job id has one row. -/
def Tables.InBijection (t : Tables) : Prop :=
  (∀ j f, t.timersById.get j = some f ↔ (t.timers.get (toLex (f, j))).isSome) ∧
    ∀ j f f', (t.timers.get (toLex (f, j))).isSome → (t.timers.get (toLex (f', j))).isSome → f = f'

theorem Tables.Holds.inBijection {t : Tables} {m : JobId → Option (ℕ × StoredTimer)}
    (h : t.Holds m) : t.InBijection := by
  have hrow : ∀ j f, (t.timers.get (toLex (f, j))).isSome ↔ (m j).map Prod.fst = some f := by
    intro j f
    rw [Option.isSome_iff_exists, Option.map_eq_some_iff]
    simp only [Table.get_eq_some_iff, h.ranks.rows, Prod.exists]
    constructor
    · rintro ⟨v, hm⟩
      exact ⟨f, v, hm, rfl⟩
    · rintro ⟨_, v, hm, rfl⟩
      exact ⟨v, hm⟩
  refine ⟨?_, ?_⟩
  · intro j f
    rw [hrow, h.ranks.get_index]
  · intro j f f' hf hf'
    rw [hrow] at hf hf'
    exact Option.some.inj (hf.symm.trans hf')

theorem timers_in_bijection {cron : Cron} {s : SchedulerState} (h : s.Reachable cron) :
    s.tables.InBijection := by
  obtain ⟨m, hm⟩ := h.consistent
  exact hm.holds.inBijection

/-- The expression that fires every second, and no other. -/
def everySecond : Cron := fun expr =>
  if expr = "* * * * * *" then .ok fun now => some ((now / 1000000000 + 1) * 1000000000)
  else .error "Invalid expression."

def heartbeat : Timer where
  jobId := 7
  workflow := "heartbeat"
  input := .null
  namespace_ := "konf:demo"
  capabilities := []
  actor := ⟨"alice", .user⟩
  mode := .once
  createdAt := 0
  createdBy := "alice"

def later : Instant := ⟨2000 * 1000000, by decide, by decide⟩

/-- The timer is due, and it is cancelled after the tick has read it. -/
def raceMoves : List SchedulerMove :=
  [.schedule epoch (.fixed heartbeat 1000), .collect later, .cancel 7, .fire later, .reschedule]

/-- The cancelled timer is back, in both tables. -/
theorem timers_in_bijection_race : ∃ s : SchedulerState, s.Reachable everySecond ∧
    s.tables.timersById.get 7 = some 3000 ∧ s.tables.InBijection := by
  have hrun : (exec (SchedulerState.apply everySecond) .start raceMoves).any (fun s =>
      decide (s.tables.timersById.get 7 = some 3000)) = true := by
    decide +kernel
  obtain ⟨s, hexec, hs⟩ := (Option.any_eq_true ..).mp hrun
  have hreach : s.Reachable everySecond :=
    exec_reaches (fun _ _ _ => SchedulerState.apply_sound) (.start rfl) hexec
  exact ⟨s, hreach, of_decide_eq_true hs, timers_in_bijection hreach⟩

end Konf.Scheduler
