import Konf.Scheduler.Polling

/-! # What becomes of a timer

However the transactions interleave and wherever a tick breaks off, a timer that was accepted stays
stored as it was accepted, until it is cancelled or has fired for the last time. -/

namespace Konf.Scheduler
open Konf.Substrate Konf.Runtime Konf.Journal Konf.Transition
set_option autoImplicit false

/-! ## What is accepted -/

/-- The timer that is stored for a request. -/
def Request.timer : Request → Timer
  | .once record _ => { record with mode := .once }
  | .fixed record delayMs => { record with mode := .fixed delayMs }
  | .cron record expr => { record with mode := .cron expr }

/-- When a request is first due. -/
def Request.firstFire (cron : Cron) (now : Instant) : Request → Option Time
  | .once _ runAt => some runAt
  | .fixed _ delayMs => nextFireAfter cron now (.fixed delayMs)
  | .cron _ expr => nextFireAfter cron now (.cron expr)

theorem Request.timer_jobId (request : Request) : request.timer.jobId = request.jobId := by
  cases request <;> rfl

theorem Tables.schedule_accepted {cron : Cron} {now : Instant} {request : Request} {t t' : Tables}
    (h : t.schedule cron now request = .ok t') :
    ∃ runAt, request.firstFire cron now = some runAt ∧ DelayInRange request.timer.mode ∧
      t' = t.insertNew request.timer runAt := by
  cases request with
  | once record runAt =>
    obtain ⟨_, _, ht⟩ := Fallible.bind_ok h
    cases ht
    exact ⟨runAt, rfl, by simp [DelayInRange, Request.timer], rfl⟩
  | fixed record delayMs =>
    simp only [schedule, scheduleFixed] at h
    split_ifs at h with hrange
    obtain ⟨_, _, ht⟩ := Fallible.bind_ok h
    cases ht
    refine ⟨_, rfl, ?_, rfl⟩
    intro d hd
    cases hd
    exact hrange
  | cron record expr =>
    obtain ⟨_, _, h⟩ := Fallible.bind_ok h
    obtain ⟨upcoming, hparse, h⟩ := Fallible.bind_ok h
    cases hnext : upcoming now.time with
    | none => simp [hnext] at h
    | some runAt =>
      simp only [hnext, Except.ok.injEq] at h
      refine ⟨runAt, ?_, by simp [DelayInRange, Request.timer], h.symm⟩
      rw [Request.firstFire, nextFireAfter, Fallible.mapError_ok hparse]
      exact hnext

/-! ## The scheduler and its history -/

/-- A fire: the time that the timer was read with, the reading of that tick, the reading from which the
next fire time is computed, and whether the tick was cut off before it wrote that time. -/
structure Fire where
  id : JobId
  dueMs : ℕ
  tick : Instant
  at_ : Instant
  cut : Bool

/-- The scheduler with the timers it has accepted and when they were first due, the reading of its last
tick, and its fires. -/
structure Watched where
  sched : SchedulerState
  accepted : List (Timer × ℕ)
  tick : Instant
  fires : List Fire

/-- When the loop breaks off, the last fire is cut off if its timer was still to be rescheduled. -/
def Loop.cutOff (fires : List Fire) : Loop → List Fire
  | .rescheduling .. =>
    fires.dropLast ++ fires.getLast?.toList.map fun f => { f with cut := true }
  | .idle | .due _ => fires

/-- What a move adds to the history. -/
def Watched.after (cron : Cron) (w : Watched) (s' : SchedulerState) : SchedulerMove → Watched
  | .schedule now request => { w with
      sched := s'
      accepted := w.accepted ++
        (request.firstFire cron now).toList.map fun runAt => (request.timer, fireAtMs runAt) }
  | .collect now => { w with sched := s', tick := now }
  | .fire now => { w with
      sched := s'
      fires := w.fires ++
        w.sched.loop.pending.head?.toList.map fun d => ⟨d.2.jobId, d.1, w.tick, now, false⟩ }
  | .abandon => { w with sched := s', fires := w.sched.loop.cutOff w.fires }
  | .cancel _ | .missing | .reschedule | .finish => { w with sched := s' }

theorem Watched.after_fire {cron : Cron} {w : Watched} {s' : SchedulerState} {now : Instant}
    {oldFireAt : ℕ} {record : Timer} {rest : List (ℕ × Timer)}
    (hl : w.sched.loop = .due ((oldFireAt, record) :: rest)) :
    w.after cron s' (.fire now) = { w with
      sched := s', fires := w.fires ++ [⟨record.jobId, oldFireAt, w.tick, now, false⟩] } := by
  simp [after, hl, Loop.pending]

theorem Loop.cutOff_concat {oldFireAt : ℕ} {record : Timer} {next : Option Time}
    {rest : List (ℕ × Timer)} (fires : List Fire) (f : Fire) :
    (Loop.rescheduling oldFireAt record next rest).cutOff (fires ++ [f]) =
      fires ++ [{ f with cut := true }] := by
  rw [cutOff, List.dropLast_concat, List.getLast?_concat]
  rfl

inductive WatchedStep (cron : Cron) (w : Watched) (a : SchedulerMove) : Watched → Prop
  | step {s' : SchedulerState} (h : SchedulerStep cron w.sched a s') :
      WatchedStep cron w a (w.after cron s' a)

def Watched.start : Watched := ⟨.start, [], epoch, []⟩

def Watched.Reachable (cron : Cron) : Watched → Prop := Reaches (WatchedStep cron) (· = .start)

/-- The state after a move, when the move is possible. -/
def Watched.apply (cron : Cron) (w : Watched) (a : SchedulerMove) : Option Watched :=
  (w.sched.apply cron a).map fun s' => w.after cron s' a

theorem Watched.apply_sound {cron : Cron} {w w' : Watched} {a : SchedulerMove}
    (h : w.apply cron a = some w') : WatchedStep cron w a w' := by
  obtain ⟨s', hs, rfl⟩ := Option.map_eq_some_iff.mp h
  exact .step (SchedulerState.apply_sound hs)

theorem Watched.reachable_of_exec {cron : Cron} {moves : List SchedulerMove} {w : Watched}
    (h : exec (Watched.apply cron) .start moves = some w) : w.Reachable cron :=
  exec_reaches (fun _ _ _ => Watched.apply_sound) (.start rfl) h

/-! ## Nothing is lost -/

/-- A timer has gone: it has been cancelled, or it has fired and there was no next time. -/
def Gone (cron : Cron) (trace : List SchedulerEvent) (fires : List Fire) (record : Timer) : Prop :=
  .cancelled record.jobId ∈ trace ∨
    ∃ f ∈ fires, f.id = record.jobId ∧ nextFireAfter cron f.at_ record.mode = none

/-- The fires are still there, some of them cut off. -/
def Recorded (fires fires' : List Fire) : Prop :=
  ∀ f ∈ fires, ∃ f' ∈ fires', f'.id = f.id ∧ f'.at_ = f.at_

theorem Recorded.of_subset {fires fires' : List Fire} (h : fires ⊆ fires') : Recorded fires fires' :=
  fun f hf => ⟨f, h hf, rfl, rfl⟩

theorem Recorded.refl (fires : List Fire) : Recorded fires fires :=
  .of_subset (List.Subset.refl _)

theorem Recorded.cutOff (l : Loop) (fires : List Fire) : Recorded fires (l.cutOff fires) := by
  cases l with
  | idle | due => exact .refl fires
  | rescheduling =>
    obtain rfl | ⟨pre, last, rfl⟩ := fires.eq_nil_or_concat
    · intro f hf
      cases hf
    · rw [List.concat_eq_append, Loop.cutOff_concat]
      intro f hf
      obtain hf | hf := List.mem_append.mp hf
      · exact ⟨f, List.mem_append_left _ hf, rfl, rfl⟩
      · rw [List.mem_singleton.mp hf]
        exact ⟨_, List.mem_append_right _ (List.mem_singleton_self _), rfl, rfl⟩

theorem Gone.mono {cron : Cron} {trace trace' : List SchedulerEvent} {fires fires' : List Fire}
    {record : Timer} (h : Gone cron trace fires record) (htrace : trace ⊆ trace')
    (hfires : Recorded fires fires') : Gone cron trace' fires' record := by
  obtain hcancelled | ⟨f, hf, hown, hlast⟩ := h
  · exact .inl (htrace hcancelled)
  · obtain ⟨f', hf', hid, hat⟩ := hfires f hf
    exact .inr ⟨f', hf', hid.trans hown, hat ▸ hlast⟩

/-- Accepted timers are stored as they were accepted, and what is not stored has gone. -/
structure Durable (cron : Cron) (w : Watched) (m : JobId → Option (ℕ × StoredTimer)) : Prop where
  consistent : Consistent w.sched m
  issued : ∀ id, id ∈ w.sched.issued ↔ ∃ a ∈ w.accepted, a.1.jobId = id
  distinct : (w.accepted.map (·.1.jobId)).Nodup
  stored : ∀ id r, m id = some r → ∃ a ∈ w.accepted, r.2 = .fromRecord a.1
  pending : ∀ d ∈ w.sched.loop.pending, ∃ a ∈ w.accepted, StoredTimer.fromRecord d.2 = .fromRecord a.1
  gone : ∀ a ∈ w.accepted, m a.1.jobId = none → Gone cron w.sched.trace w.fires a.1
  fired : ∀ oldFireAt record next rest, w.sched.loop = .rescheduling oldFireAt record next rest →
    ∃ f ∈ w.fires, f.id = record.jobId ∧ next = nextFireAfter cron f.at_ record.mode

namespace Durable
variable {cron : Cron} {w : Watched} {m : JobId → Option (ℕ × StoredTimer)}

/-- Of two accepted timers with one id there is one. -/
theorem unique (h : Durable cron w m) {a b : Timer × ℕ} (ha : a ∈ w.accepted) (hb : b ∈ w.accepted)
    (hid : a.1.jobId = b.1.jobId) : a = b :=
  List.inj_on_of_nodup_map h.distinct ha hb hid

theorem issued_of_mem (h : Durable cron w m) {a : Timer × ℕ} (ha : a ∈ w.accepted) :
    a.1.jobId ∈ w.sched.issued :=
  (h.issued _).mpr ⟨a, ha, rfl⟩

theorem schedule (h : Durable cron w m) {now : Instant} {request : Request} {t' : Tables}
    (hschedule : w.sched.tables.schedule cron now request = .ok t')
    (hfresh : request.jobId ∉ w.sched.issued) {s' : SchedulerState}
    (hs' : s' = { w.sched with tables := t', issued := request.jobId :: w.sched.issued }) :
    ∃ runAt, request.firstFire cron now = some runAt ∧ Durable cron (w.after cron s' (.schedule now request))
      (Function.update m request.timer.jobId (some (fireAtMs runAt, .fromRecord request.timer))) := by
  obtain ⟨runAt, hfirst, hdelay, rfl⟩ := Tables.schedule_accepted hschedule
  have hid := request.timer_jobId
  rw [← hid] at hfresh hs'
  subst hs'
  refine ⟨runAt, hfirst, h.consistent.schedule hfresh hdelay runAt, ?_, ?_, ?_, ?_, ?_, h.fired⟩
  all_goals simp only [Watched.after, hfirst, Option.toList_some, List.map_cons, List.map_nil]
  · intro id
    constructor
    · intro hmem
      obtain rfl | hmem := List.mem_cons.mp hmem
      · exact ⟨_, List.mem_append_right _ (List.mem_singleton_self _), rfl⟩
      · obtain ⟨a, ha, rfl⟩ := (h.issued id).mp hmem
        exact ⟨a, List.mem_append_left _ ha, rfl⟩
    · rintro ⟨a, ha, rfl⟩
      obtain ha | ha := List.mem_append.mp ha
      · exact List.mem_cons_of_mem _ (h.issued_of_mem ha)
      · rw [List.mem_singleton.mp ha]
        exact List.mem_cons_self
  · rw [List.map_append]
    refine h.distinct.append (List.nodup_singleton _) (List.disjoint_singleton.mpr ?_)
    intro hmem
    obtain ⟨a, ha, heq⟩ := List.mem_map.mp hmem
    have heq : a.1.jobId = request.timer.jobId := heq
    exact hfresh (heq ▸ h.issued_of_mem ha)
  · intro id r hm
    by_cases heq : id = request.timer.jobId
    · subst heq
      rw [Function.update_self, Option.some.injEq] at hm
      subst hm
      exact ⟨_, List.mem_append_right _ (List.mem_singleton_self _), rfl⟩
    · rw [Function.update_of_ne heq] at hm
      obtain ⟨a, ha, hstored⟩ := h.stored id r hm
      exact ⟨a, List.mem_append_left _ ha, hstored⟩
  · intro d hd
    obtain ⟨a, ha, hsame⟩ := h.pending d hd
    exact ⟨a, List.mem_append_left _ ha, hsame⟩
  · intro a ha hnone
    obtain ha | ha := List.mem_append.mp ha
    · have hne : a.1.jobId ≠ request.timer.jobId := fun heq => hfresh (heq ▸ h.issued_of_mem ha)
      rw [Function.update_of_ne hne] at hnone
      exact h.gone a ha hnone
    · rw [List.mem_singleton.mp ha, Function.update_self] at hnone
      cases hnone

theorem cancel (h : Durable cron w m) (id : JobId) :
    Durable cron { w with sched := w.sched.cancel id } (Function.update m id none) := by
  have htrace : w.sched.trace ⊆ (w.sched.cancel id).trace := by
    unfold SchedulerState.cancel
    split_ifs
    · exact List.subset_append_left _ _
    · exact List.Subset.refl _
  refine ⟨h.consistent.cancel id, h.issued, h.distinct, ?_, h.pending, ?_, h.fired⟩
  · intro id' r hm
    by_cases heq : id' = id
    · simp [heq] at hm
    · exact h.stored id' r (by simpa [heq] using hm)
  · intro a ha hnone
    by_cases hold : m a.1.jobId = none
    · exact (h.gone a ha hold).mono htrace (.refl _)
    · have heq : a.1.jobId = id := by
        by_contra hne
        exact hold (by simpa [hne] using hnone)
      have hexisted : (w.sched.tables.cancel id).1 = true := by
        rw [h.consistent.holds.existed, ← heq]
        exact Option.isSome_iff_ne_none.mpr hold
      left
      show _ ∈ (w.sched.cancel id).trace
      rw [SchedulerState.cancel, if_pos hexisted, heq]
      exact List.mem_append_right _ (List.mem_singleton_self _)

/-- The loop moves on, and nothing is written. -/
theorem quiet (h : Durable cron w m) {s' : SchedulerState} (hc : Consistent s' m)
    (hissued : s'.issued = w.sched.issued) (htrace : w.sched.trace ⊆ s'.trace) {fires : List Fire}
    (hfires : Recorded w.fires fires)
    (hpending : ∀ d ∈ s'.loop.pending, ∃ a ∈ w.accepted, StoredTimer.fromRecord d.2 = .fromRecord a.1)
    (hfired : ∀ oldFireAt record next rest, s'.loop = .rescheduling oldFireAt record next rest →
      ∃ f ∈ fires, f.id = record.jobId ∧ next = nextFireAfter cron f.at_ record.mode)
    (tick : Instant) : Durable cron ⟨s', w.accepted, tick, fires⟩ m :=
  ⟨hc, fun id => hissued ▸ h.issued id, h.distinct, h.stored, hpending,
    fun a ha hnone => (h.gone a ha hnone).mono htrace hfires, hfired⟩

theorem collect (h : Durable cron w m) {now : Instant} {due : List (ℕ × Timer)}
    (hdue : w.sched.tables.collectDue now.ms = .ok due) :
    Durable cron { w with sched := { w.sched with loop := .due due }, tick := now } m := by
  refine h.quiet (h.consistent.collect hdue) rfl (List.Subset.refl _) (.refl _) ?_ nofun _
  intro d hd
  obtain ⟨stored, hm, -, hrecord⟩ := (h.consistent.holds.mem_collectDue now.ms_fits hdue).mp hd
  obtain ⟨a, ha, hsame⟩ := h.stored _ _ hm
  refine ⟨a, ha, ?_⟩
  rw [hrecord, StoredTimer.fromRecord_timer]
  exact hsame

theorem missing (h : Durable cron w m) {d : ℕ × Timer} {rest : List (ℕ × Timer)}
    (hl : w.sched.loop = .due (d :: rest)) :
    Durable cron { w with sched := { w.sched with loop := .due rest } } m := by
  have hpending := h.pending
  rw [hl] at hpending
  have hsub : (Loop.due rest).pending.Sublist w.sched.loop.pending := by
    rw [hl]
    exact List.sublist_cons_self _ _
  refine h.quiet (h.consistent.release hsub w.sched.trace) rfl (List.Subset.refl _) (.refl _) ?_ nofun _
  intro d' hd
  exact hpending d' (List.mem_cons_of_mem _ hd)

theorem idle (h : Durable cron w m) {fires : List Fire} (hfires : Recorded w.fires fires) :
    Durable cron { w with sched := { w.sched with loop := .idle }, fires := fires } m :=
  h.quiet (h.consistent.release (l := .idle) (List.nil_sublist _) w.sched.trace) rfl (List.Subset.refl _)
    hfires nofun nofun w.tick

theorem fire (h : Durable cron w m) {oldFireAt : ℕ} {record : Timer} {rest : List (ℕ × Timer)}
    (now : Instant) (hl : w.sched.loop = .due ((oldFireAt, record) :: rest)) :
    Durable cron { w with
      sched := { w.sched with
        loop := .rescheduling oldFireAt record (nextFireAfter cron now record.mode) rest
        trace := w.sched.trace ++ [.fired record.jobId] }
      fires := w.fires ++ [⟨record.jobId, oldFireAt, w.tick, now, false⟩] } m := by
  have hpending := h.pending
  rw [hl] at hpending
  have hsub : (Loop.rescheduling oldFireAt record (nextFireAfter cron now record.mode) rest).pending.Sublist
      w.sched.loop.pending := by
    rw [hl]
    exact List.Sublist.refl _
  refine h.quiet (h.consistent.release hsub (w.sched.trace ++ [.fired record.jobId])) rfl
    (List.subset_append_left _ _) (.of_subset (List.subset_append_left _ _)) hpending ?_ _
  rintro _ _ _ _ ⟨⟩
  exact ⟨_, List.mem_append_right _ (List.mem_singleton_self _), rfl, rfl⟩

theorem reschedule (h : Durable cron w m) {oldFireAt : ℕ} {record : Timer} {next : Option Time}
    {rest : List (ℕ × Timer)} (hl : w.sched.loop = .rescheduling oldFireAt record next rest) :
    Durable cron { w with sched := { w.sched with
        tables := w.sched.tables.reschedule oldFireAt record next, loop := .due rest } }
      (Function.update m record.jobId
        (next.map fun runAt => (fireAtMs runAt, .fromRecord record))) := by
  have hpending := h.pending
  rw [hl] at hpending
  obtain ⟨b, hb, hrecord⟩ := hpending _ List.mem_cons_self
  obtain ⟨f, hf, hown, hnext⟩ := h.fired _ _ _ _ hl
  have hid : record.jobId = b.1.jobId := congrArg (·.jobId) hrecord
  have hmode : record.mode = b.1.mode := congrArg (·.mode) hrecord
  refine ⟨h.consistent.reschedule hl, h.issued, h.distinct, ?_, ?_, ?_, nofun⟩
  · intro id r hm
    by_cases heq : id = record.jobId
    · subst heq
      rw [Function.update_self, Option.map_eq_some_iff] at hm
      obtain ⟨runAt, -, rfl⟩ := hm
      exact ⟨b, hb, hrecord⟩
    · rw [Function.update_of_ne heq] at hm
      exact h.stored id r hm
  · intro d hd
    exact hpending d (List.mem_cons_of_mem _ hd)
  · intro a ha hnone
    by_cases heq : a.1.jobId = record.jobId
    · rw [heq, Function.update_self, Option.map_eq_none_iff] at hnone
      rw [h.unique ha hb (heq.trans hid)]
      exact .inr ⟨f, hf, hown.trans hid, by rw [← hmode, ← hnext, hnone]⟩
    · rw [Function.update_of_ne heq] at hnone
      exact h.gone a ha hnone

theorem step (h : Durable cron w m) {a : SchedulerMove} {w' : Watched} (hs : WatchedStep cron w a w') :
    ∃ m', Durable cron w' m' := by
  obtain ⟨hs⟩ := hs
  cases hs with
  | schedule hschedule hfresh =>
    obtain ⟨runAt, -, hafter⟩ := h.schedule hschedule hfresh rfl
    exact ⟨_, hafter⟩
  | cancel id => exact ⟨_, h.cancel id⟩
  | collect now hl hdue => exact ⟨m, h.collect hdue⟩
  | missing hl => exact ⟨m, h.missing hl⟩
  | fire now hl =>
    refine ⟨m, ?_⟩
    rw [Watched.after_fire hl]
    exact h.fire now hl
  | reschedule hl => exact ⟨_, h.reschedule hl⟩
  | finish hl => exact ⟨m, h.idle (.refl _)⟩
  | abandon => exact ⟨m, h.idle (.cutOff _ _)⟩

end Durable

theorem Watched.start_durable (cron : Cron) : Durable cron .start fun _ => none :=
  ⟨SchedulerState.start_consistent, by simp [start, SchedulerState.start], List.nodup_nil, nofun, nofun,
    nofun, nofun⟩

/-- A timer that is fired once, one that goes on, and one that is cancelled. The first tick breaks off
before it has written anything. -/
def brokenMoves : List SchedulerMove :=
  [.schedule epoch (.once heartbeat 1000000000), .schedule epoch (.fixed { heartbeat with jobId := 8 } 1000),
    .schedule epoch (.fixed { heartbeat with jobId := 9 } 5000), .collect later, .fire later, .abandon,
    .collect later, .fire later, .reschedule, .fire later, .reschedule, .finish, .cancel 9]

end Konf.Scheduler
