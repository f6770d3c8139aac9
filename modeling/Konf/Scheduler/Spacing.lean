import Mathlib.Data.List.Chain
import Konf.Scheduler.Durable

/-! # When a timer fires

The fires of one timer follow each other: each is due at the time that was computed from the one before
it, and comes no earlier. Only a fire that was cut off before its timer was rescheduled is repeated. -/

namespace Konf.Scheduler
open Konf.Substrate Konf.Runtime Konf.Journal Konf.Transition
set_option autoImplicit false

/-! ## Schedules -/

/-- When an accepted timer is due after these fires of it: first at its first time, then at the time that
was computed from its last fire, or again at the time of that fire if it was cut off. -/
def Owed (cron : Cron) (a : Timer × ℕ) (fires : List Fire) (dueMs : ℕ) : Prop :=
  match fires.getLast? with
  | none => dueMs = a.2
  | some f =>
    if f.cut then dueMs = f.dueMs
    else ∃ t, nextFireAfter cron f.at_ a.1.mode = some t ∧ dueMs = fireAtMs t

/-- Fires in order, each when its timer is due, by the reading of its tick. -/
inductive OnSchedule (cron : Cron) (a : Timer × ℕ) : List Fire → Prop
  | nil : OnSchedule cron a []
  | snoc {fires : List Fire} {f : Fire} (h : OnSchedule cron a fires)
      (hdue : Owed cron a fires f.dueMs) (htick : f.dueMs ≤ f.tick.ms) : OnSchedule cron a (fires ++ [f])

section Schedules
variable {cron : Cron} {a : Timer × ℕ} {fires : List Fire} {dueMs : ℕ}

theorem Owed.of_cut {f : Fire} (hcut : f.cut = true) (h : dueMs = f.dueMs) :
    Owed cron a (fires ++ [f]) dueMs := by
  simp only [Owed, List.getLast?_concat, hcut, if_true]
  exact h

theorem owed_concat_iff {f : Fire} (hcut : f.cut = false) : Owed cron a (fires ++ [f]) dueMs ↔
    ∃ t, nextFireAfter cron f.at_ a.1.mode = some t ∧ dueMs = fireAtMs t := by
  simp [Owed, hcut]

theorem OnSchedule.front {f : Fire} (h : OnSchedule cron a (fires ++ [f])) :
    OnSchedule cron a fires ∧ Owed cron a fires f.dueMs ∧ f.dueMs ≤ f.tick.ms := by
  generalize hall : fires ++ [f] = all at h
  cases h with
  | nil => simp at hall
  | @snoc pre g h hdue htick =>
    obtain ⟨rfl, hlast⟩ := List.append_inj' hall rfl
    cases hlast
    exact ⟨h, hdue, htick⟩

/-- Whether its last fire was cut off does not matter for the fires so far. -/
theorem OnSchedule.cutOff {f : Fire} (h : OnSchedule cron a (fires ++ [f])) :
    OnSchedule cron a (fires ++ [{ f with cut := true }]) := by
  obtain ⟨hfront, hdue, htick⟩ := h.front
  exact hfront.snoc hdue htick

/-- One fire after another, of a timer none of whose fires was cut off. -/
theorem OnSchedule.chain (h : OnSchedule cron a fires) (hwhole : ∀ f ∈ fires, f.cut = false) :
    fires.IsChain fun f g => ∃ t, nextFireAfter cron f.at_ a.1.mode = some t ∧ fireAtMs t ≤ g.tick.ms := by
  induction h with
  | nil => exact .nil
  | @snoc fires g _ hdue htick ih =>
    have hfront : ∀ f ∈ fires, f.cut = false := fun f hf => hwhole f (List.mem_append_left _ hf)
    refine List.isChain_append.mpr ⟨ih hfront, .singleton g, ?_⟩
    rintro f hlast _ ⟨⟩
    obtain ⟨pre, rfl⟩ := List.getLast?_eq_some_iff.mp hlast
    obtain ⟨t, hnext, hsame⟩ :=
      (owed_concat_iff (hfront f (List.mem_append_right _ (List.mem_singleton_self _)))).mp hdue
    exact ⟨t, hnext, hsame ▸ htick⟩

/-- A timer that fires once. -/
theorem OnSchedule.once (h : OnSchedule cron a fires) (hwhole : ∀ f ∈ fires, f.cut = false)
    (hmode : a.1.mode = .once) : fires.length ≤ 1 := by
  cases h with
  | nil => exact Nat.zero_le 1
  | @snoc fires g _ hdue _ =>
    obtain rfl | ⟨pre, f, rfl⟩ := fires.eq_nil_or_concat
    · exact Nat.le_refl 1
    · rw [List.concat_eq_append] at hdue hwhole
      obtain ⟨t, hnext, -⟩ := (owed_concat_iff (hwhole f (by simp))).mp hdue
      rw [hmode] at hnext
      cases hnext

theorem fireAtMs_delayed {now : ℤ} (hepoch : 0 ≤ now) (delayMs : ℕ) :
    fireAtMs (now + delayMs * 1000000) = fireAtMs now + delayMs := by
  unfold fireAtMs timestampMillis
  omega

/-- A timer with a fixed delay leaves it between a fire and the next tick that fires. -/
theorem OnSchedule.fixed {delayMs : ℕ} (h : OnSchedule cron a fires) (hwhole : ∀ f ∈ fires, f.cut = false)
    (hmode : a.1.mode = .fixed delayMs) : fires.IsChain fun f g => f.at_.ms + delayMs ≤ g.tick.ms := by
  refine (h.chain hwhole).imp ?_
  rintro f g ⟨t, hnext, hdue⟩
  rw [hmode] at hnext
  cases hnext
  rwa [fireAtMs_delayed f.at_.epoch] at hdue

end Schedules

/-! ## The fires of a run -/

def firesOf (fires : List Fire) (id : JobId) : List Fire := fires.filter fun f => f.id = id

def Watched.firesOf (w : Watched) (id : JobId) : List Fire := Scheduler.firesOf w.fires id

theorem firesOf_concat_self (fires : List Fire) (f : Fire) :
    firesOf (fires ++ [f]) f.id = firesOf fires f.id ++ [f] := by
  simp [firesOf]

theorem firesOf_concat_other (fires : List Fire) {f : Fire} {id : JobId} (hne : id ≠ f.id) :
    firesOf (fires ++ [f]) id = firesOf fires id := by
  simp [firesOf, hne.symm]

/-- The timers that the tick has read and not come to yet. -/
def Loop.waiting : Loop → List (ℕ × Timer)
  | .idle => []
  | .due rest | .rescheduling _ _ _ rest => rest

theorem Loop.waiting_subset (l : Loop) : l.waiting ⊆ l.pending := by
  cases l with
  | idle | due => exact List.Subset.refl _
  | rescheduling => exact List.subset_cons_self _ _

/-- The timer that has been fired and not rescheduled yet. -/
def Loop.fired : Loop → List JobId
  | .rescheduling _ record _ _ => [record.jobId]
  | .idle | .due _ => []

/-- The fires so far are on schedule, and what is stored or waits to be fired is due as it should. -/
structure Spaced (cron : Cron) (w : Watched) (m : JobId → Option (ℕ × StoredTimer)) : Prop where
  known : ∀ f ∈ w.fires, f.id ∈ w.sched.issued
  counted : ∀ id, (w.firesOf id).length = w.sched.trace.count (.fired id)
  onSchedule : ∀ a ∈ w.accepted, OnSchedule cron a (w.firesOf a.1.jobId)
  stored : ∀ a ∈ w.accepted, ∀ r, m a.1.jobId = some r → a.1.jobId ∉ w.sched.loop.fired →
    Owed cron a (w.firesOf a.1.jobId) r.1
  waiting : ∀ d ∈ w.sched.loop.waiting, d.1 ≤ w.tick.ms ∧
    ∀ a ∈ w.accepted, a.1.jobId = d.2.jobId → Owed cron a (w.firesOf a.1.jobId) d.1
  midway : ∀ oldFireAt record next rest, w.sched.loop = .rescheduling oldFireAt record next rest →
    ∃ pre f, w.fires = pre ++ [f] ∧ f.id = record.jobId ∧ f.dueMs = oldFireAt ∧ f.cut = false ∧
      next = nextFireAfter cron f.at_ record.mode

namespace Spaced
variable {cron : Cron} {w : Watched} {m : JobId → Option (ℕ × StoredTimer)}

theorem schedule (h : Spaced cron w m) (hd : Durable cron w m) {now : Instant} {request : Request}
    {runAt : Time} (hfirst : request.firstFire cron now = some runAt)
    (hfresh : request.jobId ∉ w.sched.issued) (t' : Tables) :
    Spaced cron (w.after cron { w.sched with tables := t', issued := request.jobId :: w.sched.issued }
        (.schedule now request))
      (Function.update m request.timer.jobId (some (fireAtMs runAt, .fromRecord request.timer))) := by
  have hid := request.timer_jobId
  have hnone : w.firesOf request.timer.jobId = [] := by
    refine List.filter_eq_nil_iff.mpr ?_
    intro f hf heq
    have heq : f.id = request.timer.jobId := of_decide_eq_true heq
    exact hfresh (hid ▸ heq ▸ h.known f hf)
  have hold : ∀ a ∈ w.accepted, a.1.jobId ≠ request.timer.jobId := by
    intro a ha heq
    exact hfresh (hid ▸ heq ▸ hd.issued_of_mem ha)
  refine ⟨fun f hf => List.mem_cons_of_mem _ (h.known f hf), h.counted, ?_, ?_, ?_, h.midway⟩
  all_goals simp only [Watched.after, hfirst, Option.toList_some, List.map_cons, List.map_nil]
  · intro a ha
    obtain ha | ha := List.mem_append.mp ha
    · exact h.onSchedule a ha
    · rw [List.mem_singleton.mp ha]
      show OnSchedule _ _ (w.firesOf request.timer.jobId)
      rw [hnone]
      exact .nil
  · intro a ha r hm hfired
    obtain ha | ha := List.mem_append.mp ha
    · rw [Function.update_of_ne (hold a ha)] at hm
      exact h.stored a ha r hm hfired
    · rw [List.mem_singleton.mp ha] at hm ⊢
      rw [Function.update_self, Option.some.injEq] at hm
      subst hm
      show Owed _ _ (w.firesOf request.timer.jobId) _
      rw [hnone]
      rfl
  · intro d hmem
    obtain ⟨htick, howed⟩ := h.waiting d hmem
    refine ⟨htick, ?_⟩
    intro a ha heq
    obtain ha | ha := List.mem_append.mp ha
    · exact howed a ha heq
    · rw [List.mem_singleton.mp ha] at heq
      have hissued := (hd.consistent.pending d (w.sched.loop.waiting_subset hmem)).1
      have heq : request.timer.jobId = d.2.jobId := heq
      exact absurd (hid ▸ heq ▸ hissued) hfresh

theorem cancel (h : Spaced cron w m) (id : JobId) :
    Spaced cron { w with sched := w.sched.cancel id } (Function.update m id none) := by
  refine ⟨h.known, ?_, h.onSchedule, ?_, h.waiting, h.midway⟩
  · intro id'
    show (w.firesOf id').length = (w.sched.cancel id).trace.count (.fired id')
    rw [h.counted, SchedulerState.cancel]
    split_ifs
    · simp
    · rfl
  · intro a ha r hm
    by_cases heq : a.1.jobId = id
    · simp [heq] at hm
    · exact h.stored a ha r (by simpa [heq] using hm)

theorem collect (h : Spaced cron w m) (hd : Durable cron w m) {now : Instant} {due : List (ℕ × Timer)}
    (hl : w.sched.loop = .idle) (hcollect : w.sched.tables.collectDue now.ms = .ok due) :
    Spaced cron { w with sched := { w.sched with loop := .due due }, tick := now } m := by
  have hstored := h.stored
  rw [hl] at hstored
  refine ⟨h.known, h.counted, h.onSchedule, hstored, ?_, nofun⟩
  intro d hmem
  obtain ⟨stored, hm, hdue, hrecord⟩ := (hd.consistent.holds.mem_collectDue now.ms_fits hcollect).mp hmem
  refine ⟨hdue, ?_⟩
  intro a ha heq
  have hid : a.1.jobId = stored.jobId := by
    rw [heq, hrecord]
    rfl
  exact hstored a ha (d.1, stored) (hid ▸ hm) (List.not_mem_nil)

/-- The loop moves on to what is left of its list. -/
theorem skip (h : Spaced cron w m) {l : Loop} (hold : w.sched.loop.fired = [])
    (hwaiting : ∀ d ∈ l.waiting, d ∈ w.sched.loop.waiting)
    (hmidway : ∀ oldFireAt record next rest, l ≠ .rescheduling oldFireAt record next rest) :
    Spaced cron { w with sched := { w.sched with loop := l } } m := by
  refine ⟨h.known, h.counted, h.onSchedule, ?_, fun d hd => h.waiting d (hwaiting d hd), ?_⟩
  · intro a ha r hm _
    exact h.stored a ha r hm (by simp [hold])
  · intro oldFireAt record next rest hl
    exact absurd hl (hmidway oldFireAt record next rest)

theorem fire (h : Spaced cron w m) (hd : Durable cron w m) {oldFireAt : ℕ} {record : Timer}
    {rest : List (ℕ × Timer)} (now : Instant) (hl : w.sched.loop = .due ((oldFireAt, record) :: rest)) :
    Spaced cron { w with
      sched := { w.sched with
        loop := .rescheduling oldFireAt record (nextFireAfter cron now record.mode) rest
        trace := w.sched.trace ++ [.fired record.jobId] }
      fires := w.fires ++ [⟨record.jobId, oldFireAt, w.tick, now, false⟩] } m := by
  have hwaiting := h.waiting
  have hstored := h.stored
  have hdistinct := hd.consistent.distinct
  have hpending := hd.consistent.pending
  rw [hl] at hwaiting hstored hdistinct hpending
  obtain ⟨htick, howed⟩ := hwaiting _ List.mem_cons_self
  have hself := firesOf_concat_self w.fires ⟨record.jobId, oldFireAt, w.tick, now, false⟩
  have hother : ∀ id ≠ record.jobId,
      firesOf (w.fires ++ [⟨record.jobId, oldFireAt, w.tick, now, false⟩]) id = w.firesOf id :=
    fun id hne => firesOf_concat_other w.fires hne
  refine ⟨?_, ?_, ?_, ?_, ?_, ?_⟩
  · intro f hf
    obtain hf | hf := List.mem_append.mp hf
    · exact h.known f hf
    · rw [List.mem_singleton.mp hf]
      exact (hpending _ List.mem_cons_self).1
  · intro id
    have hbefore := h.counted id
    show (firesOf _ _).length = _
    by_cases heq : id = record.jobId
    · rw [heq] at hbefore ⊢
      rw [hself]
      simpa [Watched.firesOf] using hbefore
    · rw [hother _ heq, hbefore]
      simp [Ne.symm heq]
  · intro a ha
    show OnSchedule _ _ (firesOf _ _)
    by_cases heq : a.1.jobId = record.jobId
    · have hsofar := h.onSchedule a ha
      have hnext := howed a ha heq
      rw [heq] at hsofar hnext ⊢
      rw [hself]
      exact hsofar.snoc hnext htick
    · rw [hother _ heq]
      exact h.onSchedule a ha
  · intro a ha r hm hfired
    have hne : a.1.jobId ≠ record.jobId := fun heq => hfired (List.mem_singleton.mpr heq)
    show Owed _ _ (firesOf _ _) _
    rw [hother _ hne]
    exact hstored a ha r hm List.not_mem_nil
  · intro d hmem
    obtain ⟨hlate, hdue⟩ := hwaiting d (List.mem_cons_of_mem _ hmem)
    refine ⟨hlate, ?_⟩
    intro a ha heq
    have hne : a.1.jobId ≠ record.jobId := by
      intro hsame
      exact (List.nodup_cons.mp hdistinct).1 (List.mem_map.mpr ⟨d, hmem, heq.symm.trans hsame⟩)
    show Owed _ _ (firesOf _ _) _
    rw [hother _ hne]
    exact hdue a ha heq
  · rintro _ _ _ _ ⟨⟩
    exact ⟨w.fires, _, rfl, rfl, rfl, rfl, rfl⟩

theorem reschedule (h : Spaced cron w m) (hd : Durable cron w m) {oldFireAt : ℕ} {record : Timer}
    {next : Option Time} {rest : List (ℕ × Timer)}
    (hl : w.sched.loop = .rescheduling oldFireAt record next rest) :
    Spaced cron { w with sched := { w.sched with
        tables := w.sched.tables.reschedule oldFireAt record next, loop := .due rest } }
      (Function.update m record.jobId
        (next.map fun runAt => (fireAtMs runAt, .fromRecord record))) := by
  have hwaiting := h.waiting
  have hpending := hd.pending
  rw [hl] at hwaiting hpending
  obtain ⟨pre, f, hfires, hown, -, hcut, hnext⟩ := h.midway _ _ _ _ hl
  obtain ⟨b, hb, hrecord⟩ := hpending _ List.mem_cons_self
  have hid : record.jobId = b.1.jobId := congrArg (·.jobId) hrecord
  have hmode : record.mode = b.1.mode := congrArg (·.mode) hrecord
  refine ⟨h.known, h.counted, h.onSchedule, ?_, hwaiting, nofun⟩
  intro a ha r hm _
  by_cases heq : a.1.jobId = record.jobId
  · rw [heq, Function.update_self, Option.map_eq_some_iff] at hm
    obtain ⟨t, ht, rfl⟩ := hm
    have hab : a = b := hd.unique ha hb (heq.trans hid)
    show Owed _ _ (firesOf w.fires _) _
    rw [hfires, heq.trans hown.symm, firesOf_concat_self, owed_concat_iff hcut]
    refine ⟨t, ?_, rfl⟩
    rw [hab, ← hmode, ← hnext, ht]
  · rw [Function.update_of_ne heq] at hm
    refine h.stored a ha r hm ?_
    rw [hl]
    simpa [Loop.fired] using heq

/-- A fire that is cut off is owed again. -/
theorem abandon (h : Spaced cron w m) (hd : Durable cron w m) :
    Spaced cron { w with
      sched := { w.sched with loop := .idle }, fires := w.sched.loop.cutOff w.fires } m := by
  cases hl : w.sched.loop with
  | idle | due =>
    refine ⟨h.known, h.counted, h.onSchedule, ?_, nofun, nofun⟩
    intro a ha r hm _
    exact h.stored a ha r hm (by simp [hl, Loop.fired])
  | rescheduling oldFireAt record next rest =>
    obtain ⟨pre, f, hfires, hown, hdue, -, -⟩ := h.midway _ _ _ _ hl
    have hpending := hd.consistent.pending
    rw [hl] at hpending
    -- the last fire is cut off, and no other is touched
    have hself : w.firesOf record.jobId = firesOf pre f.id ++ [f] := by
      rw [Watched.firesOf, hfires, ← hown, firesOf_concat_self]
    have hself' := firesOf_concat_self pre { f with cut := true }
    have hother : ∀ id ≠ f.id, firesOf (pre ++ [{ f with cut := true }]) id = w.firesOf id := by
      intro id hne
      rw [firesOf_concat_other pre (f := { f with cut := true }) hne, Watched.firesOf, hfires,
        firesOf_concat_other pre hne]
    rw [hfires, Loop.cutOff_concat]
    refine ⟨?_, ?_, ?_, ?_, nofun, nofun⟩
    · intro g hg
      obtain hg | hg := List.mem_append.mp hg
      · exact h.known g (hfires ▸ List.mem_append_left _ hg)
      · rw [List.mem_singleton.mp hg]
        exact h.known f (hfires ▸ List.mem_append_right _ (List.mem_singleton_self _))
    · intro id
      have hbefore := h.counted id
      show (firesOf _ _).length = _
      by_cases heq : id = f.id
      · rw [heq] at hbefore ⊢
        rw [hself', ← hbefore, hown, hself, List.length_append, List.length_append, hown]
        rfl
      · rw [hother id heq, hbefore]
    · intro a ha
      have hsofar := h.onSchedule a ha
      show OnSchedule _ _ (firesOf _ _)
      by_cases heq : a.1.jobId = f.id
      · rw [heq] at hsofar ⊢
        rw [hown, hself] at hsofar
        rw [hself']
        exact hsofar.cutOff
      · rw [hother _ heq]
        exact hsofar
    · intro a ha r hm _
      show Owed _ _ (firesOf _ _) _
      by_cases heq : a.1.jobId = f.id
      · have hrank := (hpending _ List.mem_cons_self).2.2 r (hown ▸ heq ▸ hm)
        rw [heq, hself']
        exact .of_cut rfl (hrank.trans hdue.symm)
      · rw [hother _ heq]
        refine h.stored a ha r hm ?_
        rw [hl]
        simpa [Loop.fired, hown] using heq

theorem step (h : Spaced cron w m) (hd : Durable cron w m) {a : SchedulerMove} {w' : Watched}
    (hs : WatchedStep cron w a w') : ∃ m', Durable cron w' m' ∧ Spaced cron w' m' := by
  obtain ⟨hs⟩ := hs
  cases hs with
  | schedule hschedule hfresh =>
    obtain ⟨runAt, hfirst, hafter⟩ := hd.schedule hschedule hfresh rfl
    exact ⟨_, hafter, h.schedule hd hfirst hfresh _⟩
  | cancel id => exact ⟨_, hd.cancel id, h.cancel id⟩
  | collect now hl hdue => exact ⟨m, hd.collect hdue, h.collect hd hl hdue⟩
  | missing hl =>
    refine ⟨m, hd.missing hl, h.skip (by rw [hl]; rfl) ?_ nofun⟩
    intro d hmem
    rw [hl]
    exact List.mem_cons_of_mem _ hmem
  | fire now hl =>
    rw [Watched.after_fire hl]
    exact ⟨m, hd.fire now hl, h.fire hd now hl⟩
  | reschedule hl => exact ⟨_, hd.reschedule hl, h.reschedule hd hl⟩
  | finish hl => exact ⟨m, hd.idle (.refl _), h.skip (by rw [hl]; rfl) nofun nofun⟩
  | abandon => exact ⟨m, hd.idle (.cutOff _ _), h.abandon hd⟩

end Spaced

theorem Watched.Reachable.spaced {cron : Cron} {w : Watched} (h : w.Reachable cron) :
    ∃ m, Durable cron w m ∧ Spaced cron w m := by
  induction h with
  | start h =>
    subst h
    refine ⟨fun _ => none, Watched.start_durable cron, ?_, fun _ => rfl, ?_, ?_, ?_, ?_⟩
    all_goals simp [Watched.start, SchedulerState.start, Loop.waiting]
  | tail _ _ hs ih =>
    obtain ⟨m, hd, hm⟩ := ih
    exact hm.step hd hs

/-- However the transactions interleave and wherever ticks break off: the fires of an accepted timer are
on schedule, and they are the fires of the trace. If none of them was cut off before the timer was
rescheduled, a timer for one time fires at most once, and one with a fixed delay leaves it between a fire
and the tick of the next. -/
theorem fires_on_schedule (cron : Cron) {w : Watched} (h : w.Reachable cron) :
    ∀ a ∈ w.accepted, OnSchedule cron a (w.firesOf a.1.jobId) ∧
      (w.firesOf a.1.jobId).length = w.sched.trace.count (.fired a.1.jobId) ∧
      ((∀ f ∈ w.firesOf a.1.jobId, f.cut = false) →
        (a.1.mode = .once → (w.firesOf a.1.jobId).length ≤ 1) ∧
        ∀ delayMs, a.1.mode = .fixed delayMs →
          (w.firesOf a.1.jobId).IsChain fun f g => f.at_.ms + delayMs ≤ g.tick.ms) := by
  obtain ⟨m, -, hm⟩ := h.spaced
  intro a ha
  have honce := hm.onSchedule a ha
  refine ⟨honce, hm.counted _, ?_⟩
  intro hwhole
  exact ⟨fun hmode => honce.once hwhole hmode, fun delayMs hmode => honce.fixed hwhole hmode⟩

/-! ## Fires that are cut off -/

def latest : Instant := ⟨3000 * 1000000, by decide, by decide⟩

/-- One timer is fired twice for one time, the other at its pace. -/
def repeatedMoves : List SchedulerMove :=
  brokenMoves ++ [.collect latest, .fire latest, .reschedule, .finish]

def repeatedRun : Option Watched := exec (Watched.apply everySecond) .start repeatedMoves

theorem fires_on_schedule_repeated : ∃ w, repeatedRun = some w ∧
    (w.firesOf 7).map (fun f => (f.dueMs, f.cut)) = [(1000, true), (1000, false)] ∧
    (w.firesOf 8).map (fun f => (f.dueMs, f.cut)) = [(1000, false), (3000, false)] ∧
    ∀ a ∈ w.accepted, OnSchedule everySecond a (w.firesOf a.1.jobId) := by
  have hends : repeatedRun.isSome = true := by decide +kernel
  obtain ⟨w, hw⟩ := Option.isSome_iff_exists.mp hends
  have hfacts : ∀ w ∈ repeatedRun,
      (w.firesOf 7).map (fun f => (f.dueMs, f.cut)) = [(1000, true), (1000, false)] ∧
        (w.firesOf 8).map (fun f => (f.dueMs, f.cut)) = [(1000, false), (3000, false)] := by
    decide +kernel
  obtain ⟨hfirst, hsecond⟩ := hfacts w hw
  have hreach := Watched.reachable_of_exec hw
  refine ⟨w, hw, hfirst, hsecond, ?_⟩
  intro a ha
  exact (fires_on_schedule everySecond hreach a ha).1

end Konf.Scheduler
