import Konf.Scheduler.Polling

/-! # Cancelled timers

A tick works on what it has read. A timer that is cancelled after it was read is fired, and a recurring
one is written back, so a cancellation stands only when the loop is not holding the timer. -/

namespace Konf.Scheduler
open Konf.Substrate Konf.Runtime Konf.Journal Konf.Transition
set_option autoImplicit false

/-- The loop is going to fire the timer or to write it back. -/
def Loop.Holds (id : JobId) : Loop → Prop
  | .idle => False
  | .due rest => ∃ d ∈ rest, d.2.jobId = id
  | .rescheduling _ record next rest =>
    (record.jobId = id ∧ next.isSome) ∨ ∃ d ∈ rest, d.2.jobId = id

instance (id : JobId) : (l : Loop) → Decidable (l.Holds id)
  | .idle => .isFalse not_false
  | .due rest => inferInstanceAs (Decidable (∃ d ∈ rest, d.2.jobId = id))
  | .rescheduling _ record next rest =>
    inferInstanceAs (Decidable ((record.jobId = id ∧ next.isSome) ∨ ∃ d ∈ rest, d.2.jobId = id))

/-- A stored timer is cancelled only while the loop does not hold it. -/
def CancelledBetweenTicks (s : SchedulerState) : SchedulerMove → Prop
  | .cancel id => (s.tables.timersById.get id).isSome → ¬s.loop.Holds id
  | _ => True

instance (s : SchedulerState) : (a : SchedulerMove) → Decidable (CancelledBetweenTicks s a)
  | .cancel id => inferInstanceAs (Decidable ((s.tables.timersById.get id).isSome → ¬s.loop.Holds id))
  | .schedule .. | .collect _ | .missing | .fire _ | .reschedule | .finish | .abandon =>
    .isTrue trivial

/-- A timer whose cancellation has found it is not listed, and has not been fired since. -/
def SchedulerState.StaysCancelled (s : SchedulerState) : Prop :=
  (∀ id, .cancelled id ∈ s.trace → ∀ namespacePrefix, ∀ job ∈ s.tables.jobs namespacePrefix,
    job.jobId ≠ id) ∧
  s.trace.Pairwise fun a b => ∀ id, a = .cancelled id → b ≠ .fired id

/-- A cancelled timer is out of the tables and out of the loop's hands. -/
structure Settled (s : SchedulerState) (m : JobId → Option (ℕ × StoredTimer)) : Prop where
  consistent : Consistent s m
  gone : ∀ id, .cancelled id ∈ s.trace → id ∈ s.issued ∧ m id = none ∧ ¬s.loop.Holds id
  unfired : s.trace.Pairwise fun a b => ∀ id, a = .cancelled id → b ≠ .fired id

namespace Settled

variable {cron : Cron} {s s' : SchedulerState} {m m' : JobId → Option (ℕ × StoredTimer)}

theorem quiet (h : Settled s m) (hc : Consistent s' m') (htrace : s'.trace = s.trace)
    (hgone : ∀ id, id ∈ s.issued → m id = none → ¬s.loop.Holds id →
      id ∈ s'.issued ∧ m' id = none ∧ ¬s'.loop.Holds id) : Settled s' m' := by
  refine ⟨hc, ?_, htrace ▸ h.unfired⟩
  intro id hid
  obtain ⟨hissued, hm, hloop⟩ := h.gone id (htrace ▸ hid)
  exact hgone id hissued hm hloop

theorem cancel (h : Settled s m) (id : JobId)
    (hok : (s.tables.timersById.get id).isSome → ¬s.loop.Holds id) :
    Settled (s.cancel id) (Function.update m id none) := by
  have hexisted := h.consistent.holds.existed id
  have hnone : ∀ id', m id' = none → Function.update m id none id' = none := by
    intro id' hm
    by_cases heq : id' = id
    · simp [heq]
    · simpa [heq] using hm
  cases hm : m id with
  | none =>
    rw [hm] at hexisted
    have htrace : (s.cancel id).trace = s.trace := by simp [SchedulerState.cancel, hexisted]
    refine h.quiet (h.consistent.cancel id) htrace ?_
    intro id' hissued hm' hloop
    exact ⟨hissued, hnone id' hm', hloop⟩
  | some r =>
    rw [hm] at hexisted
    have htrace : (s.cancel id).trace = s.trace ++ [.cancelled id] := by
      simp [SchedulerState.cancel, hexisted]
    have hstored : (s.tables.timersById.get id).isSome = true := by
      rw [h.consistent.holds.ranks.get_index, hm]
      rfl
    refine ⟨h.consistent.cancel id, ?_, ?_⟩
    · intro id' hid'
      rw [htrace, List.mem_append, List.mem_singleton] at hid'
      obtain hid' | hid' := hid'
      · obtain ⟨hissued, hm', hloop⟩ := h.gone id' hid'
        exact ⟨hissued, hnone id' hm', hloop⟩
      · cases hid'
        exact ⟨h.consistent.issued id (by simp [hm]), Function.update_self .., hok hstored⟩
    · rw [htrace, List.pairwise_append]
      refine ⟨h.unfired, List.pairwise_singleton _ _, ?_⟩
      rintro a _ b hb _ _ rfl
      cases List.mem_singleton.mp hb

theorem collect (h : Settled s m) {now : Instant} {due : List (ℕ × Timer)}
    (hdue : s.tables.collectDue now.ms = .ok due) : Settled { s with loop := .due due } m := by
  refine h.quiet (h.consistent.collect hdue) rfl ?_
  intro id hissued hm _
  refine ⟨hissued, hm, ?_⟩
  rintro ⟨d, hd, rfl⟩
  obtain ⟨stored, hstored, _, hrecord⟩ :=
    (h.consistent.holds.mem_collectDue now.ms_fits hdue).mp hd
  rw [hrecord] at hm
  cases hm.symm.trans hstored

theorem fire (h : Settled s m) {oldFireAt : ℕ} {record : Timer} {rest : List (ℕ × Timer)}
    {next : Option Time} (hl : s.loop = .due ((oldFireAt, record) :: rest)) :
    Settled { s with
      loop := .rescheduling oldFireAt record next rest
      trace := s.trace ++ [.fired record.jobId] } m := by
  have hfree : ∀ id, .cancelled id ∈ s.trace → record.jobId ≠ id ∧ ∀ d ∈ rest, d.2.jobId ≠ id := by
    intro id hid
    obtain ⟨_, _, hloop⟩ := h.gone id hid
    rw [hl] at hloop
    refine ⟨?_, ?_⟩
    · intro heq
      exact hloop ⟨_, List.mem_cons_self, heq⟩
    · intro d hd heq
      exact hloop ⟨d, List.mem_cons_of_mem _ hd, heq⟩
  refine ⟨h.consistent.release ?_ _, ?_, ?_⟩
  · rw [hl]
    exact List.Sublist.refl _
  · intro id hid
    rw [List.mem_append, List.mem_singleton] at hid
    obtain hid | hid := hid
    · obtain ⟨hissued, hm, _⟩ := h.gone id hid
      refine ⟨hissued, hm, ?_⟩
      rintro (⟨heq, _⟩ | ⟨d, hd, heq⟩)
      · exact (hfree id hid).1 heq
      · exact (hfree id hid).2 d hd heq
    · cases hid
  · rw [List.pairwise_append]
    refine ⟨h.unfired, List.pairwise_singleton _ _, ?_⟩
    rintro a ha b hb id rfl heq
    cases List.mem_singleton.mp hb
    exact (hfree id ha).1 (SchedulerEvent.fired.inj heq)

theorem reschedule (h : Settled s m) {oldFireAt : ℕ} {record : Timer} {next : Option Time}
    {rest : List (ℕ × Timer)} (hl : s.loop = .rescheduling oldFireAt record next rest) :
    Settled { s with tables := s.tables.reschedule oldFireAt record next, loop := .due rest }
      (Function.update m record.jobId
        (next.map fun runAt => (fireAtMs runAt, .fromRecord record))) := by
  refine h.quiet (h.consistent.reschedule hl) rfl ?_
  intro id hissued hm hloop
  rw [hl] at hloop
  obtain ⟨hwrite, hrest⟩ := not_or.mp hloop
  refine ⟨hissued, ?_, hrest⟩
  by_cases heq : id = record.jobId
  · -- nothing is written back
    cases next with
    | none => simp [heq]
    | some runAt => exact absurd ⟨heq.symm, rfl⟩ hwrite
  · simpa [heq] using hm

theorem step {a : SchedulerMove} (h : Settled s m) (hok : CancelledBetweenTicks s a)
    (hs : SchedulerStep cron s a s') : ∃ m', Settled s' m' := by
  cases hs with
  | schedule hsched hfresh =>
    obtain ⟨record, runAt, hid, hdelay, rfl⟩ := Tables.schedule_insertNew hsched
    rw [← hid] at hfresh ⊢
    refine ⟨_, h.quiet (h.consistent.schedule hfresh hdelay runAt) rfl ?_⟩
    intro id hissued hm hloop
    have hne : id ≠ record.jobId := fun heq => hfresh (heq ▸ hissued)
    exact ⟨List.mem_cons_of_mem _ hissued, by simpa [hne] using hm, hloop⟩
  | cancel id => exact ⟨_, h.cancel id hok⟩
  | collect now _ hdue => exact ⟨m, h.collect hdue⟩
  | missing hl =>
    refine ⟨m, h.quiet (h.consistent.release ?_ s.trace) rfl ?_⟩
    · rw [hl]
      exact List.sublist_cons_self _ _
    · intro id hissued hm hloop
      refine ⟨hissued, hm, ?_⟩
      rintro ⟨d, hd, heq⟩
      rw [hl] at hloop
      exact hloop ⟨d, List.mem_cons_of_mem _ hd, heq⟩
  | fire now hl => exact ⟨m, h.fire hl⟩
  | reschedule hl => exact ⟨_, h.reschedule hl⟩
  | finish _ =>
    refine ⟨m, h.quiet (h.consistent.release (l := .idle) (List.nil_sublist _) s.trace) rfl ?_⟩
    intro id hissued hm _
    exact ⟨hissued, hm, not_false⟩
  | abandon =>
    refine ⟨m, h.quiet (h.consistent.release (l := .idle) (List.nil_sublist _) s.trace) rfl ?_⟩
    intro id hissued hm _
    exact ⟨hissued, hm, not_false⟩

theorem staysCancelled (h : Settled s m) : s.StaysCancelled := by
  refine ⟨?_, h.unfired⟩
  rintro id hid namespacePrefix job hjob rfl
  exact h.consistent.holds.mem_jobs hjob (h.gone _ hid).2.1

end Settled

/-! ## A cancellation in the middle of a tick -/

section Race

variable {cron : Cron} {s s₀ : SchedulerState}

theorem passes_over (pre rest : List (ℕ × Timer)) (h : Reaches (SchedulerStep cron) (· = s₀) s)
    (hl : s.loop = .due (pre ++ rest)) :
    Reaches (SchedulerStep cron) (· = s₀) { s with loop := .due rest } := by
  induction pre generalizing s with
  | nil =>
    have hs : { s with loop := .due rest } = s := by
      rw [List.nil_append] at hl
      rw [← hl]
    exact hs ▸ h
  | cons d pre ih =>
    have hpassed := ih (h.tail trivial (.missing hl)) rfl
    exact hpassed

/-- A timer in the rest of a tick can be fired, cancelled or not. -/
theorem fires_rest {rest : List (ℕ × Timer)} {id : JobId}
    (h : Reaches (SchedulerStep cron) (· = s₀) s) (hl : s.loop = .due rest)
    (hid : ∃ d ∈ rest, d.2.jobId = id) (hcancelled : .cancelled id ∈ s.trace) :
    ∃ s', Reaches (SchedulerStep cron) (· = s₀) s' ∧ ¬s'.StaysCancelled := by
  obtain ⟨⟨oldFireAt, record⟩, hd, rfl⟩ := hid
  obtain ⟨pre, post, rfl⟩ := List.append_of_mem hd
  have hpassed := passes_over pre _ h hl
  refine ⟨_, hpassed.tail trivial (.fire epoch rfl), ?_⟩
  rintro ⟨_, hpair⟩
  exact (List.pairwise_append.mp hpair).2.2 _ hcancelled _ (List.mem_singleton_self _) _ rfl rfl

/-- Once a timer that the loop holds has been cancelled, it can come back. -/
theorem held_timer_comes_back {id : JobId} (h : s.Reachable cron)
    (hstored : (s.tables.timersById.get id).isSome) (hheld : s.loop.Holds id) :
    ∃ s', Reaches (SchedulerStep cron) (· = s.cancel id) s' ∧ ¬s'.StaysCancelled := by
  obtain ⟨m, hm⟩ := h.consistent
  have hexisted : (s.tables.cancel id).1 = true := by
    rw [hm.holds.existed, ← hstored, hm.holds.ranks.get_index, Option.isSome_map]
  have htrace : (s.cancel id).trace = s.trace ++ [.cancelled id] := by
    simp [SchedulerState.cancel, hexisted]
  have hcancelled : .cancelled id ∈ (s.cancel id).trace := by
    rw [htrace]
    exact List.mem_append_right _ (List.mem_singleton_self _)
  have hstart : Reaches (SchedulerStep cron) (· = s.cancel id) (s.cancel id) := .start rfl
  cases hl : s.loop with
  | idle =>
    rw [hl] at hheld
    exact hheld.elim
  | due rest =>
    rw [hl] at hheld
    exact fires_rest hstart hl hheld hcancelled
  | rescheduling oldFireAt record next rest =>
    rw [hl] at hheld
    have hnext := hstart.tail trivial (.reschedule hl)
    obtain ⟨rfl, hsome⟩ | hrest := hheld
    · -- the write that ends the fire puts the timer back
      obtain ⟨runAt, rfl⟩ := Option.isSome_iff_exists.mp hsome
      refine ⟨_, hnext, ?_⟩
      have hback := ((hm.cancel record.jobId).reschedule hl).holds
      obtain ⟨job, hjob, hid⟩ := hback.listed (Function.update_self ..)
      rintro ⟨hlist, _⟩
      exact hlist record.jobId hcancelled none job hjob hid
    · exact fires_rest hnext rfl hrest hcancelled

end Race

/-- In every run that cancels stored timers only while the loop does not hold them, a cancelled timer
stays cancelled. From any other cancellation there is a way on to where it is back. -/
theorem cancelled_timer_stays_cancelled (cron : Cron) :
    (∀ s, ReachesBy (SchedulerStep cron) CancelledBetweenTicks (· = .start) s → s.StaysCancelled) ∧
    ∀ s id, s.Reachable cron → ¬CancelledBetweenTicks s (.cancel id) →
      ∃ s', Reaches (SchedulerStep cron) (· = s.cancel id) s' ∧ ¬s'.StaysCancelled := by
  refine ⟨?_, ?_⟩
  · intro s h
    have hsettled : ∃ m, Settled s m := by
      induction h with
      | start h =>
        refine ⟨_, h ▸ SchedulerState.start_consistent, ?_, ?_⟩
        · simp [h, SchedulerState.start]
        · simp [h, SchedulerState.start]
      | tail _ hok hs ih =>
        obtain ⟨m, hm⟩ := ih
        exact hm.step hok hs
    obtain ⟨m, hm⟩ := hsettled
    exact hm.staysCancelled
  · intro s id h hheld
    obtain ⟨hstored, hheld⟩ := Classical.not_imp.mp hheld
    exact held_timer_comes_back h hstored (not_not.mp hheld)

/-- The timer is fired and cancelled, one after the other. -/
theorem stays_cancelled_between_ticks : ∃ s,
    ReachesBy (SchedulerStep everySecond) CancelledBetweenTicks (· = .start) s ∧
      s.trace = [.fired 7, .cancelled 7] ∧ s.StaysCancelled := by
  have hrun : (exec (fun s a => if CancelledBetweenTicks s a then s.apply everySecond a else none)
      .start [.schedule epoch (.fixed heartbeat 1000), .collect later, .fire later, .reschedule,
        .finish, .cancel 7]).any (fun s => decide (s.trace = [.fired 7, .cancelled 7])) = true := by
    decide +kernel
  obtain ⟨s, hexec, hs⟩ := (Option.any_eq_true ..).mp hrun
  have hreach : ReachesBy (SchedulerStep everySecond) CancelledBetweenTicks (· = .start) s :=
    exec_guarded_reachesBy (fun _ _ _ => SchedulerState.apply_sound) (.start rfl) hexec
  exact ⟨s, hreach, of_decide_eq_true hs, (cancelled_timer_stays_cancelled everySecond).1 s hreach⟩

/-- The timer is cancelled after the tick has read it. It is fired, and it is listed for the next
second. -/
theorem cancelled_timer_fires_again : ∃ s : SchedulerState, s.Reachable everySecond ∧
    s.trace = [.cancelled 7, .fired 7] ∧ (s.tables.jobs none).map (·.jobId) = [7] ∧
      ¬s.StaysCancelled := by
  have hrun : (exec (SchedulerState.apply everySecond) .start raceMoves).any (fun s =>
      decide (s.trace = [.cancelled 7, .fired 7] ∧ (s.tables.jobs none).map (·.jobId) = [7])) =
        true := by
    decide +kernel
  obtain ⟨s, hexec, hs⟩ := (Option.any_eq_true ..).mp hrun
  obtain ⟨htrace, hlist⟩ := of_decide_eq_true hs
  refine ⟨s, exec_reaches (fun _ _ _ => SchedulerState.apply_sound) (.start rfl) hexec, htrace, hlist,
    ?_⟩
  rintro ⟨_, hpair⟩
  rw [htrace] at hpair
  exact (List.pairwise_cons.mp hpair).1 _ (List.mem_singleton_self _) 7 rfl rfl

end Konf.Scheduler
