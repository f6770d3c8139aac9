import Konf.Runner.Registry

/-! # Waiting for a run

Model of `RunRegistry::wait_terminal` beside the writers of its slot. A waiter reads the record under
the lock, and when the record is not terminal it registers with `done` and parks: two steps, with
nothing held in between. `mark_terminal` writes the record under the lock and calls `notify_waiters`
after it has let the lock go: two steps as well. A notification wakes the waiters that are parked at
that moment and leaves nothing behind for the others, so one that comes between a waiter's read and
its registration is lost to it, unless another notification is still to come. -/

namespace Konf.Runner
open Konf.Transition
set_option autoImplicit false

/-- A `wait_terminal` under way: before a read of the record, between a read that found it open and
the registration, parked, or back with the record. -/
inductive WaitPc
  | reading
  | checked
  | parked
  | returned (record : RunRecord)

def WaitPc.afterRead (record : RunRecord) : WaitPc :=
  if record.state.isTerminal then .returned record else .checked

/-- `notify_waiters`, for one waiter: a parked one goes round the loop again. -/
def WaitPc.notified : WaitPc → WaitPc
  | .parked => .reading
  | pc => pc

/-- Where a caller's timeout can drop the waiter: at the two places where it awaits. -/
def WaitPc.awaits : WaitPc → Bool
  | .reading | .parked => true
  | .checked | .returned _ => false

/-- A slot with its waiters. `notifying` counts the calls of `mark_terminal`, those of `cancel`
included, that have let the record go and have not called `notify_waiters` yet. -/
structure Waiting where
  slot : Slot
  notifying : ℕ
  waiters : List WaitPc

/-- The steps of a slot that are the first half of a `mark_terminal`. -/
def SlotMove.marks : SlotMove → Bool
  | .markTerminal _ _ | .markCancelled _ => true
  | .markRunning _ | .register | .cancel | .call | .dropCancel => false

inductive WaitMove
  | slot (a : SlotMove)
  | notify
  | wait
  | read
  | register
  | drop

inductive WaitStep (s : Waiting) : WaitMove → Waiting → Prop
  | slot {a : SlotMove} {slot : Slot} (h : SlotStep s.slot a slot) :
      WaitStep s (.slot a) { s with slot := slot, notifying := s.notifying + a.marks.toNat }
  | notify {n : ℕ} (h : s.notifying = n + 1) :
      WaitStep s .notify { s with notifying := n, waiters := s.waiters.map WaitPc.notified }
  | wait : WaitStep s .wait { s with waiters := .reading :: s.waiters }
  | read (pre post : List WaitPc) (h : s.waiters = pre ++ .reading :: post) :
      WaitStep s .read { s with waiters := pre ++ .afterRead s.slot.record :: post }
  | register (pre post : List WaitPc) (h : s.waiters = pre ++ .checked :: post) :
      WaitStep s .register { s with waiters := pre ++ .parked :: post }
  | drop (pre post : List WaitPc) {pc : WaitPc} (h : s.waiters = pre ++ pc :: post)
      (hpc : pc.awaits = true) : WaitStep s .drop { s with waiters := pre ++ post }

def Waiting.Inserted (s : Waiting) : Prop := s.slot.Inserted ∧ s.notifying = 0 ∧ s.waiters = []

/-- The run is over, nobody is going to notify, and a waiter is parked. -/
def Waiting.LostWakeup (s : Waiting) : Prop :=
  s.slot.record.state.isTerminal = true ∧ s.notifying = 0 ∧ .parked ∈ s.waiters

/-- The last notification under way is not sent while a waiter stands between its read and its
registration. -/
def Waiting.Announced (s : Waiting) : WaitMove → Prop
  | .notify => 1 < s.notifying ∨ .checked ∉ s.waiters
  | _ => True

/-! ## Who is awake -/

def Waiting.Marked (s : Waiting) : Prop :=
  0 < s.notifying → s.slot.record.state.isTerminal = true

/-- Once the run is over and all notifications are out, every waiter is on its way to a read or back. -/
def Waiting.Awake (s : Waiting) : Prop :=
  s.slot.record.state.isTerminal = true → s.notifying = 0 →
    .checked ∉ s.waiters ∧ .parked ∉ s.waiters

section Steps
variable {s s' : Waiting} {a : WaitMove}

theorem markTerminal_terminal (r : RunRecord) (now : Journal.Time) {state : RunState}
    (h : state.isTerminal = true) : (r.markTerminal now state).state.isTerminal = true := by
  unfold RunRecord.markTerminal
  split_ifs with hterminal
  · exact hterminal
  · exact h

theorem markRunning_terminal (r : RunRecord) (now : Journal.Time) :
    (r.markRunning now).state.isTerminal = r.state.isTerminal := by
  unfold RunRecord.markRunning
  split
  · rename_i hstate
    rw [hstate]
    rfl
  · rfl

/-- A slot's step either is the write of a `mark_terminal`, or leaves open what was open. -/
theorem SlotStep.terminal_cases {slot slot' : Slot} {b : SlotMove} (h : SlotStep slot b slot') :
    (b.marks = true ∧ slot'.record.state.isTerminal = true) ∨
      (b.marks = false ∧ slot'.record.state.isTerminal = slot.record.state.isTerminal) := by
  cases h with
  | markRunning now => exact .inr ⟨rfl, markRunning_terminal _ now⟩
  | markTerminal now state hstate => exact .inl ⟨rfl, markTerminal_terminal _ now hstate⟩
  | markCancelled pre post now hc => exact .inl ⟨rfl, markTerminal_terminal _ now rfl⟩
  | register | cancel | call _ _ _ | dropCancel _ _ _ => exact .inr ⟨rfl, rfl⟩

theorem mem_map_notified {pc : WaitPc} {waiters : List WaitPc}
    (h : pc ∈ waiters.map WaitPc.notified) : pc ≠ .parked ∧ (pc ∈ waiters ∨ pc = .reading) := by
  obtain ⟨old, hold, rfl⟩ := List.mem_map.mp h
  cases old with
  | parked => exact ⟨by simp [WaitPc.notified], .inr rfl⟩
  | reading | checked | returned record => exact ⟨by simp [WaitPc.notified], .inl hold⟩

theorem Waiting.Marked.step (h : s.Marked) (hs : WaitStep s a s') : s'.Marked := by
  intro hpos
  cases hs with
  | slot hslot =>
    obtain ⟨_, hterminal⟩ | ⟨hmarks, hsame⟩ := hslot.terminal_cases
    · exact hterminal
    · rw [hmarks] at hpos
      exact hsame.trans (h hpos)
  | notify hn =>
    refine h ?_
    rw [hn]
    exact Nat.succ_pos _
  | wait | read _ _ _ | register _ _ _ | drop _ _ _ _ => exact h hpos

theorem Waiting.Awake.step (h : s.Awake) (hok : s.Announced a) (hs : WaitStep s a s') :
    s'.Awake := by
  intro hterminal hzero
  cases hs with
  | slot hslot =>
    obtain ⟨hmarks, _⟩ | ⟨hmarks, hsame⟩ := hslot.terminal_cases
    · simp [hmarks] at hzero
    · rw [hmarks] at hzero
      exact h (hsame.symm.trans hterminal) hzero
  | @notify n hn =>
    -- the last notification: those parked are woken, and nobody stands before its registration
    have hnone : WaitPc.checked ∉ s.waiters := by
      obtain hmore | hnone := hok
      · change n = 0 at hzero
        omega
      · exact hnone
    refine ⟨?_, ?_⟩
    · intro hmem
      obtain hold | hreading := (mem_map_notified hmem).2
      · exact hnone hold
      · cases hreading
    · intro hmem
      exact (mem_map_notified hmem).1 rfl
  | wait =>
    obtain ⟨hchecked, hparked⟩ := h hterminal hzero
    exact ⟨by simpa using hchecked, by simpa using hparked⟩
  | read pre post hw =>
    obtain ⟨hchecked, hparked⟩ := h hterminal hzero
    have hback : WaitPc.afterRead s.slot.record = .returned s.slot.record := if_pos hterminal
    rw [hw] at hchecked hparked
    rw [hback]
    exact ⟨by simpa using hchecked, by simpa using hparked⟩
  | register pre post hw =>
    obtain ⟨hchecked, _⟩ := h hterminal hzero
    exact absurd (hw ▸ List.mem_append_right _ (List.mem_cons_self ..)) hchecked
  | drop pre post hw _ =>
    obtain ⟨hchecked, hparked⟩ := h hterminal hzero
    have hsub : ∀ pc ∈ pre ++ post, pc ∈ s.waiters := by
      intro pc hmem
      rw [hw]
      obtain hmem | hmem := List.mem_append.mp hmem
      · exact List.mem_append_left _ hmem
      · exact List.mem_append_right _ (List.mem_cons_of_mem _ hmem)
    exact ⟨fun hmem => hchecked (hsub _ hmem), fun hmem => hparked (hsub _ hmem)⟩

end Steps

theorem Waiting.Inserted.awake {s : Waiting} (h : s.Inserted) : s.Awake := by
  intro hterminal
  obtain ⟨id, workflow, backend, now, hslot⟩ := h.1
  rw [hslot] at hterminal
  cases hterminal

theorem Waiting.reaches_marked {s : Waiting} (h : Reaches WaitStep Waiting.Inserted s) : s.Marked := by
  refine Reaches.invariant ?_ (fun _ _ _ _ hs hstep => hs.step hstep) h
  intro s hs hpos
  rw [hs.2.1] at hpos
  cases hpos

theorem Waiting.reaches_awake {s : Waiting}
    (h : ReachesBy WaitStep Waiting.Announced Waiting.Inserted s) : s.Awake :=
  ReachesBy.invariant (fun _ h => h.awake) (fun _ _ _ _ hs hok hstep => hs.step hok hstep) h

theorem lost_of_notify {s s' : Waiting} (h : Reaches WaitStep Waiting.Inserted s)
    (hs : WaitStep s .notify s') (hok : ¬ s.Announced .notify) :
    ∃ s'', WaitStep s' .register s'' ∧ s''.LostWakeup := by
  unfold Waiting.Announced at hok
  push Not at hok
  obtain ⟨hlast, hchecked⟩ := hok
  cases hs with
  | @notify n hn =>
    have hterminal : s.slot.record.state.isTerminal = true :=
      Waiting.reaches_marked h (by omega)
    have hmem : WaitPc.checked ∈ s.waiters.map WaitPc.notified :=
      List.mem_map.mpr ⟨.checked, hchecked, rfl⟩
    obtain ⟨pre, post, hw⟩ := List.append_of_mem hmem
    refine ⟨_, .register pre post hw, hterminal, ?_, ?_⟩
    · change n = 0
      omega
    · exact List.mem_append_right _ (List.mem_cons_self ..)

/-- No wakeup is lost in a run whose last notifications all find no waiter between its read and its
registration; and from a notification that does find one, a lost wakeup is one step away. -/
theorem no_wakeup_lost_when_announced (s : Waiting) :
    (ReachesBy WaitStep Waiting.Announced Waiting.Inserted s → ¬ s.LostWakeup) ∧
    ∀ s', Reaches WaitStep Waiting.Inserted s → WaitStep s .notify s' → ¬ s.Announced .notify →
      ∃ s'', WaitStep s' .register s'' ∧ s''.LostWakeup := by
  refine ⟨?_, fun s' h hs hok => lost_of_notify h hs hok⟩
  rintro h ⟨hterminal, hzero, hparked⟩
  exact (Waiting.reaches_awake h hterminal hzero).2 hparked

/-- A waiter that parks in time: the notification of the cancellation wakes it, and it returns the
record. -/
theorem wait_woken : ∃ s record, ReachesBy WaitStep Waiting.Announced Waiting.Inserted s ∧
    s.waiters = [.returned record] ∧ record.state = .cancelled ∧ ¬ s.LostWakeup := by
  have hstart : ReachesBy WaitStep Waiting.Announced Waiting.Inserted
      ⟨.new (.pending 1 "wf" "inline" 0), 0, []⟩ := .start ⟨⟨_, _, _, _, rfl⟩, rfl, rfl⟩
  have hreading := hstart.tail (a := WaitMove.wait) trivial .wait
  have hchecked := hreading.tail (a := WaitMove.read) trivial (.read [] [] rfl)
  have hparked := hchecked.tail (a := WaitMove.register) trivial (.register [] [] rfl)
  have hcancel := hparked.tail (a := WaitMove.slot .cancel) trivial (.slot .cancel)
  have hmarking := hcancel.tail (a := WaitMove.slot .call) trivial (.slot (.call [] [] rfl))
  have hmarked := hmarking.tail (a := WaitMove.slot (.markCancelled 1)) trivial
    (.slot (.markCancelled [] [] 1 rfl))
  have hnotified := hmarked.tail (a := WaitMove.notify) (Or.inr (by simp)) (.notify rfl)
  have hback := hnotified.tail (a := WaitMove.read) trivial (.read [] [] rfl)
  exact ⟨_, _, hback, rfl, rfl, (no_wakeup_lost_when_announced _).1 hback⟩

/-! ## A waiter before its registration -/

theorem checked_reaches : Reaches WaitStep Waiting.Inserted
    ⟨.new (.pending 1 "wf" "inline" 0), 0, [.checked]⟩ := by
  have hstart : Reaches WaitStep Waiting.Inserted ⟨.new (.pending 1 "wf" "inline" 0), 0, []⟩ :=
    .start ⟨⟨_, _, _, _, rfl⟩, rfl, rfl⟩
  exact (hstart.tail trivial .wait).tail trivial (.read [] [] rfl)

/-- The run is cancelled and the notification goes out before the waiter has registered. -/
theorem wakeup_lost : ∃ s, Reaches WaitStep Waiting.Inserted s ∧ s.LostWakeup := by
  have hcancel := checked_reaches.tail trivial (.slot .cancel)
  have hmarking := hcancel.tail trivial (.slot (.call [] [] rfl))
  have hmarked := hmarking.tail trivial (.slot (.markCancelled [] [] 1 rfl))
  have hnotified := hmarked.tail trivial (.notify rfl)
  have hparked := hnotified.tail trivial (.register [] [] rfl)
  exact ⟨_, hparked, rfl, rfl, List.mem_cons_self ..⟩

end Konf.Runner
