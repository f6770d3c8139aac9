import Konf.Foundations.Transition
import Konf.Journal.Store
import Konf.Runtime.Handoff

/-! # Run records

Model of `konf-tool-runner/src/registry.rs`. A slot has a record and a cancel hook, each behind a lock
of its own, and every operation is one or more steps under one of the locks: `mark_running` and
`mark_terminal` write the record, `register_cancel_hook` writes the hook, and `cancel` takes the hook,
calls it and then marks the record. Any number of calls are under way at a time, and a `cancel` can be
dropped while it waits for the record.

A hook is known by the number of its registration. `invoked` is a ghost: the hooks that have been
called. -/

namespace Konf.Runner
open Konf.Substrate Konf.Runtime Konf.Journal Konf.Transition
set_option autoImplicit false

/-! ## Records -/

inductive RunState
  | pending
  | running
  | succeeded (result : Json)
  | failed (error : String)
  | cancelled

def RunState.isTerminal : RunState → Bool
  | .succeeded _ | .failed _ | .cancelled => true
  | .pending | .running => false

structure RunRecord where
  id : Uuid
  workflow : String
  backend : String
  state : RunState
  createdAt : Time
  startedAt : Option Time
  finishedAt : Option Time

/-- The record of `insert_pending_with_id`. -/
def RunRecord.pending (id : Uuid) (workflow backend : String) (now : Time) : RunRecord where
  id := id
  workflow := workflow
  backend := backend
  state := .pending
  createdAt := now
  startedAt := none
  finishedAt := none

def RunRecord.markRunning (r : RunRecord) (now : Time) : RunRecord :=
  match r.state with
  | .pending => { r with state := .running, startedAt := some now }
  | _ => r

def RunRecord.markTerminal (r : RunRecord) (now : Time) (state : RunState) : RunRecord :=
  if r.state.isTerminal then r else { r with state := state, finishedAt := some now }

/-! ## A slot -/

/-- A `cancel` under way: with the hook it has taken, or before the write to the record. -/
inductive CancelPc
  | calling (hook : Option ℕ)
  | marking

structure Slot where
  record : RunRecord
  cancelHook : Option ℕ
  registrations : ℕ
  cancels : List CancelPc
  invoked : List ℕ

def Slot.new (record : RunRecord) : Slot := ⟨record, none, 0, [], []⟩

inductive SlotMove
  | markRunning (now : Time)
  | markTerminal (now : Time) (state : RunState)
  | register
  | cancel
  | call
  | markCancelled (now : Time)
  | dropCancel

inductive SlotStep (s : Slot) : SlotMove → Slot → Prop
  | markRunning (now : Time) :
      SlotStep s (.markRunning now) { s with record := s.record.markRunning now }
  | markTerminal (now : Time) (state : RunState) (h : state.isTerminal = true) :
      SlotStep s (.markTerminal now state) { s with record := s.record.markTerminal now state }
  -- in place of the hook that is there
  | register :
      SlotStep s .register
        { s with cancelHook := some s.registrations, registrations := s.registrations + 1 }
  | cancel :
      SlotStep s .cancel
        { s with cancelHook := none, cancels := .calling s.cancelHook :: s.cancels }
  | call (pre post : List CancelPc) {hook : Option ℕ} (h : s.cancels = pre ++ .calling hook :: post) :
      SlotStep s .call
        { s with
          cancels := pre ++ .marking :: post
          invoked := s.invoked ++ hook.toList }
  | markCancelled (pre post : List CancelPc) (now : Time)
      (h : s.cancels = pre ++ .marking :: post) :
      SlotStep s (.markCancelled now)
        { s with record := s.record.markTerminal now .cancelled, cancels := pre ++ post }
  | dropCancel (pre post : List CancelPc)
      (h : s.cancels = pre ++ .marking :: post) :
      SlotStep s .dropCancel { s with cancels := pre ++ post }

def Slot.Inserted (s : Slot) : Prop :=
  ∃ id workflow backend now, s = .new (.pending id workflow backend now)

/-! ## Records only move forward -/

/-- What a record keeps: it has a finish time if and only if it is terminal, and it has no start time
before it runs. -/
structure RunRecord.Sound (r : RunRecord) : Prop where
  finished : r.finishedAt.isSome = r.state.isTerminal
  started : r.state = .pending → r.startedAt = none

/-- What a later reader may see after an earlier one. -/
structure RunRecord.Moves (r r' : RunRecord) : Prop where
  state : r'.state = r.state ∨ (r.state = .pending ∧ r'.state = .running) ∨
    (r.state.isTerminal = false ∧ r'.state.isTerminal = true)
  started : ∀ t, r.startedAt = some t → r'.startedAt = some t
  finished : ∀ t, r.finishedAt = some t → r'.finishedAt = some t

theorem RunRecord.Moves.refl (r : RunRecord) : r.Moves r :=
  ⟨.inl rfl, fun _ h => h, fun _ h => h⟩

theorem RunRecord.Moves.trans {a b c : RunRecord} (h : a.Moves b) (h' : b.Moves c) : a.Moves c := by
  refine ⟨?_, fun t ht => h'.started t (h.started t ht), fun t ht => h'.finished t (h.finished t ht)⟩
  obtain hab | ⟨ha, hb⟩ | ⟨ha, hb⟩ := h.state
  · rw [← hab]
    exact h'.state
  · obtain hbc | ⟨hb', _⟩ | ⟨_, hc⟩ := h'.state
    · exact .inr (.inl ⟨ha, hbc.trans hb⟩)
    · rw [hb] at hb'
      cases hb'
    · exact .inr (.inr ⟨by rw [ha]; rfl, hc⟩)
  · -- a terminal state stays
    obtain hbc | ⟨hb', _⟩ | ⟨hb', _⟩ := h'.state
    · exact .inr (.inr ⟨ha, by rw [hbc]; exact hb⟩)
    · rw [hb'] at hb
      cases hb
    · rw [hb'] at hb
      cases hb

section Record
variable {r : RunRecord}

theorem RunRecord.Sound.markRunning (h : r.Sound) (now : Time) : (r.markRunning now).Sound := by
  unfold RunRecord.markRunning
  split
  · rename_i hstate
    have hfinished := h.finished
    rw [hstate] at hfinished
    exact ⟨hfinished, by simp⟩
  · exact h

theorem RunRecord.Sound.markTerminal (h : r.Sound) (now : Time) {state : RunState}
    (hstate : state.isTerminal = true) : (r.markTerminal now state).Sound := by
  unfold RunRecord.markTerminal
  split_ifs
  · exact h
  · refine ⟨hstate.symm, ?_⟩
    intro hpending
    change state = .pending at hpending
    rw [hpending] at hstate
    cases hstate

theorem RunRecord.Sound.moves_markRunning (h : r.Sound) (now : Time) : r.Moves (r.markRunning now) := by
  unfold RunRecord.markRunning
  split
  · rename_i hstate
    refine ⟨.inr (.inl ⟨hstate, rfl⟩), ?_, fun _ ht => ht⟩
    intro t ht
    cases (h.started hstate).symm.trans ht
  · exact .refl r

theorem RunRecord.Sound.moves_markTerminal (h : r.Sound) (now : Time) {state : RunState}
    (hstate : state.isTerminal = true) : r.Moves (r.markTerminal now state) := by
  unfold RunRecord.markTerminal
  split_ifs with hterminal
  · exact .refl r
  · have hopen : r.state.isTerminal = false := by simpa using hterminal
    refine ⟨.inr (.inr ⟨hopen, hstate⟩), fun _ ht => ht, ?_⟩
    intro t ht
    have hfinished := h.finished
    rw [hopen, ht] at hfinished
    cases hfinished

end Record

/-! ## Hooks are called once -/

/-- The hooks that cancellations have taken and not called. -/
def CancelPc.hook : CancelPc → List ℕ
  | .calling hook => hook.toList
  | .marking => []

/-- Every hook of a slot, wherever it is. -/
def Slot.hooks (s : Slot) : List ℕ := s.invoked ++ s.cancels.flatMap CancelPc.hook ++ s.cancelHook.toList

structure Slot.Sound (s : Slot) : Prop where
  record : s.record.Sound
  distinct : s.hooks.Nodup
  registered : ∀ h ∈ s.hooks, h < s.registrations

namespace Slot.Sound

variable {s s' : Slot}

theorem moved (h : s.Sound) (hrecord : s'.record.Sound) (hhooks : s'.hooks.Perm s.hooks)
    (hcount : s'.registrations = s.registrations) : s'.Sound := by
  refine ⟨hrecord, hhooks.nodup_iff.mpr h.distinct, ?_⟩
  intro hook hmem
  rw [hcount]
  exact h.registered hook (hhooks.mem_iff.mp hmem)

theorem register (h : s.Sound) :
    Slot.Sound { s with cancelHook := some s.registrations, registrations := s.registrations + 1 } := by
  obtain ⟨hkept, _, _⟩ := List.nodup_append'.mp h.distinct
  have hold : ∀ hook ∈ s.invoked ++ s.cancels.flatMap CancelPc.hook, hook < s.registrations := by
    intro hook hmem
    exact h.registered hook (List.mem_append_left _ hmem)
  refine ⟨h.record, ?_, ?_⟩
  · rw [Slot.hooks, List.nodup_append']
    refine ⟨hkept, List.nodup_singleton _, ?_⟩
    intro hook hmem hnew
    rw [Option.mem_toList] at hnew
    cases hnew
    exact (hold _ hmem).false
  · intro hook hmem
    obtain hmem | hnew := List.mem_append.mp hmem
    · exact Nat.lt_succ_of_lt (hold hook hmem)
    · rw [Option.mem_toList] at hnew
      cases hnew
      exact Nat.lt_succ_self _

theorem cancel (h : s.Sound) :
    Slot.Sound { s with cancelHook := none, cancels := .calling s.cancelHook :: s.cancels } := by
  refine h.moved h.record ?_ rfl
  simp only [Slot.hooks, List.flatMap_cons, CancelPc.hook, Option.toList_none, List.append_nil,
    List.append_assoc]
  exact (List.perm_append_comm).append_left _

theorem call (h : s.Sound) {pre post : List CancelPc} {hook : Option ℕ}
    (hc : s.cancels = pre ++ .calling hook :: post) :
    Slot.Sound { s with
      cancels := pre ++ .marking :: post
      invoked := s.invoked ++ hook.toList } := by
  refine h.moved h.record ?_ rfl
  simp only [Slot.hooks, hc, List.flatMap_append, List.flatMap_cons, CancelPc.hook, List.nil_append,
    List.append_assoc]
  refine List.Perm.append_left _ ?_
  exact List.perm_append_comm_assoc ..

theorem leave (h : s.Sound) {record : RunRecord} (hrecord : record.Sound) {pre post : List CancelPc}
    (hc : s.cancels = pre ++ .marking :: post) :
    Slot.Sound { s with record := record, cancels := pre ++ post } := by
  refine h.moved hrecord ?_ rfl
  simp only [Slot.hooks, hc, List.flatMap_append, List.flatMap_cons, CancelPc.hook, List.nil_append]
  exact .refl _

theorem step {a : SlotMove} (h : s.Sound) (hs : SlotStep s a s') : s'.Sound := by
  cases hs with
  | markRunning now => exact h.moved (h.record.markRunning now) (.refl _) rfl
  | markTerminal now state hstate => exact h.moved (h.record.markTerminal now hstate) (.refl _) rfl
  | register => exact h.register
  | cancel => exact h.cancel
  | call pre post hc => exact h.call hc
  | markCancelled pre post now hc => exact h.leave (h.record.markTerminal now rfl) hc
  | dropCancel pre post hc => exact h.leave h.record hc

theorem moves {a : SlotMove} (h : s.Sound) (hs : SlotStep s a s') : s.record.Moves s'.record := by
  cases hs with
  | markRunning now => exact h.record.moves_markRunning now
  | markTerminal now state hstate => exact h.record.moves_markTerminal now hstate
  | markCancelled _ _ now _ => exact h.record.moves_markTerminal now rfl
  | register | cancel | call _ _ _ | dropCancel _ _ _ => exact .refl _

end Slot.Sound

theorem Slot.Inserted.sound {s : Slot} (h : s.Inserted) : s.Sound := by
  obtain ⟨id, workflow, backend, now, rfl⟩ := h
  exact ⟨⟨rfl, fun _ => rfl⟩, List.nodup_nil, by simp [Slot.hooks, Slot.new]⟩

theorem Slot.reaches_sound {s : Slot} (h : Reaches SlotStep Slot.Inserted s) : s.Sound :=
  Reaches.invariant (fun _ h => h.sound) (fun _ _ _ _ hs hstep => hs.step hstep) h

/-- Along every run of a slot: the records that readers see move forward only, each of them has a
finish time if and only if it is terminal, and no registered hook is called twice. -/
theorem run_record_monotone (ss : List Slot) (s : Slot) (h : Path SlotStep Slot.Inserted ss s) :
    ((ss ++ [s]).map Slot.record).Pairwise RunRecord.Moves ∧
    (∀ x ∈ ss ++ [s], x.record.finishedAt.isSome = x.record.state.isTerminal) ∧
    s.invoked.Nodup ∧ ∀ hook ∈ s.invoked, hook < s.registrations := by
  refine ⟨?_, ?_, ?_, ?_⟩
  · rw [List.pairwise_map]
    have htrans : ∀ a b c : Slot, a.record.Moves b.record → b.record.Moves c.record →
        a.record.Moves c.record := fun _ _ _ => RunRecord.Moves.trans
    refine h.pairwise htrans ?_
    intro x a x' hx hstep
    exact (Slot.reaches_sound hx).moves hstep
  · intro x hx
    exact (Slot.reaches_sound (h.mem_reaches x hx)).record.finished
  · have hsound := Slot.reaches_sound h.reaches
    have hall := hsound.distinct
    rw [Slot.hooks, List.append_assoc] at hall
    exact hall.of_append_left
  · intro hook hmem
    refine (Slot.reaches_sound h.reaches).registered hook ?_
    rw [Slot.hooks, List.append_assoc]
    exact List.mem_append_left _ hmem

/-- Two cancellations of a running run: the second finds no hook and no open record. -/
theorem run_cancelled_twice : ∃ ss s, Path SlotStep Slot.Inserted ss s ∧ s.invoked = [0] ∧
    s.record.state = .cancelled ∧ s.record.finishedAt = some 3 ∧
    ((ss ++ [s]).map Slot.record).Pairwise RunRecord.Moves := by
  have hstart : Path SlotStep Slot.Inserted [] (.new (.pending 1 "wf" "inline" 0)) :=
    .start ⟨_, _, _, _, rfl⟩
  have hrunning := (hstart.tail .register).tail (.markRunning 1)
  have htaken := (hrunning.tail .cancel).tail .cancel
  have hcalled := htaken.tail (.call [.calling none] [] rfl)
  have hmarked := (hcalled.tail (.call [] [.marking] rfl)).tail (.markCancelled [] [.marking] 3 rfl)
  have hpath := hmarked.tail (.markCancelled [] [] 4 rfl)
  exact ⟨_, _, hpath, rfl, rfl, rfl, (run_record_monotone _ _ hpath).1⟩

end Konf.Runner
