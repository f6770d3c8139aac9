import Konf.Runner.Replay

/-! # Cancelled runs

`runner:cancel` aborts the task and closes the record of the slot. It does not touch the intent, which
only the task itself closes, with its last write. So a cancelled run stays down when its task was
through before the cancellation returned, and comes back after a restart otherwise. -/

namespace Konf.Runner
open Konf.Substrate Konf.Runtime Konf.Journal Konf.Transition
set_option autoImplicit false

def Closed (row : Option Intent) : Prop := ∃ i, row = some i ∧ i.terminal.isSome = true

theorem Unterminated.not_closed {row : Option Intent} (h : Unterminated row) : ¬Closed row := by
  obtain ⟨i, rfl, hi⟩ := h
  rintro ⟨j, hj, hclosed⟩
  cases hj
  rw [hi] at hclosed
  cases hclosed

/-! ## The row and the process agree -/

/-- A task has closed the row if and only if it is finished. -/
def TaskPc.Fits (row : Option Intent) : TaskPc → Prop
  | .finished => Closed row
  | .writing i => Unterminated row ∧ i.terminal.isSome = true
  | .ready _ | .running _ | .invoking | .answered _ | .recorded _ | .dropped => Unterminated row

def Phase.Fits (row : Option Intent) : Phase → Prop
  | .down | .settled => True
  | .replaying i | .resolving i => row = some i ∧ i.terminal = none
  | .counting i => i.terminal = none
  | .failing i => i.terminal.isSome = true
  | .inserted _ _ => ¬Closed row
  | .persisted _ _ => Unterminated row
  | .launched task => task.pc.Fits row

def Phase.hasSlot : Phase → Bool
  | .inserted .. | .persisted .. | .launched _ => true
  | .down | .settled | .replaying _ | .failing _ | .counting _ | .resolving _ => false

structure InlineRun.Sound (s : InlineRun) : Prop where
  fits : s.phase.Fits s.row
  slot : s.slot.isSome = s.phase.hasSlot
  cancels : s.cancels ≠ [] → s.slot.isSome = true

namespace InlineRun.Sound

variable {id : Uuid} {s s' : InlineRun}

theorem task (h : s.Sound) {task : Task} (hp : s.phase = .launched task) : task.pc.Fits s.row := by
  have hfits := h.fits
  rw [hp] at hfits
  exact hfits

theorem unterminated (h : s.Sound) {task : Task} (hp : s.phase = .launched task) {pc : TaskPc}
    (hpc : task.pc = pc) (hd : pc.canDrop = true) : Unterminated s.row := by
  have hfits := h.task hp
  rw [hpc] at hfits
  cases pc with
  | finished | writing _ | dropped => cases hd
  | ready _ | running _ | invoking | answered _ | recorded _ => exact hfits

theorem atTask (h : s.Sound) {task task' : Task} (hp : s.phase = .launched task)
    (hfits : task'.pc.Fits s.row) : (s.atTask task').Sound := by
  have hslot := h.slot
  rw [hp] at hslot
  exact ⟨hfits, hslot, h.cancels⟩

theorem onRecord (h : s.Sound) (f : RunRecord → RunRecord) : (s.onRecord f).Sound := by
  have hsome : (s.onRecord f).slot.isSome = s.slot.isSome := Option.isSome_map
  exact ⟨h.fits, hsome.trans h.slot, fun hc => hsome.trans (h.cancels hc)⟩

theorem unslotted (h : s.Sound) {p : Phase} (hp : s.phase = p) (hold : p.hasSlot = false)
    (hslot : s'.slot = s.slot) (hcancels : s'.cancels = s.cancels) (hnew : s'.phase.hasSlot = false)
    (hfits : s'.phase.Fits s'.row) : s'.Sound := by
  refine ⟨hfits, ?_, ?_⟩
  · rw [hslot, h.slot, hp, hold, hnew]
  · rw [hslot, hcancels]
    exact h.cancels

theorem read (h : s.Sound) {task : Task} {result : Except String Json}
    (hp : s.phase = .launched task) (hpc : task.pc = .recorded result) :
    (s.atTask { task with pc := match s.row with
      | some i => .writing (i.markTerminal (terminalStatus result))
      | none => .finished }).Sound := by
  have hopen := h.unterminated hp hpc rfl
  refine h.atTask hp ?_
  obtain ⟨i, hrow, hi⟩ := hopen
  rw [hrow]
  exact ⟨⟨i, rfl, hi⟩, rfl⟩

theorem call (h : s.Sound) (hook : Hook) {cancels : List InlineCancel} (hc : s.cancels ≠ []) :
    InlineRun.Sound { s with
      phase := if hook = .registered then s.phase.abort else s.phase
      cancels := cancels } := by
  have hfits := h.fits
  have hslot := h.slot
  split_ifs
  · cases hp : s.phase with
    | launched task =>
      rw [hp] at hfits hslot
      exact ⟨hfits, hslot, fun _ => h.cancels hc⟩
    | down | settled | replaying _ | failing _ | counting _ | resolving _ | inserted _ _
    | persisted _ _ =>
      rw [hp] at hfits hslot
      exact ⟨hfits, hslot, fun _ => h.cancels hc⟩
  · exact ⟨hfits, hslot, fun _ => h.cancels hc⟩

theorem giveUp (h : s.Sound) {i : Intent} (hp : s.phase = .replaying i) :
    InlineRun.Sound { s with phase := match s.row with
      | some j => .failing (j.markTerminal replayLimitExceeded)
      | none => .settled } := by
  have hfits := h.fits
  rw [hp] at hfits
  rw [hfits.1]
  refine ⟨rfl, ?_, h.cancels⟩
  rw [h.slot, hp]
  rfl

theorem step {a : InlineMove} (h : s.Sound) (hs : InlineStep id s a s') : s'.Sound := by
  have hfits := h.fits
  have hslot := h.slot
  cases hs with
  | persist hp =>
    rw [hp] at hslot
    exact ⟨⟨_, rfl, rfl⟩, hslot, h.cancels⟩
  | launch hp =>
    rw [hp] at hfits hslot
    exact ⟨hfits, hslot, h.cancels⟩
  | register hp hsl _ =>
    rw [hsl] at hslot
    exact ⟨hfits, hslot, fun _ => rfl⟩
  | @poll task hp _ _ =>
    have hpolled := h.task hp
    exact h.atTask hp hpolled
  | drop hp _ _ hd => exact h.atTask hp (h.unterminated hp rfl hd)
  | park hp =>
    have hparked := h.task hp
    exact h.atTask hp hparked
  | start now hp _ hpc => exact (h.onRecord _).atTask hp (h.unterminated hp hpc rfl)
  | invoke hp _ hpc =>
    rw [hp] at hslot
    exact ⟨h.unterminated hp hpc rfl, hslot, h.cancels⟩
  | answer result hp _ hpc => exact h.atTask hp (h.unterminated hp hpc rfl)
  | record now hp _ hpc => exact (h.onRecord _).atTask hp (h.unterminated hp hpc rfl)
  | read hp _ hpc => exact h.read hp hpc
  | write hp hpc =>
    have hwritten := h.task hp
    rw [hpc] at hwritten
    rw [hp] at hslot
    exact ⟨⟨_, rfl, hwritten.2⟩, hslot, h.cancels⟩
  | cancelUnknown _ _ => exact h
  | cancelAbsent hn _ => exact ⟨hfits, hslot, h.cancels⟩
  | cancel hsl =>
    rw [hsl] at hslot
    exact ⟨hfits, hslot, fun _ => rfl⟩
  | call pre post hc => exact h.call _ (by simp [hc])
  | returned pre post now hc =>
    have hmarked := h.onRecord (·.markTerminal now .cancelled)
    exact ⟨hmarked.fits, hmarked.slot, fun _ => hmarked.cancels (by simp [InlineRun.onRecord, hc])⟩
  | crash => exact ⟨trivial, rfl, by simp⟩
  | boot hp hr hu => exact h.unslotted hp rfl rfl rfl rfl ⟨hr, hu⟩
  | bootSettled hp _ => exact h.unslotted hp rfl rfl rfl rfl trivial
  | replay hp _ =>
    rw [hp] at hfits
    exact h.unslotted hp rfl rfl rfl rfl hfits.2
  | giveUp hp _ => exact h.giveUp hp
  | fail hp => exact h.unslotted hp rfl rfl rfl rfl trivial
  | count hp =>
    rw [hp] at hfits
    exact h.unslotted hp rfl rfl rfl rfl ⟨rfl, hfits⟩
  | resolve now fresh hp _ =>
    rw [hp] at hfits
    refine ⟨?_, rfl, fun _ => rfl⟩
    exact Unterminated.not_closed ⟨_, hfits.1, hfits.2⟩
  | notFound hp _ => exact h.unslotted hp rfl rfl rfl rfl trivial

end InlineRun.Sound

theorem InlineRun.reaches_sound {id : Uuid} {spec : WorkflowSpec} {s : InlineRun}
    (h : Reaches (InlineStep id) (InlineRun.Spawned id spec) s) : s.Sound := by
  refine Reaches.invariant ?_ (fun _ _ _ _ hs hstep => hs.step hstep) h
  rintro _ ⟨now, rfl⟩
  refine ⟨?_, rfl, fun hc => absurd rfl hc⟩
  rintro ⟨i, hi, _⟩
  cases hi

/-! ## What a cancellation is followed by -/

def InlineEvent.revives : InlineEvent → Bool
  | .invoked _ | .listed | .respawned => true
  | .cancelled => false

/-- After a cancellation has returned, the row is terminal, and the run is neither invoked nor listed
nor respawned. -/
def InlineRun.StaysDown (s : InlineRun) : Prop :=
  (.cancelled ∈ s.trace → Closed s.row) ∧
    s.trace.Pairwise fun a b => a = .cancelled → b.revives = false

/-- A cancellation of a live run returns when the run's task is through. Without a slot it is called
only when there is nothing to replay. -/
def ReturnsAfterTask (s : InlineRun) : InlineMove → Prop
  | .cancel => s.slot = none → ¬Unterminated s.row
  | .returned true => ∃ task, s.phase = .launched task ∧ task.pc = .finished
  | _ => True

/-- The process is through with the run. -/
def Phase.Over : Phase → Prop
  | .down | .settled => True
  | .launched task => task.pc = .finished
  | .replaying _ | .failing _ | .counting _ | .resolving _ | .inserted _ _ | .persisted _ _ => False

section Step

variable {id : Uuid} {s s' : InlineRun} {a : InlineMove}

theorem InlineStep.trace_cases (hs : InlineStep id s a s') :
    s'.trace = s.trace ∨
    (s'.trace = s.trace ++ [.cancelled] ∧ s'.row = s.row ∧ s'.phase = s.phase ∧
      ((a = .cancel ∧ s.slot = none ∧ Unterminated s.row) ∨ (a = .returned true ∧ s.cancels ≠ []))) ∨
    ∃ e, s'.trace = s.trace ++ [e] ∧ e.revives = true ∧ (Unterminated s.row ∨ ¬s.phase.Over) := by
  cases hs with
  | @launch spec respawn hp =>
    cases respawn with
    | false => exact .inl rfl
    | true =>
      refine .inr (.inr ⟨.respawned, rfl, rfl, .inr ?_⟩)
      rw [hp]
      exact not_false
  | invoke hp _ hpc =>
    refine .inr (.inr ⟨_, rfl, rfl, .inr ?_⟩)
    rw [hp]
    intro hover
    cases hpc.symm.trans hover
  | cancelAbsent hn hu => exact .inr (.inl ⟨rfl, rfl, rfl, .inl ⟨rfl, hn, hu⟩⟩)
  | @returned live pre post now hc =>
    cases live with
    | false => exact .inl rfl
    | true => exact .inr (.inl ⟨rfl, rfl, rfl, .inr ⟨rfl, by simp [hc]⟩⟩)
  | boot hp hr hu => exact .inr (.inr ⟨.listed, rfl, rfl, .inl ⟨_, hr, hu⟩⟩)
  | persist _ | register _ _ _ | poll _ _ _ | drop _ _ _ _ | park _ | start _ _ _ _ | answer _ _ _ _
  | record _ _ _ _ | read _ _ _ | write _ _ | cancelUnknown _ _ | cancel _ | call _ _ _ | crash
  | bootSettled _ _ | replay _ _ | giveUp _ _ | fail _ | count _ | resolve _ _ _ _ | notFound _ _ =>
    exact .inl rfl

theorem Phase.Over.abort {p : Phase} (h : p.Over) : p.abort.Over := by
  cases p with
  | launched task => exact h
  | down | settled => trivial
  | replaying _ | failing _ | counting _ | resolving _ | inserted _ _ | persisted _ _ => exact h.elim

/-- Once the row is terminal and the process is through with the run, both stay so. -/
theorem InlineStep.over (hs : InlineStep id s a s') (hc : Closed s.row) (ho : s.phase.Over) :
    Closed s'.row ∧ s'.phase.Over := by
  cases hs with
  | persist hp | launch hp | replay hp _ | giveUp hp _ | fail hp | count hp | resolve _ _ hp _
  | notFound hp _ =>
    rw [hp] at ho
    exact ho.elim
  | start _ hp _ hpc | invoke hp _ hpc | answer _ hp _ hpc | record _ hp _ hpc | read hp _ hpc
  | write hp hpc =>
    rw [hp] at ho
    cases hpc.symm.trans ho
  | drop hp _ _ hd =>
    rw [hp] at ho
    rw [show _ = TaskPc.finished from ho] at hd
    cases hd
  | poll hp _ _ | park hp =>
    rw [hp] at ho
    exact ⟨hc, ho⟩
  | @call live hook pre post hcalls =>
    refine ⟨hc, ?_⟩
    by_cases hhook : hook = .registered
    · simp only [if_pos hhook]
      exact ho.abort
    · simp only [if_neg hhook]
      exact ho
  | boot hp hr hu => exact absurd hc (Unterminated.not_closed ⟨_, hr, hu⟩)
  | register _ _ _ | cancelUnknown _ _ | cancelAbsent _ _ | cancel _ | returned _ _ _ _ => exact ⟨hc, ho⟩
  | crash | bootSettled _ _ => exact ⟨hc, trivial⟩

end Step

/-- What a run keeps whose cancellations return after the task. -/
structure InlineRun.Kept (s : InlineRun) : Prop where
  sound : s.Sound
  down : .cancelled ∈ s.trace → Closed s.row ∧ s.phase.Over
  order : s.trace.Pairwise fun a b => a = .cancelled → b.revives = false

theorem InlineRun.Kept.step {id : Uuid} {s s' : InlineRun} {a : InlineMove} (h : s.Kept)
    (hok : ReturnsAfterTask s a) (hs : InlineStep id s a s') : s'.Kept := by
  have hsound := h.sound.step hs
  obtain htrace | ⟨htrace, hrow, hphase, hmove⟩ | ⟨e, htrace, he, hlive⟩ := hs.trace_cases
  · refine ⟨hsound, ?_, htrace ▸ h.order⟩
    intro hc
    obtain ⟨hclosed, hover⟩ := h.down (htrace ▸ hc)
    exact hs.over hclosed hover
  · -- a cancellation returns
    refine ⟨hsound, ?_, ?_⟩
    · intro _
      rw [hrow, hphase]
      obtain ⟨rfl, hslot, hopen⟩ | ⟨rfl, _⟩ := hmove
      · exact absurd hopen (hok hslot)
      · obtain ⟨task, hp, hpc⟩ := hok
        have hclosed := h.sound.task hp
        rw [hpc] at hclosed
        rw [hp]
        exact ⟨hclosed, hpc⟩
    · rw [htrace, List.pairwise_append]
      refine ⟨h.order, List.pairwise_singleton _ _, ?_⟩
      intro _ _ b hb _
      rw [List.mem_singleton.mp hb]
      rfl
  · -- what brings the run back comes before any cancellation has returned
    have hnone : .cancelled ∉ s.trace := by
      intro hc
      obtain ⟨hclosed, hover⟩ := h.down hc
      obtain hopen | hnot := hlive
      · exact hopen.not_closed hclosed
      · exact hnot hover
    refine ⟨hsound, ?_, ?_⟩
    · intro hc
      rw [htrace, List.mem_append, List.mem_singleton] at hc
      obtain hc | rfl := hc
      · exact absurd hc hnone
      · cases he
    · rw [htrace, List.pairwise_append]
      refine ⟨h.order, List.pairwise_singleton _ _, ?_⟩
      rintro a ha _ _ rfl
      exact absurd ha hnone

/-- A live run whose task is not through has an open row. -/
theorem InlineRun.Sound.not_closed {s : InlineRun} (h : s.Sound) (hc : s.cancels ≠ [])
    (hnot : ¬∃ task, s.phase = .launched task ∧ task.pc = .finished) : ¬Closed s.row := by
  have hfits := h.fits
  have hslot := h.slot.symm.trans (h.cancels hc)
  cases hp : s.phase with
  | inserted spec respawn =>
    rw [hp] at hfits
    exact hfits
  | persisted spec respawn =>
    rw [hp] at hfits
    exact hfits.not_closed
  | launched task =>
    have htask := h.task hp
    cases hpc : task.pc with
    | finished => exact absurd ⟨task, hp, hpc⟩ hnot
    | writing i =>
      rw [hpc] at htask
      exact htask.1.not_closed
    | ready _ | running _ | invoking | answered _ | recorded _ | dropped =>
      rw [hpc] at htask
      exact Unterminated.not_closed htask
  | down | settled | replaying _ | failing _ | counting _ | resolving _ =>
    rw [hp] at hslot
    cases hslot

/-- In every history of a run whose cancellations return after its task, a cancelled run stays down. A
cancellation that returns at any other time leaves the row open. -/
theorem cancelled_run_stays_down (id : Uuid) (spec : WorkflowSpec) :
    (∀ s, ReachesBy (InlineStep id) ReturnsAfterTask (InlineRun.Spawned id spec) s → s.StaysDown) ∧
    ∀ s a s', Reaches (InlineStep id) (InlineRun.Spawned id spec) s → ¬ReturnsAfterTask s a →
      InlineStep id s a s' → ¬s'.StaysDown := by
  refine ⟨?_, ?_⟩
  · intro s h
    have hkept : s.Kept := by
      refine ReachesBy.invariant ?_ (fun _ _ _ _ hk hok hs => hk.step hok hs) h
      rintro _ ⟨now, rfl⟩
      exact ⟨InlineRun.reaches_sound (.start ⟨now, rfl⟩), by simp [InlineRun.spawned], .nil⟩
    exact ⟨fun hc => (hkept.down hc).1, hkept.order⟩
  · rintro s a s' h hnot hs ⟨hdown, _⟩
    have hsound := InlineRun.reaches_sound h
    cases hs with
    | cancelUnknown _ hu => exact hnot fun _ => hu
    | cancelAbsent _ hu =>
      exact hu.not_closed (hdown (List.mem_append_right _ (List.mem_singleton_self _)))
    | cancel hsl =>
      refine hnot fun hn => ?_
      cases hn.symm.trans hsl
    | @returned live pre post now hc =>
      cases live with
      | false => exact hnot trivial
      | true =>
        refine hsound.not_closed (by simp [hc]) hnot (hdown ?_)
        exact List.mem_append_right _ (List.mem_singleton_self _)
    | persist _ | launch _ | register _ _ _ | poll _ _ _ | drop _ _ _ _ | park _ | start _ _ _ _
    | invoke _ _ _ | answer _ _ _ _ | record _ _ _ _ | read _ _ _ | write _ _ | call _ _ _ | crash
    | boot _ _ _ | bootSettled _ _ | replay _ _ | giveUp _ _ | fail _ | count _ | resolve _ _ _ _
    | notFound _ _ => exact hnot trivial

/-- A cancellation that begins while the workflow runs, and returns after the task's last write. -/
theorem cancelled_at_last_write : ∃ s,
    ReachesBy (InlineStep 1) ReturnsAfterTask (InlineRun.Spawned 1 innerSpec) s ∧
      .cancelled ∈ s.trace ∧ s.StaysDown := by
  have hstart : ReachesBy (InlineStep 1) ReturnsAfterTask (InlineRun.Spawned 1 innerSpec)
      (.spawned 1 innerSpec 0) := .start ⟨0, rfl⟩
  have hlaunched := (hstart.tail (a := InlineMove.persist) trivial (.persist rfl)).tail
    (a := InlineMove.launch) trivial (.launch rfl)
  have hpolled := (hlaunched.tail (a := InlineMove.register) trivial (.register rfl rfl rfl)).tail
    (a := InlineMove.poll) trivial (.poll rfl rfl rfl)
  have hinvoked := (hpolled.tail (a := InlineMove.start) trivial (.start 1 rfl rfl rfl)).tail
    (a := InlineMove.invoke) trivial (.invoke rfl rfl rfl)
  have htaken := hinvoked.tail (a := InlineMove.cancel) (fun hn => nomatch hn) (.cancel rfl)
  have hrecorded := (htaken.tail (a := InlineMove.answer) trivial (.answer (.ok .null) rfl rfl rfl)).tail
    (a := InlineMove.record) trivial (.record 2 rfl rfl rfl)
  have hwritten := (hrecorded.tail (a := InlineMove.read) trivial (.read rfl rfl rfl)).tail
    (a := InlineMove.write) trivial (.write rfl rfl)
  have hcalled := hwritten.tail (a := InlineMove.call) trivial (.call [] [] rfl)
  have hreturned := hcalled.tail (a := InlineMove.returned true) ⟨_, rfl, rfl⟩ (.returned [] [] 3 rfl)
  refine ⟨_, hreturned, ?_, (cancelled_run_stays_down 1 innerSpec).1 _ hreturned⟩
  exact List.mem_append_right _ (List.mem_singleton_self _)

/-- The run is cancelled while its workflow runs. After a restart it is listed, respawned and invoked
again. -/
theorem cancelled_run_comes_back : ∃ s env env',
    Reaches (InlineStep 1) (InlineRun.Spawned 1 innerSpec) s ∧
      s.trace = [.invoked env, .cancelled, .listed, .respawned, .invoked env'] ∧ ¬s.StaysDown := by
  have hstart : ReachesBy (InlineStep 1) (Unanswered (· = demoSystem.registry))
      (InlineRun.Spawned 1 innerSpec) (.spawned 1 innerSpec 0) := .start ⟨0, rfl⟩
  have hlaunched := (hstart.tail (a := InlineMove.persist) trivial (.persist rfl)).tail
    (a := InlineMove.launch) trivial (.launch rfl)
  have hpolled := (hlaunched.tail (a := InlineMove.register) trivial (.register rfl rfl rfl)).tail
    (a := InlineMove.poll) trivial (.poll rfl rfl rfl)
  have hinvoked := (hpolled.tail (a := InlineMove.start) trivial (.start 1 rfl rfl rfl)).tail
    (a := InlineMove.invoke) trivial (.invoke rfl rfl rfl)
  have hparked := hinvoked.tail (a := InlineMove.park) trivial (.park rfl)
  have hcalled := (hparked.tail (a := InlineMove.cancel) trivial (.cancel rfl)).tail
    (a := InlineMove.call) trivial (.call [] [] rfl)
  have hreturned := hcalled.tail (a := InlineMove.returned true) trivial (.returned [] [] 2 rfl)
  have hdropped := hreturned.tail (a := InlineMove.poll) trivial (.drop rfl rfl rfl rfl)
  have hfound : demoSystem.registry.contains
      (workflowToolName (Intent.new innerSpec 1).workflow) = true := by
    decide +kernel
  obtain ⟨s, hrespawned, _, hphase, htrace⟩ := respawn_reaches hdropped rfl rfl rfl rfl hfound
  have hagain := ((hrespawned.reaches.tail trivial (.poll hphase rfl rfl)).tail trivial
    (.start 3 rfl rfl rfl)).tail trivial (.invoke rfl rfl rfl)
  refine ⟨_, _, _, hagain, congrArg (· ++ [_]) htrace, ?_⟩
  have hcancelled : .cancelled ∈ s.trace := by
    rw [htrace]
    exact List.mem_append_left _ (List.mem_append_right _ (List.mem_singleton_self _))
  rintro ⟨_, horder⟩
  cases (List.pairwise_append.mp horder).2.2 .cancelled hcancelled _ (List.mem_singleton_self _) rfl

end Konf.Runner
