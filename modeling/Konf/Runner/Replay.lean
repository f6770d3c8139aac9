import Konf.Runner.Inline
import Konf.Runtime.Authority

/-! # Replays

`replay` counts the replays of an intent in its row and gives up after ten. `spawn_with_id`, which it
goes on to, writes the row anew with a count of zero. So the count is kept only where the spawn ends
before that write, which is where the workflow is not found. -/

namespace Konf.Runner
open Konf.Substrate Konf.Runtime Konf.Journal Konf.Transition
set_option autoImplicit false

/-! ## Histories -/

def InlineEvent.isRespawned : InlineEvent → Bool
  | .respawned => true
  | .invoked _ | .cancelled | .listed => false

def InlineRun.respawns (s : InlineRun) : ℕ := s.trace.countP InlineEvent.isRespawned

/-- The workflow does not answer, and the replays find one of these registries. -/
def Unanswered (registries : ToolRegistry BaseTool → Prop) (_ : InlineRun) : InlineMove → Prop
  | .answer => False
  | .resolve registry => registries registry
  | _ => True

/-- The run has been respawned ten times at most, and a replay after the tenth time gives up: it marks
the intent terminal. -/
def InlineRun.Bounded (s : InlineRun) : Prop :=
  s.respawns ≤ 10 ∧ ∀ i, s.phase = .replaying i → s.respawns = 10 → replayLimit < i.replayCount + 1

section Respawn

variable {id : Uuid} {spec : WorkflowSpec} {registries : ToolRegistry BaseTool → Prop}
  {registry : ToolRegistry BaseTool} {s : InlineRun}

/-- One restart: the process goes down, lists the row, counts it, and spawns the run again with a count
of zero. -/
theorem respawn_reaches
    (h : ReachesBy (InlineStep id) (Unanswered registries) (InlineRun.Spawned id spec) s) {i : Intent}
    (hrow : s.row = some i) (hopen : i.terminal = none) (hcount : i.replayCount = 0)
    (hr : registries registry)
    (hfound : registry.contains (workflowToolName i.workflow) = true) :
    ∃ s', ReachesBy (InlineStep id) (Unanswered registries) (InlineRun.Spawned id spec) s' ∧
      s'.row = some (.new (i.replaySpec 0) id) ∧
      s'.phase = .launched ⟨.ready (i.replaySpec 0), false, false⟩ ∧
      s'.trace = s.trace ++ [.listed, .respawned] := by
  have hdown := h.tail (a := InlineMove.crash) trivial .crash
  have hlisted := hdown.tail (a := InlineMove.boot) trivial (.boot rfl hrow hopen)
  have hcounting := hlisted.tail (a := InlineMove.replay) trivial (.replay rfl (by rw [hcount]; decide))
  have hcounted := hcounting.tail (a := InlineMove.count) trivial (.count rfl)
  have hresolved := hcounted.tail (a := InlineMove.resolve registry) hr (.resolve 0 0 rfl hfound)
  have hpersisted := hresolved.tail (a := InlineMove.persist) trivial (.persist rfl)
  have hlaunched := hpersisted.tail (a := InlineMove.launch) trivial (.launch rfl)
  exact ⟨_, hlaunched, rfl, rfl, List.append_assoc ..⟩

/-- Where the workflow is found, restart after restart respawns the run. -/
theorem respawned_any_number (id : Uuid) (spec : WorkflowSpec)
    (registries : ToolRegistry BaseTool → Prop) (hr : registries registry)
    (hfound : registry.contains (workflowToolName spec.workflow) = true) (n : ℕ) :
    ∃ s i, ReachesBy (InlineStep id) (Unanswered registries) (InlineRun.Spawned id spec) s ∧
      s.respawns = n ∧ s.row = some i ∧ i.terminal = none ∧ i.replayCount = 0 ∧
      i.workflow = spec.workflow := by
  induction n with
  | zero =>
    have hstart : ReachesBy (InlineStep id) (Unanswered registries) (InlineRun.Spawned id spec)
        (.spawned id spec 0) := .start ⟨0, rfl⟩
    have hpersisted := hstart.tail (a := InlineMove.persist) trivial (.persist rfl)
    exact ⟨_, _, hpersisted, rfl, rfl, rfl, rfl, rfl⟩
  | succ n ih =>
    obtain ⟨s, i, h, hn, hrow, hopen, hcount, hname⟩ := ih
    obtain ⟨s', h', hrow', _, htrace⟩ := respawn_reaches h hrow hopen hcount hr (hname ▸ hfound)
    refine ⟨s', _, h', ?_, hrow', rfl, rfl, hname⟩
    rw [InlineRun.respawns, htrace, List.countP_append, ← hn]
    rfl

end Respawn

/-! ## Where the workflow is gone -/

def TaskPc.Names (w : String) : TaskPc → Prop
  | .writing i => i.workflow = w
  | .ready _ | .running _ | .invoking | .answered _ | .recorded _ | .finished | .dropped => True

/-- The phases of a run that is not respawned. -/
def Phase.Names (w : String) : Phase → Prop
  | .down | .settled => True
  | .replaying i | .failing i | .counting i | .resolving i => i.workflow = w
  | .inserted spec respawn | .persisted spec respawn => spec.workflow = w ∧ respawn = false
  | .launched task => task.pc.Names w

/-- What a history without respawns keeps. -/
structure InlineRun.Unspawned (w : String) (s : InlineRun) : Prop where
  row : ∀ i, s.row = some i → i.workflow = w
  phase : s.phase.Names w
  trace : s.respawns = 0

namespace InlineRun.Unspawned

variable {id : Uuid} {w : String} {s s' : InlineRun} {registries : ToolRegistry BaseTool → Prop}

theorem at_ (h : s.Unspawned w) {phase : Phase} (hp : s.phase = phase) : phase.Names w :=
  hp ▸ h.phase

theorem respawns_append {e : InlineEvent} (he : e.isRespawned = false)
    (htrace : s'.trace = s.trace ++ [e]) : s'.respawns = s.respawns := by
  rw [respawns, htrace, List.countP_append, List.countP_singleton, he]
  rfl

theorem moved (h : s.Unspawned w) (hrow : s'.row = s.row) (hphase : s'.phase.Names w)
    (htrace : s'.respawns = s.respawns) : s'.Unspawned w :=
  ⟨hrow ▸ h.row, hphase, htrace.trans h.trace⟩

theorem written (h : s.Unspawned w) {i : Intent} (hi : i.workflow = w) (hrow : s'.row = some i)
    (hphase : s'.phase.Names w) (htrace : s'.trace = s.trace) : s'.Unspawned w := by
  refine ⟨?_, hphase, ?_⟩
  · intro j hj
    cases hrow.symm.trans hj
    exact hi
  · rw [InlineRun.respawns, htrace]
    exact h.trace

theorem abort (h : s.Unspawned w) : s.phase.abort.Names w := by
  cases hp : s.phase with
  | launched task =>
    have htask := h.at_ hp
    exact htask
  | down | settled | replaying _ | failing _ | counting _ | resolving _ | inserted _ _
  | persisted _ _ => exact h.at_ hp

theorem read (h : s.Unspawned w) {task : Task} (result : Except String Json) :
    (s.atTask { task with pc := match s.row with
      | some i => .writing (i.markTerminal (terminalStatus result))
      | none => .finished }).Unspawned w := by
  refine h.moved rfl ?_ rfl
  cases hrow : s.row with
  | none => trivial
  | some i => exact h.row i hrow

theorem giveUp (h : s.Unspawned w) :
    InlineRun.Unspawned w { s with phase := match s.row with
      | some j => .failing (j.markTerminal replayLimitExceeded)
      | none => .settled } := by
  refine h.moved rfl ?_ rfl
  cases hrow : s.row with
  | none => trivial
  | some j => exact h.row j hrow

theorem step {a : InlineMove} (hgone : ∀ registry, registries registry →
      registry.contains (workflowToolName w) = false) (h : s.Unspawned w)
    (hok : Unanswered registries s a) (hs : InlineStep id s a s') : s'.Unspawned w := by
  cases hs with
  | persist hp =>
    have hnames := h.at_ hp
    exact h.written hnames.1 rfl hnames rfl
  | @launch spec respawn hp =>
    have hfirst : respawn = false := (h.at_ hp).2
    subst hfirst
    exact h.moved rfl trivial rfl
  | register _ _ _ | cancelUnknown _ _ | cancel _ => exact h.moved rfl h.phase rfl
  | poll hp _ _ | park hp =>
    have htask := h.at_ hp
    exact h.moved rfl htask rfl
  | drop _ _ _ _ | start _ _ _ _ | answer _ _ _ _ | record _ _ _ _ => exact h.moved rfl trivial rfl
  | invoke _ _ _ => exact h.moved rfl trivial (respawns_append rfl rfl)
  | read _ _ _ => exact h.read _
  | write hp hpc =>
    have htask : TaskPc.Names w _ := h.at_ hp
    rw [hpc] at htask
    exact h.written htask rfl trivial rfl
  | cancelAbsent _ _ => exact h.moved rfl h.phase (respawns_append rfl rfl)
  | @call live hook pre post hc =>
    refine h.moved rfl ?_ rfl
    by_cases hhook : hook = .registered
    · simp only [if_pos hhook]
      exact h.abort
    · simp only [if_neg hhook]
      exact h.phase
  | @returned live pre post now hc =>
    cases live with
    | false => exact h.moved rfl h.phase rfl
    | true => exact h.moved rfl h.phase (respawns_append rfl rfl)
  | crash | bootSettled _ _ | notFound _ _ => exact h.moved rfl trivial rfl
  | boot _ hr _ => exact h.moved rfl (h.row _ hr) (respawns_append rfl rfl)
  | replay hp _ =>
    have hname := h.at_ hp
    exact h.moved rfl hname rfl
  | giveUp _ _ => exact h.giveUp
  | fail hp => exact h.written (h.at_ hp) rfl trivial rfl
  | count hp =>
    have hname := h.at_ hp
    exact h.written hname rfl hname rfl
  | @resolve i registry now fresh hp hr =>
    have hname : i.workflow = w := h.at_ hp
    rw [hname, hgone registry hok] at hr
    cases hr

end InlineRun.Unspawned

/-- For every spawned run and all registries that later boots may find: replays are bounded in every
history in which the workflow does not answer, if and only if none of the registries has the
workflow. -/
theorem replay_bounded_iff (id : Uuid) (spec : WorkflowSpec)
    (registries : ToolRegistry BaseTool → Prop) :
    (∀ s, ReachesBy (InlineStep id) (Unanswered registries) (InlineRun.Spawned id spec) s →
      s.Bounded) ↔
    ∀ registry, registries registry → registry.contains (workflowToolName spec.workflow) = false := by
  constructor
  · intro hbounded registry hr
    by_contra hfound
    rw [Bool.not_eq_false] at hfound
    obtain ⟨s, _, h, hn, _⟩ := respawned_any_number id spec registries hr hfound 11
    have hle := (hbounded s h).1
    omega
  · intro hgone s h
    have hunspawned : s.Unspawned spec.workflow := by
      refine ReachesBy.invariant ?_ (fun _ _ _ _ hu hok hs => hu.step hgone hok hs) h
      rintro _ ⟨now, rfl⟩
      exact ⟨by simp [InlineRun.spawned], ⟨rfl, rfl⟩, rfl⟩
    have hzero := hunspawned.trace
    refine ⟨by omega, ?_⟩
    intro i _ hten
    omega

def innerSpec : WorkflowSpec where
  workflow := "inner"
  input := .null
  parentScope := callerScope
  parentCtx := demoContext

/-- Eleven restarts respawn the run eleven times. -/
theorem respawned_eleven_times : ∃ s,
    ReachesBy (InlineStep 1) (Unanswered (· = demoSystem.registry)) (InlineRun.Spawned 1 innerSpec) s ∧
      s.respawns = 11 ∧ ¬s.Bounded := by
  obtain ⟨s, _, h, hn, _⟩ := respawned_any_number 1 innerSpec (· = demoSystem.registry) rfl
    (by decide +kernel) 11
  refine ⟨s, h, hn, ?_⟩
  rintro ⟨hle, _⟩
  omega

end Konf.Runner
