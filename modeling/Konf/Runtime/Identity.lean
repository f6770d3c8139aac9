import Konf.Runtime.Authority

/-! # Identity along hand-offs

An actor is an id and a role, and the two travel apart. The id is a field of the envelope. The role
is a metadata key, which a step's envelope does not have although the run's metadata does, so a run
that is started by a hand-off gets the default of `from_envelope`: the system role. The inline runner
puts its own id in the place of the caller's. -/

namespace Konf.Runtime
open Konf.Substrate Konf.Executor Konf.Transition
set_option autoImplicit false

def Activity.actorId : Activity → String
  | .running scope _ _ => scope.actor.id
  | .dispatched _ env | .invoked _ env | .replied env => env.actorId
  | .spawning spec => spec.parentScope.actor.id
  | .intent i => i.actor.id
  | .timer r => r.actor.id

/-- A request to the inline runner, or the intent kept for one. -/
def Activity.atRunner : Activity → Bool
  | .spawning _ | .intent _ => true
  | _ => false

def Activity.isSpawn : Activity → Bool
  | .spawning _ => true
  | _ => false

/-- The activity carries no role other than the default of `from_envelope`. -/
def Activity.Roleless : Activity → Prop
  | .running scope _ _ => scope.actor.role = .system
  | .dispatched _ env | .invoked _ env | .replied env => env.metadata.lookup "actor_role" = none
  | .spawning _ | .intent _ | .timer _ => True

/-- The id that the inline runner acts under. -/
def runnerActorId : String := "runner:inline"

/-! ## One hand-off -/

section Hop
variable {sys : System} {table : ProcessTable} {a b : Activity}

/-- A hand-off keeps the actor id, except where the inline runner launches a workflow. -/
theorem Handoff.actorId_eq (h : Handoff sys table a b) :
    b.actorId = if a.isSpawn && !b.atRunner then runnerActorId else a.actorId := by
  cases h with
  | step _ _ _ _ hd =>
    obtain ⟨-, -, inputs, capabilities, -, rfl⟩ := dispatch_ok hd
    rfl
  | deliver h =>
    obtain ⟨-, p, rfl⟩ := Tool.deliver_ok h
    rfl
  | nest hchild _ =>
    rw [childScope_self] at hchild
    cases hchild
    rfl
  | @spawn env spec h =>
    change spec.parentScope.actor.id = env.actorId
    rw [spawnSpec_ok h]
    rfl
  | @schedule env r _ _ h =>
    change r.actor.id = env.actorId
    rw [(scheduleRecord_ok h).2.2]
  | persist | launch | recount | replay | fire | bridge | reply => rfl

/-- What is kept for the inline runner leaves it through a launch only. -/
theorem Handoff.atRunner_of (h : Handoff sys table a b) (ha : a.atRunner = true)
    (hspawn : a.isSpawn = false) : b.atRunner = true := by
  cases h with
  | recount | replay => rfl
  | persist | launch => cases hspawn
  | _ => cases ha

/-- A step's envelope has no role, and no later hand-off adds one. -/
theorem Handoff.roleless_of (h : Handoff sys table a b)
    (ha : a.Roleless ∨ ∃ scope ctx wf, a = .running scope ctx wf) : b.Roleless := by
  cases h with
  | step _ _ _ _ hd =>
    obtain ⟨-, -, inputs, capabilities, -, rfl⟩ := dispatch_ok hd
    rfl
  | deliver h =>
    obtain ⟨-, p, rfl⟩ := Tool.deliver_ok h
    obtain ha | ⟨_, _, _, heq⟩ := ha
    · exact ha
    · cases heq
  | @nest wf env child hchild _ =>
    obtain ha | ⟨_, _, _, heq⟩ := ha
    · rw [childScope_self] at hchild
      cases hchild
      have hnone : env.metadata.lookup "actor_role" = none := ha
      change (ExecutionScope.fromEnvelope env).actor.role = .system
      simp only [ExecutionScope.fromEnvelope, hnone, Option.bind_none]
    · cases heq
  | bridge | reply =>
    obtain ha | ⟨_, _, _, heq⟩ := ha
    · exact ha
    · cases heq
  | launch | fire => rfl
  | spawn | persist | recount | replay | schedule => trivial

end Hop

/-! ## Whole chains -/

/-- Who an activity acts for, given the activities before it in its chain. -/
structure ActsFor (root : ExecutionScope) (before : List Activity) (a : Activity) : Prop where
  started : before = [] → ∃ ctx wf, a = .running root ctx wf
  kept : before.any Activity.isSpawn = false → a.actorId = root.actor.id
  replaced : before.any Activity.isSpawn = true → a.atRunner = false → a.actorId = runnerActorId
  roleless : before ≠ [] → a.Roleless

theorem ActsFor.hop {root : ExecutionScope} {before : List Activity} {a b : Activity} {sys : System}
    {table : ProcessTable} (h : ActsFor root before a) (hs : Handoff sys table a b) :
    ActsFor root (before ++ [a]) b := by
  have hid := hs.actorId_eq
  have hany : (before ++ [a]).any Activity.isSpawn = (before.any Activity.isSpawn || a.isSpawn) := by
    simp
  refine ⟨fun hnil => ?_, fun hnone => ?_, fun hsome hb => ?_, fun _ => ?_⟩
  · exact absurd hnil (by simp)
  · rw [hany, Bool.or_eq_false_iff] at hnone
    rw [hid, hnone.2]
    exact h.kept hnone.1
  · rw [hid]
    cases hspawn : a.isSpawn with
    | true => simp [hb]
    | false =>
      rw [hany, hspawn, Bool.or_false] at hsome
      have hfree : a.atRunner = false := by
        by_contra hat
        have hstill := hs.atRunner_of (Bool.not_eq_false _ ▸ hat) hspawn
        rw [hb] at hstill
        cases hstill
      exact h.replaced hsome hfree
  · apply hs.roleless_of
    by_cases hnil : before = []
    · obtain ⟨ctx, wf, ha⟩ := h.started hnil
      exact .inr ⟨root, ctx, wf, ha⟩
    · exact .inl (h.roleless hnil)

theorem actsFor_of_path {root : ExecutionScope} {before : List Activity} {a : Activity}
    (h : Path HandoffStep (StartedUnder root) before a) : ActsFor root before a := by
  induction h with
  | start h =>
    obtain ⟨table, ctx, wf, -, rfl⟩ := h
    exact ⟨fun _ => ⟨ctx, wf, rfl⟩, fun _ => rfl, nofun, fun hne => absurd rfl hne⟩
  | tail _ hs ih => exact ih.hop hs

/-- A run in a chain of hand-offs from a root run acts for the root's actor exactly when it is the
root run itself, or when the root's role is already the system role and no spawn lies on the way (or
the root has the inline runner's own id). -/
theorem identity_preserved_iff (root : ExecutionScope) (before : List Activity)
    (scope : ExecutionScope) (ctx : ExecutionContext) (wf : Workflow)
    (h : Path HandoffStep (StartedUnder root) before (.running scope ctx wf)) :
    (scope.actor.id = root.actor.id ∧ scope.actor.role = root.actor.role) ↔
      before = [] ∨ (root.actor.role = .system ∧
        (root.actor.id = "runner:inline" ∨ ∀ a ∈ before, a.isSpawn = false)) := by
  have hacts := actsFor_of_path h
  by_cases hnil : before = []
  · obtain ⟨ctx', wf', heq⟩ := hacts.started hnil
    cases heq
    exact iff_of_true ⟨rfl, rfl⟩ (.inl hnil)
  · have hrole : scope.actor.role = .system := hacts.roleless hnil
    have hid : scope.actor.id = root.actor.id ↔
        (root.actor.id = "runner:inline" ∨ ∀ a ∈ before, a.isSpawn = false) := by
      cases hany : before.any Activity.isSpawn with
      | false =>
        refine iff_of_true (hacts.kept hany) (.inr ?_)
        intro a ha
        rw [List.any_eq_false] at hany
        exact Bool.not_eq_true _ ▸ hany a ha
      | true =>
        have hrunner : scope.actor.id = "runner:inline" := hacts.replaced hany rfl
        obtain ⟨a, ha, hspawn⟩ := List.any_eq_true.mp hany
        have hnot : ¬∀ a ∈ before, a.isSpawn = false := by
          intro hall
          rw [hall a ha] at hspawn
          cases hspawn
        rw [hrunner, eq_comm]
        simp only [hnot, or_false]
    rw [hid, hrole, and_comm]
    simp only [hnil, false_or, eq_comm (a := ActorRole.system)]

/-! ## A nested run -/

theorem path_firstNested {sys : System} {scope child : ExecutionScope} {ctx ctx' : ExecutionContext}
    {wf inner : Workflow} {table : ProcessTable} {init : Activity → Prop} {before : List Activity}
    (hsize : 0 < sys.config.finishedChannelSize)
    (hp : Path HandoffStep init before (.running scope ctx wf))
    (h : sys.firstNested table scope ctx wf = some (child, ctx', inner)) :
    ∃ tool sent base env, Path HandoffStep init
      (before ++ [.running scope ctx wf] ++ [.dispatched tool sent] ++ [.invoked base env])
        (.running child ctx' inner) := by
  obtain ⟨tool, sent, env, hstep, hcall, hnest⟩ := firstNested_handoffs hsize h
  have hdispatched : Path HandoffStep init _ (.dispatched tool sent) :=
    hp.tail (show HandoffStep _ (sys, table) _ from hstep)
  have hinvoked : Path HandoffStep init _ (.invoked (.workflow inner) env) :=
    hdispatched.tail (show HandoffStep _ (sys, table) _ from .deliver hcall)
  exact ⟨tool, sent, _, env, hinvoked.tail (show HandoffStep _ (sys, table) _ from hnest)⟩

/-- The caller of the demonstration, in another role. -/
def roleScope (role : ActorRole) : ExecutionScope :=
  { callerScope with actor := ⟨"alice", role⟩ }

theorem roleScope_nested (role : ActorRole) : ∃ before scope ctx wf,
    Path HandoffStep (StartedUnder (roleScope role)) before (.running scope ctx wf) ∧
      before ≠ [] ∧ ∀ a ∈ before, a.isSpawn = false := by
  have hsome : (demoSystem.firstNested ∅ callerScope demoContext outerWf).isSome = true := by
    decide +kernel
  obtain ⟨⟨child, ctx, inner⟩, hnested⟩ := Option.isSome_iff_exists.mp hsome
  have hroot : Path HandoffStep (StartedUnder (roleScope role)) []
      (.running (roleScope role) demoContext outerWf) :=
    .start ⟨∅, demoContext, outerWf, show callerScope.validateStart ∅ = .ok () by decide +kernel, rfl⟩
  -- the first call of the run does not read the role
  have hnested' : demoSystem.firstNested ∅ (roleScope role) demoContext outerWf =
    some (child, ctx, inner) := hnested
  obtain ⟨tool, sent, base, env, hp⟩ := path_firstNested (by decide) hroot hnested'
  refine ⟨_, child, ctx, inner, hp, by simp, ?_⟩
  simp [Activity.isSpawn]

/-- A run of the system actor starts a nested run that is the system actor's. -/
theorem system_identity_kept : ∃ before scope ctx wf,
    Path HandoffStep (StartedUnder (roleScope .system)) before (.running scope ctx wf) ∧
      before ≠ [] ∧ scope.actor.id = "alice" ∧ scope.actor.role = .system := by
  obtain ⟨before, scope, ctx, wf, hp, hne, hspawn⟩ := roleScope_nested .system
  have hsame := (identity_preserved_iff _ before scope ctx wf hp).mpr (.inr ⟨rfl, .inr hspawn⟩)
  exact ⟨before, scope, ctx, wf, hp, hne, hsame.1, hsame.2⟩

/-- A run of a user starts a nested run in the system role. -/
theorem user_becomes_system : ∃ before scope ctx wf,
    Path HandoffStep (StartedUnder (roleScope .user)) before (.running scope ctx wf) ∧
      scope.actor.role = .system ∧ scope.actor.role ≠ (roleScope .user).actor.role := by
  obtain ⟨before, scope, ctx, wf, hp, hne, hspawn⟩ := roleScope_nested .user
  have hrole : scope.actor.role = .system := (actsFor_of_path hp).roleless hne
  refine ⟨before, scope, ctx, wf, hp, hrole, ?_⟩
  rw [hrole]
  decide

end Konf.Runtime
