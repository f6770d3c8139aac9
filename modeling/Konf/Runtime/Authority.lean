import Konf.Executor.ParsedRun
import Konf.Runtime.Handoff

/-! # Authority along hand-offs

The authority of an activity is the set of names its capabilities grant, whatever form they have
there: grants of a scope, capability set of an envelope, pattern list of an intent or a timer. No
hand-off adds to it. -/

namespace Konf.Runtime
open Konf.Substrate Konf.Executor Konf.Transition
set_option autoImplicit false

def ExecutionScope.authority (scope : ExecutionScope) : LowerSet PatternName :=
  (CapSet.fromPatterns scope.capabilityPatterns).authority

def Activity.authority : Activity → LowerSet PatternName
  | .running scope _ _ => scope.authority
  | .dispatched _ env | .invoked _ env | .replied env => env.capabilities.authority
  | .spawning spec => spec.parentScope.authority
  | .intent i => (CapSet.fromPatterns i.capabilities).authority
  | .timer r => (CapSet.fromPatterns r.capabilities).authority

def Activity.envelope : Activity → Option Envelope
  | .dispatched _ env | .invoked _ env | .replied env => some env
  | .running _ _ _ | .spawning _ | .intent _ | .timer _ => none

theorem authority_new (ps : List String) (s : ExecutionScope)
    (h : s.capabilities = ps.map CapabilityGrant.new) :
    s.authority = (CapSet.fromPatterns ps).authority := by
  rw [ExecutionScope.authority, ExecutionScope.capabilityPatterns, h, patterns_new]

theorem childScope_authority {scope child : ExecutionScope} {caps : List CapabilityGrant}
    {ns : Option String} (h : scope.childScope caps ns = .ok child) : child.capabilities = caps := by
  unfold ExecutionScope.childScope at h
  split at h
  · cases h
  · cases h
    rfl

/-- No hand-off adds authority. -/
theorem Handoff.authority_le {sys : System} {table : ProcessTable} {a b : Activity}
    (h : Handoff sys table a b) : b.authority ≤ a.authority := by
  cases h with
  | step _ _ _ _ hd =>
    obtain ⟨-, -, inputs, capabilities, hcaps, rfl⟩ := dispatch_ok hd
    exact toolCapabilities_le hcaps
  | deliver h =>
    obtain ⟨-, p, rfl⟩ := Tool.deliver_ok h
    exact le_rfl
  | @nest wf env child hchild _ =>
    have hcaps : child.capabilities = env.capabilities.toPatterns.map CapabilityGrant.new :=
      childScope_authority hchild
    change child.authority ≤ env.capabilities.authority
    rw [authority_new _ child hcaps, fromPatterns_toPatterns]
  | @spawn env spec h =>
    change spec.parentScope.authority ≤ env.capabilities.authority
    rw [spawnSpec_ok h, authority_new env.capabilities.toPatterns _ rfl, fromPatterns_toPatterns]
  | @replay i fresh _ =>
    change (i.replaySpec fresh).parentScope.authority ≤ _
    rw [authority_new i.capabilities _ rfl]
    exact le_rfl
  | @schedule env r cronCheck jobId h =>
    change (CapSet.fromPatterns r.capabilities).authority ≤ env.capabilities.authority
    rw [(scheduleRecord_ok h).1, fromPatterns_toPatterns]
  | persist | recount | launch | fire | bridge | reply => exact le_rfl

theorem Root.authority_le {scope : ExecutionScope} {a : Activity} (h : Root scope a) :
    a.authority ≤ scope.authority := by
  cases h with
  | start => exact le_rfl
  | dispatch h =>
    unfold System.dispatchTool at h
    obtain ⟨bindings, -, h⟩ := Fallible.bind_ok h
    split at h
    · cases h
    · split_ifs at h
      cases h
      exact le_rfl

theorem chain_authority_le {scope : ExecutionScope} {a : Activity}
    (h : Reaches HandoffStep (Root scope) a) : a.authority ≤ scope.authority := by
  induction h with
  | start h => exact h.authority_le
  | tail _ _ hs ih => exact le_trans (Handoff.authority_le hs) ih

theorem Activity.authority_of_envelope {a : Activity} {env : Envelope}
    (h : a.envelope = some env) : a.authority = env.capabilities.authority := by
  cases a with
  | dispatched | invoked | replied =>
    cases h
    rfl
  | _ => cases h

/-- Every envelope built in a chain of hand-offs that starts under a scope grants only what the
scope's patterns grant. -/
theorem authority_never_amplifies (scope : ExecutionScope) (a : Activity)
    (h : Reaches HandoffStep (Root scope) a) (env : Envelope) (henv : a.envelope = some env)
    (t : String) (ht : env.capabilities.checkAccess t = .ok ()) :
    (CapSet.fromPatterns scope.capabilityPatterns).checkAccess t = .ok () := by
  have hle : env.capabilities.authority ≤ scope.authority := by
    rw [← a.authority_of_envelope henv]
    exact chain_authority_le h
  rw [checkAccess_ok_iff] at ht ⊢
  exact hle ht

/-! ## A chain through a nested run -/

def baseSystem (tools : List BaseTool) : System where
  lib := plainExternals
  evaluateAsBool := fun _ _ => .ok true
  registry := ToolRegistry.new.registerAll tools
  guards := ∅
  config := EngineConfig.default
  hasScheduler := false
  hasIntents := false

def demoScope (grants : List CapabilityGrant) : ExecutionScope where
  namespace_ := "konf:demo"
  capabilities := grants
  limits := ResourceLimits.default
  actor := ⟨"alice", .user⟩
  depth := 0

def oneStep (id : String) (step : Step) : Workflow :=
  { Workflow.new id id step.id with steps := [step] }

def innerWf : Workflow := oneStep "inner" (Step.new "say" "echo")

/-- The step passes on less than it holds. -/
def outerWf : Workflow :=
  oneStep "outer" { Step.new "call" "workflow:inner" with grant := some ["echo"] }

def demoSystem : System := baseSystem [.plain "echo", .workflow innerWf]

def callerScope : ExecutionScope := demoScope [.new "workflow:*", .new "echo"]

def demoContext : ExecutionContext := .withTrace 1 "s"

/-- The inner run's call of `echo` carries `echo` only, which the root scope grants. -/
theorem nested_call_within_scope : ∃ base env,
    Reaches HandoffStep (Root callerScope) (.invoked base env) ∧
      env.capabilities.checkAccess "echo" = .ok () ∧
      (CapSet.fromPatterns callerScope.capabilityPatterns).checkAccess "echo" = .ok () := by
  have hrun : ((demoSystem.firstNested ∅ callerScope demoContext outerWf).bind fun r =>
      demoSystem.firstCall r.1 r.2.1 r.2.2).any
        (fun c => decide (c.2.capabilities.checkAccess "echo" = .ok ())) = true := by
    decide +kernel
  obtain ⟨⟨base, env⟩, hcall, haccess⟩ := (Option.any_eq_true ..).mp hrun
  obtain ⟨⟨child, ctx, inner⟩, hnested, hcall⟩ := Option.bind_eq_some_iff.mp hcall
  have hroot : Reaches HandoffStep (Root callerScope) (.running callerScope demoContext outerWf) :=
    .start (.start _ _ (show callerScope.validateStart ∅ = .ok () by decide +kernel))
  have hsize : 0 < demoSystem.config.finishedChannelSize := by decide
  have hchild := reaches_firstNested hsize hroot (fun _ => trivial) hnested
  have hinvoked := reaches_firstCall ∅ hsize hchild (fun _ => trivial) hcall
  have haccess : env.capabilities.checkAccess "echo" = .ok () := of_decide_eq_true haccess
  exact ⟨base, env, hinvoked, haccess,
    authority_never_amplifies callerScope _ hinvoked env rfl "echo" haccess⟩

end Konf.Runtime
