import Konf.Substrate.Envelope
import Konf.Runtime.Process

/-! # Execution scopes

Model of `konf-runtime/src/scope.rs` and `execution_context.rs`: capability grants with parameter
bindings, resource limits, and the passage between scopes and envelopes. -/

namespace Konf.Runtime
open Konf.Text Konf.Substrate
set_option autoImplicit false

inductive RuntimeError
  | resourceLimit (limit : String) (value : ℕ)
  | capabilityDenied (message : String)
  | deadlineExceeded (tool : String)
  | tool (tool message : String)
  | engine (e : KonfluxError)
deriving DecidableEq, Repr

def RuntimeError.display : RuntimeError → String
  | .resourceLimit limit value =>
    "resource limit exceeded: " ++ limit ++ " (max " ++ toString value ++ ")"
  | .capabilityDenied message => "capability denied: " ++ message
  | .deadlineExceeded name => "deadline exceeded for tool '" ++ name ++ "'"
  | .tool name message => "tool '" ++ name ++ "' failed: " ++ message
  | .engine e => "engine error: " ++ e.display

def ActorRole.name : ActorRole → String
  | .infraAdmin => "infra_admin"
  | .productAdmin => "product_admin"
  | .user => "user"
  | .infraAgent => "infra_agent"
  | .productAgent => "product_agent"
  | .userAgent => "user_agent"
  | .system => "system"

def ActorRole.parse (s : String) : Option ActorRole :=
  [ActorRole.infraAdmin, .productAdmin, .user, .infraAgent, .productAgent, .userAgent,
    .system].find? fun r => r.name == s

structure ResourceLimits where
  maxSteps : ℕ
  maxWorkflowTimeoutMs : ℕ
  maxConcurrentNodes : ℕ
  maxChildDepth : ℕ
  maxActiveRunsPerNamespace : ℕ
  eventBusCapacity : ℕ
deriving DecidableEq, Repr

def ResourceLimits.default : ResourceLimits where
  maxSteps := 1000
  maxWorkflowTimeoutMs := 300000
  maxConcurrentNodes := 50
  maxChildDepth := 10
  maxActiveRunsPerNamespace := 20
  eventBusCapacity := 1024

/-! ## Grants -/

structure CapabilityGrant where
  pattern : String
  bindings : StrMap Json

/-- A grant with no bindings. -/
def CapabilityGrant.new (pattern : String) : CapabilityGrant := ⟨pattern, ∅⟩

def CapabilityGrant.matches (grant : CapabilityGrant) (toolName : String) : Option (StrMap Json) :=
  if (Capability.mk grant.pattern).matches toolName then some grant.bindings else none

/-- What `child_scope` asks of a parent pattern. -/
def patternCovers (parent child : String) : Bool :=
  if parent = "*" then true
  else if parent = child then true
  else match stripSuffix parent ":*" with
    | some parentPrefix =>
      if !endsWith child ":*" then (Capability.mk parent).matches child
      else match stripSuffix child ":*" with
        | some childPrefix =>
          startsWith childPrefix parentPrefix &&
            (childPrefix == parentPrefix ||
              byteAt childPrefix (byteLen parentPrefix.toList) == some 58)
        | none => false
    | none => false

theorem patternCovers_self (p : String) : patternCovers p p = true := by
  unfold patternCovers
  simp

/-! ## Scopes -/

structure ExecutionScope where
  namespace_ : String
  capabilities : List CapabilityGrant
  limits : ResourceLimits
  actor : Actor
  depth : ℕ

structure ExecutionContext where
  traceId : Uuid
  sessionId : String
  deadline : Option ℕ
  idempotencyKey : Option String

def ExecutionContext.withTrace (traceId : Uuid) (sessionId : String) : ExecutionContext :=
  ⟨traceId, sessionId, none, none⟩

namespace ExecutionScope

/-- The bindings of the first grant that matches the tool. -/
def checkTool (scope : ExecutionScope) (toolName : String) : Except RuntimeError (StrMap Json) :=
  match scope.capabilities.findSome? fun grant => grant.matches toolName with
  | some bindings => .ok bindings
  | none => .error (.capabilityDenied
      ("tool '" ++ toolName ++ "' not granted in scope '" ++ scope.namespace_ ++ "'"))

def childScope (scope : ExecutionScope) (childCapabilities : List CapabilityGrant)
    (childNamespace : Option String) : Except RuntimeError ExecutionScope :=
  match childCapabilities.find? fun child =>
      !scope.capabilities.any fun parent => patternCovers parent.pattern child.pattern with
  | some child => .error (.capabilityDenied ("capability '" ++ child.pattern ++
      "' cannot be granted — parent scope '" ++ scope.namespace_ ++ "' does not have it"))
  | none => .ok { scope with
      namespace_ := childNamespace.getD scope.namespace_
      capabilities := childCapabilities
      depth := scope.depth + 1 }

def validateStart (scope : ExecutionScope) (table : ProcessTable) : Except RuntimeError Unit :=
  if scope.limits.maxActiveRunsPerNamespace ≤ table.activeCountInNamespace scope.namespace_ then
    .error (.resourceLimit "max_active_runs_per_namespace" scope.limits.maxActiveRunsPerNamespace)
  else if scope.limits.maxChildDepth ≤ scope.depth then
    .error (.resourceLimit "max_child_depth" scope.limits.maxChildDepth)
  else .ok ()

def capabilityPatterns (scope : ExecutionScope) : List String :=
  scope.capabilities.map CapabilityGrant.pattern

/-- The scope of the caller, as far as its envelope carries it: patterns without bindings, the
default limits, and the depth found in the metadata. -/
def fromEnvelope (env : Envelope) : ExecutionScope where
  namespace_ := env.namespace_
  capabilities := env.capabilities.toPatterns.map CapabilityGrant.new
  limits := ResourceLimits.default
  actor :=
    { id := env.actorId
      role := match (env.metadata.lookup "actor_role").bind Json.asStr with
        | some s => (ActorRole.parse s).getD .user
        | none => .system }
  depth := (((env.metadata.lookup "depth").bind Json.asU64)).getD 0

end ExecutionScope

def ExecutionContext.fromEnvelope (env : Envelope) : ExecutionContext where
  traceId := env.traceId
  sessionId := ((env.metadata.lookup "session_id").bind Json.asStr).getD "workflow_tool"
  deadline := env.deadline
  idempotencyKey := env.idempotencyKey

/-! ## Basic facts -/

section Facts
variable {scope : ExecutionScope}

theorem patterns_new (ps : List String) :
    (ps.map CapabilityGrant.new).map CapabilityGrant.pattern = ps := by
  rw [List.map_map]
  exact List.map_id ps

@[simp] theorem fromPatterns_toPatterns (c : CapSet) : CapSet.fromPatterns c.toPatterns = c := by
  unfold CapSet.fromPatterns CapSet.toPatterns
  rw [List.map_map]
  exact congrArg CapSet.mk (List.map_id c.caps)

/-- A scope covers its own grants, so `WorkflowTool` can always build its child scope. -/
theorem childScope_self (scope : ExecutionScope) :
    scope.childScope scope.capabilities none = .ok { scope with depth := scope.depth + 1 } := by
  have hnone : (scope.capabilities.find? fun child =>
      !scope.capabilities.any fun parent => patternCovers parent.pattern child.pattern) = none := by
    rw [List.find?_eq_none]
    intro child hchild
    have hany : (scope.capabilities.any fun parent =>
        patternCovers parent.pattern child.pattern) = true :=
      List.any_eq_true.mpr ⟨child, hchild, patternCovers_self _⟩
    simp [hany]
  unfold ExecutionScope.childScope
  rw [hnone]
  rfl

/-- A granted tool is one the patterns match. -/
theorem checkTool_ok_iff (scope : ExecutionScope) (t : String) :
    (∃ b, scope.checkTool t = .ok b) ↔
      (CapSet.fromPatterns scope.capabilityPatterns).checkAccess t = .ok () := by
  rw [checkAccess_ok_iff, ← any_matches_iff, List.any_eq_true]
  unfold ExecutionScope.checkTool
  cases h : scope.capabilities.findSome? fun grant => grant.matches t with
  | none =>
    have hnone := List.findSome?_eq_none_iff.mp h
    simp only [reduceCtorEq, exists_false, false_iff]
    rintro ⟨c, hc, hm⟩
    rw [CapSet.fromPatterns, ExecutionScope.capabilityPatterns, List.map_map] at hc
    obtain ⟨g, hg, rfl⟩ := List.mem_map.mp hc
    have hgn := hnone g hg
    have hmatch : (Capability.mk g.pattern).matches t = true := hm
    rw [CapabilityGrant.matches, if_pos hmatch] at hgn
    cases hgn
  | some b =>
    obtain ⟨g, hg, hm⟩ := List.exists_of_findSome?_eq_some h
    rw [CapabilityGrant.matches] at hm
    split_ifs at hm with hmatch
    refine iff_of_true ⟨b, rfl⟩ ⟨⟨g.pattern⟩, ?_, hmatch⟩
    rw [CapSet.fromPatterns, ExecutionScope.capabilityPatterns, List.map_map]
    exact List.mem_map_of_mem hg

end Facts
end Konf.Runtime
