import Konf.Executor.ExecuteStep
import Konf.Foundations.Fallible
import Konf.Runtime.Guard
import Konf.Runtime.Scope

/-! # Scoped engines

Model of the tool wrappers (`context.rs`, `guard.rs`), of `Runtime::build_scoped_engine` and
`build_execution_metadata` (`runtime.rs`), and of `Dispatcher::dispatch_tool` (`dispatcher.rs`).

The engine's registry holds unwrapped tools. What a tool does is told apart only where it hands work
on: a workflow as a tool, `ai:complete`, `runner:spawn`, `schedule:create`; every other tool is
known by its name. -/

namespace Konf.Runtime
open Konf.Substrate Konf.Executor Konf.Fallible
set_option autoImplicit false

/-! ## Tools and wrappers -/

inductive BaseTool
  | plain (name : String)
  | workflow (wf : Workflow)
  | aiComplete
  | spawn
  | schedule

def workflowToolName (id : String) : String := "workflow:" ++ id

def BaseTool.name : BaseTool → String
  | .plain name => name
  | .workflow wf => workflowToolName wf.id
  | .aiComplete => "ai:complete"
  | .spawn => "runner:spawn"
  | .schedule => "schedule:create"

instance : NamedTool BaseTool := ⟨BaseTool.name⟩

inductive Tool
  | base (tool : BaseTool)
  | virtualized (inner : Tool) (bindings : StrMap Json)
  | guarded (inner : Tool) (rules : List Rule) (defaultAction : DefaultAction)

def Tool.name : Tool → String
  | .base tool => tool.name
  | .virtualized inner _ => inner.name
  | .guarded inner _ _ => inner.name

instance : NamedTool Tool := ⟨Tool.name⟩

/-- The payload with every binding written over it. -/
def bindFields (bindings : StrMap Json) (fields : List (String × Json)) : List (String × Json) :=
  bindings.entries.foldl (fun fields e => Json.insertField e.1 e.2 fields) fields

def injectBindings (bindings : StrMap Json) (env : Envelope) : Except ToolError Envelope :=
  if bindings.entries.isEmpty then .ok env
  else match env.payload with
    | .obj fields => .ok { env with payload := .obj (bindFields bindings fields) }
    | _ => .error (.invalidInput "payload must be a JSON object when bindings are present" none)

/-- What happens to an envelope on its way through the wrappers to the tool inside. -/
def Tool.deliver : Tool → Envelope → Except ToolError (BaseTool × Envelope)
  | .base tool, env => .ok (tool, env)
  | .virtualized inner bindings, env => do
    let env ← injectBindings bindings env
    inner.deliver env
  | .guarded inner rules defaultAction, env => do
    evaluateRules defaultAction inner.name env.payload rules
    inner.deliver env

/-! ## The runtime -/

structure ToolGuardEntry where
  rules : List Rule
  defaultAction : DefaultAction
  alias_ : Option String

/-- The parts of a running system that a dispatch reads. -/
structure System where
  lib : Externals
  evaluateAsBool : Outputs → String → Except String Bool
  registry : ToolRegistry BaseTool
  guards : StrMap ToolGuardEntry
  config : EngineConfig
  hasScheduler : Bool
  hasIntents : Bool

namespace System
variable (sys : System)

/-- The wrapper for the bindings; without bindings there is none. -/
def virtualize (bindings : StrMap Json) (tool : BaseTool) : Tool :=
  if bindings.entries.isEmpty then .base tool else .virtualized (.base tool) bindings

/-- The wrapper for the guard entry of a name; without rules there is none. -/
def guard (name : String) (tool : Tool) : Tool :=
  match sys.guards.lookup name with
  | some entry =>
    if entry.rules.isEmpty then tool else .guarded tool entry.rules entry.defaultAction
  | none => tool

/-- The registered tool that a guard entry redirects a name to. -/
def aliasTool (name : String) : Option BaseTool :=
  ((sys.guards.lookup name).bind ToolGuardEntry.alias_).bind sys.registry.get

/-- What the loop of `build_scoped_engine` registers for a listed name. -/
def scopedTool (scope : ExecutionScope) (name : String) : Option Tool :=
  match scope.checkTool name with
  | .error _ => none
  | .ok bindings => match sys.aliasTool name with
    | some tool => some (.base tool)
    | none => (sys.registry.get name).map fun tool => sys.guard name (virtualize bindings tool)

def buildScopedEngine (scope : ExecutionScope) : ToolRegistry Tool :=
  ToolRegistry.new.registerAll (sys.registry.names.filterMap (sys.scopedTool scope))

def executionMetadata (scope : ExecutionScope) (ctx : ExecutionContext) : StrMap Json :=
  StrMap.ofList
    [("trace_id", .str (sys.lib.formatUuid ctx.traceId)),
      ("namespace", .str scope.namespace_),
      ("actor_id", .str scope.actor.id),
      ("session_id", .str ctx.sessionId),
      ("actor_role", .str scope.actor.role.name),
      ("depth", Json.ofNat scope.depth)]
    (by simp)

def stepContext (scope : ExecutionScope) (ctx : ExecutionContext) (wf : Workflow) :
    StepContext Tool where
  registry := sys.buildScopedEngine scope
  capabilities := scope.capabilityPatterns
  config := { sys.config with
    maxSteps := scope.limits.maxSteps
    maxWorkflowTimeoutMs := scope.limits.maxWorkflowTimeoutMs }
  metadata := sys.executionMetadata scope ctx
  workflowId := wf.id

def executor (scope : ExecutionScope) (ctx : ExecutionContext) (wf : Workflow) : ExecutorEnv :=
  (sys.stepContext scope ctx wf).executor sys.lib sys.evaluateAsBool wf

/-- `dispatch_tool` up to the invocation, for a call that is not answered from the journal. -/
def dispatchTool (toolName : String) (input : Json) (scope : ExecutionScope)
    (ctx : ExecutionContext) (now : ℕ) : Except RuntimeError (Tool × Envelope) := do
  let bindings ← scope.checkTool toolName
  match sys.registry.get toolName with
  | none => .error (.capabilityDenied ("tool '" ++ toolName ++ "' not found in engine registry"))
  | some rawTool =>
    if ctx.deadline.any (fun d => d < now) then .error (.deadlineExceeded toolName)
    else .ok (sys.guard toolName (virtualize bindings rawTool),
      { Envelope.forToolDispatch toolName input scope.capabilityPatterns ctx.traceId
          scope.namespace_ scope.actor.id ctx.sessionId with
        deadline := ctx.deadline
        idempotencyKey := ctx.idempotencyKey
        metadata := StrMap.ofList
          [("actor_role", .str scope.actor.role.name), ("session_id", .str ctx.sessionId),
            ("depth", Json.ofNat scope.depth)]
          (by simp) })

end System

/-! ## Delivery -/

section Delivery

theorem injectBindings_ok {bindings : StrMap Json} {env env' : Envelope}
    (h : injectBindings bindings env = .ok env') : ∃ p, env' = { env with payload := p } := by
  unfold injectBindings at h
  split_ifs at h with hempty
  · cases h
    exact ⟨env.payload, rfl⟩
  · split at h
    · cases h
      exact ⟨_, rfl⟩
    · cases h

/-- Wrappers change the payload only, and deliver to the tool they wrap. -/
theorem Tool.deliver_ok {tool : Tool} {env env' : Envelope} {base : BaseTool}
    (h : tool.deliver env = .ok (base, env')) :
    base.name = tool.name ∧ ∃ p, env' = { env with payload := p } := by
  induction tool generalizing env with
  | base t =>
    cases h
    exact ⟨rfl, _, rfl⟩
  | virtualized inner bindings ih =>
    obtain ⟨env₁, hinject, h⟩ := bind_ok h
    obtain ⟨p, rfl⟩ := injectBindings_ok hinject
    obtain ⟨hname, q, hq⟩ := ih h
    exact ⟨hname, q, hq⟩
  | guarded inner rules action ih =>
    obtain ⟨-, -, h⟩ := bind_ok h
    exact ih h

theorem System.virtualize_name (bindings : StrMap Json) (tool : BaseTool) :
    (System.virtualize bindings tool).name = tool.name := by
  unfold System.virtualize
  split_ifs <;> rfl

theorem System.guard_name (sys : System) (n : String) (tool : Tool) :
    (sys.guard n tool).name = tool.name := by
  unfold System.guard
  split
  · split_ifs <;> rfl
  · rfl

end Delivery
end Konf.Runtime
