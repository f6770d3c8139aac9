import Konf.Executor.Machine
import Konf.Foundations.Fallible
import Konf.Substrate.Tool

/-! # One step

Model of `execute_step`, `invoke_with_retry` and `calculate_backoff`
(`konflux-substrate/src/executor.rs`): inputs are resolved, access is checked, the tool is looked up,
a `grant` is validated, the envelope is built, and the tool is tried until an attempt settles the
step. What an attempt does (the tool's answer, a timeout, a panic of the tool, a cancellation seen
before it) is chosen from outside; whether the wait before it panics is computed. The events that a
call hands to the `EventRecorder` follow from the same choice. A `Duration` counts in milliseconds
here, up to the `2 ^ 64` seconds that the type holds. -/

namespace Konf.Executor
open Konf.Substrate Konf.Fallible
set_option autoImplicit false

structure StepContext (T : Type) [NamedTool T] where
  registry : ToolRegistry T
  capabilities : List String
  config : EngineConfig
  metadata : StrMap Json
  workflowId : String

/-- An attempt: a cancellation seen before it, an answer, a timeout, or a panic of the tool or, as
`StepContext.outcome` says, of the wait before it. -/
inductive Attempt
  | cancelled
  | completed (res : Except ToolError Json)
  | timedOut
  | panicked

/-- Everything `execute_step` does not decide itself: the trace id used when the metadata has none,
and the outcome of each attempt, counted from one. -/
structure StepAnswer where
  newTraceId : Uuid
  attempt : ℕ → Attempt

section Dispatch
variable {T : Type} [NamedTool T] (ctx : StepContext T)

def StepContext.nodeFailed (node message : String) : KonfluxError :=
  .execution (.nodeFailed ctx.workflowId node message)

def StepContext.metadataStr (key default : String) : String :=
  ((ctx.metadata.lookup key).bind Json.asStr).getD default

def StepContext.traceId (lib : Externals) (fresh : Uuid) : Uuid :=
  (((ctx.metadata.lookup "trace_id").bind Json.asStr).bind lib.parseUuid).getD fresh

/-- The capabilities a step passes on: its `grant` if it has one and the context covers it. -/
def StepContext.toolCapabilities (step : Step) : Except KonfluxError (List String) :=
  match step.grant with
  | some grant => match validateGrant grant ctx.capabilities with
    | .ok _ => .ok grant
    | .error e => .error (.tool (.capabilityDenied e))
  | none => .ok ctx.capabilities

def StepContext.lookupTool (name : String) : Except KonfluxError T :=
  match ctx.registry.get name with
  | some tool => .ok tool
  | none => .error (.tool (.notFound name))

/-- The tool a step calls and the envelope it calls it with. -/
def StepContext.dispatch (lib : Externals) (fresh : Uuid) (step : Step)
    (outputs : Outputs) : Except KonfluxError (T × Envelope) := do
  let inputs ← (resolveInputs lib step.input outputs).mapError fun e =>
    ctx.nodeFailed step.id ("Failed to resolve inputs: " ++ e)
  (checkToolAccess step.tool ctx.capabilities).mapError .tool
  let tool ← ctx.lookupTool step.tool
  let capabilities ← ctx.toolCapabilities step
  .ok (tool, Envelope.forToolDispatch step.tool (.obj inputs) capabilities
    (ctx.traceId lib fresh) (ctx.metadataStr "namespace" "unknown")
    (ctx.metadataStr "actor_id" "unknown") (ctx.metadataStr "session_id" "unknown"))

/-- The first number of milliseconds that is too long for a `Duration`. -/
def durationBound : ℕ := 2 ^ 64 * 1000

/-- `Duration * u32`, which panics on overflow. -/
def durationMul (d n : ℕ) : Option ℕ := if d * n < durationBound then some (d * n) else none

/-- `Duration::saturating_add`. -/
def durationSaturatingAdd (a b : ℕ) : ℕ := min (a + b) (durationBound - 1)

/-- `none` is a panic. -/
def calculateBackoff (policy : Option RetryPolicy) (attempt : ℕ) (config : EngineConfig) :
    Option ℕ :=
  match policy with
  | none => some config.defaultRetryBackoffMs
  | some p =>
    let delay : Option ℕ := match p.backoff with
      | .fixed => some p.baseDelay
      | .exponential =>
        -- `as u64` truncates, the power and the product saturate
        let multiplier := min (2 ^ (attempt - 1)) (2 ^ 64 - 1)
        some (min (p.baseDelay % 2 ^ 64 * multiplier) (2 ^ 64 - 1))
      | .linear increment =>
        (durationMul increment (attempt - 1)).map (durationSaturatingAdd p.baseDelay)
    delay.map fun d => min d p.maxDelay

def isRetryable : ToolError → Bool
  | .executionFailed _ retryable => retryable
  | .timeout _ => true
  | _ => false

-- the milliseconds of a `Duration` are `u128`, the field is `u64`
def StepContext.timeoutError (step : Step) : ToolError :=
  .timeout (step.timeout.getD ctx.config.defaultTimeoutMs % 2 ^ 64)

/-- The wait before attempt `n` panics. There is none before the first. -/
def StepContext.backoffPanics (step : Step) (n : ℕ) : Bool :=
  decide (1 < n) && (calculateBackoff step.retry (n - 1) ctx.config).isNone

/-- What attempt `n` comes to: a cancellation is seen before the wait, the tool is called after it. -/
def StepContext.outcome (step : Step) (answer : ℕ → Attempt) (n : ℕ) : Attempt :=
  match answer n with
  | .cancelled => .cancelled
  | called => if ctx.backoffPanics step n then .panicked else called

/-- The loop over attempts: `left` attempts remain, the next one is number `n`. -/
def StepContext.attempts (step : Step) (answer : ℕ → Attempt) :
    ℕ → ℕ → Except KonfluxError Json
  | 0, _ => .error (.tool
      (.executionFailed "No execution attempts were permitted by retry policy" false))
  | left + 1, n =>
    let settle (e : ToolError) : Except KonfluxError Json :=
      if isRetryable e = false ∨ left = 0 then .error (.tool e)
      else StepContext.attempts step answer left (n + 1)
    match ctx.outcome step answer n with
    | .cancelled => .error (.execution (.cancelled ctx.workflowId))
    | .panicked => .error (ctx.nodeFailed step.id "Tool execution panicked")
    | .completed (.ok output) => .ok output
    | .completed (.error e) => settle e
    | .timedOut => settle (ctx.timeoutError step)

-- `max_attempts + 1` is `u32` arithmetic
def maxAttempts (step : Step) : ℕ :=
  match step.retry with
  | some policy => (policy.maxAttempts + 1) % 2 ^ 32
  | none => 1

def StepContext.executeStep (lib : Externals) (answer : StepAnswer) (step : Step)
    (outputs : Outputs) : Except KonfluxError Json := do
  let _ ← ctx.dispatch lib answer.newTraceId step outputs
  ctx.attempts step answer.attempt (maxAttempts step) 1

/-- The context as the executor of the workflow has it. -/
def StepContext.forWorkflow (workflow : Workflow) : StepContext T :=
  { ctx with workflowId := workflow.id }

def StepContext.executor (lib : Externals)
    (evaluateAsBool : Outputs → String → Except String Bool) (workflow : Workflow) :
    ExecutorEnv where
  workflow := workflow
  config := ctx.config
  Answer := StepAnswer
  executeStep := (ctx.forWorkflow workflow).executeStep lib
  evaluateAsBool := evaluateAsBool

/-! ## Lifecycle events -/

/-- `ExecutorEvent`, without durations. -/
inductive ExecutorEvent
  | nodeStarted (nodeId tool : String)
  | nodeCompleted (nodeId tool : String) (output : Json)
  | nodeFailed (nodeId tool error : String)
  | toolRetry (nodeId tool : String) (attempt : ℕ) (error : String)
deriving DecidableEq

/-- The retries that the loop over attempts announces. -/
def StepContext.retryEvents (step : Step) (tool : String) (answer : ℕ → Attempt) :
    ℕ → ℕ → List ExecutorEvent
  | 0, _ => []
  | left + 1, n =>
    let settle (e : ToolError) : List ExecutorEvent :=
      if isRetryable e = false ∨ left = 0 then []
      else .toolRetry step.id tool n e.display ::
        StepContext.retryEvents step tool answer left (n + 1)
    match ctx.outcome step answer n with
    | .cancelled | .panicked | .completed (.ok _) => []
    | .completed (.error e) => settle e
    | .timedOut => settle (ctx.timeoutError step)

/-- The loop over attempts ends in a panic, of the tool or of the wait before an attempt. -/
def StepContext.panics (step : Step) (answer : ℕ → Attempt) : ℕ → ℕ → Bool
  | 0, _ => false
  | left + 1, n =>
    let settle (e : ToolError) : Bool :=
      if isRetryable e = false ∨ left = 0 then false
      else StepContext.panics step answer left (n + 1)
    match ctx.outcome step answer n with
    | .panicked => true
    | .cancelled | .completed (.ok _) => false
    | .completed (.error e) => settle e
    | .timedOut => settle (ctx.timeoutError step)

/-- The retries of a call of `execute_step`, in order. -/
def StepContext.stepRetries (lib : Externals) (answer : StepAnswer) (step : Step)
    (outputs : Outputs) : List ExecutorEvent :=
  match ctx.dispatch lib answer.newTraceId step outputs with
  | .error _ => []
  | .ok (tool, _) =>
    ctx.retryEvents step (NamedTool.name tool) answer.attempt (maxAttempts step) 1

/-- The event with which `execute_step` ends. It has none when it returns before the first attempt,
and none when it unwinds. -/
def StepContext.finalEvent (lib : Externals) (answer : StepAnswer) (step : Step)
    (outputs : Outputs) : Option ExecutorEvent :=
  match ctx.dispatch lib answer.newTraceId step outputs with
  | .error _ => none
  | .ok _ =>
    if ctx.panics step answer.attempt (maxAttempts step) 1 then none
    else match ctx.attempts step answer.attempt (maxAttempts step) 1 with
      | .ok output => some (.nodeCompleted step.id step.tool output)
      | .error e => some (.nodeFailed step.id step.tool e.display)

end Dispatch

/-! ## What a dispatched step has passed -/

section Dispatched
variable {T : Type} [NamedTool T] {ctx : StepContext T}

/-- The envelope of a step, given its resolved inputs and capabilities. -/
def StepContext.envelope (ctx : StepContext T) (lib : Externals) (fresh : Uuid) (step : Step)
    (inputs : List (String × Json)) (capabilities : List String) : Envelope :=
  Envelope.forToolDispatch step.tool (.obj inputs) capabilities (ctx.traceId lib fresh)
    (ctx.metadataStr "namespace" "unknown") (ctx.metadataStr "actor_id" "unknown")
    (ctx.metadataStr "session_id" "unknown")

theorem dispatch_ok {lib : Externals} {fresh : Uuid} {step : Step} {outputs : Outputs} {tool : T}
    {env : Envelope} (h : ctx.dispatch lib fresh step outputs = .ok (tool, env)) :
    checkToolAccess step.tool ctx.capabilities = .ok () ∧ ctx.registry.get step.tool = some tool ∧
      ∃ inputs capabilities, ctx.toolCapabilities step = .ok capabilities ∧
        env = ctx.envelope lib fresh step inputs capabilities := by
  unfold StepContext.dispatch at h
  obtain ⟨inputs, -, h⟩ := bind_ok h
  obtain ⟨⟨⟩, haccess, h⟩ := bind_ok h
  obtain ⟨found, hfound, h⟩ := bind_ok h
  obtain ⟨capabilities, hcaps, h⟩ := bind_ok h
  cases h
  refine ⟨mapError_ok haccess, ?_, inputs, capabilities, hcaps, rfl⟩
  unfold StepContext.lookupTool at hfound
  split at hfound
  · rename_i hget
    cases hfound
    exact hget
  · cases hfound

/-- Once its checks pass, a step's call depends on the registry alone. -/
theorem dispatch_eq_lookup {lib : Externals} {fresh : Uuid} {step : Step} {outputs : Outputs}
    {inputs : List (String × Json)} {capabilities : List String}
    (hinputs : resolveInputs lib step.input outputs = .ok inputs)
    (haccess : checkToolAccess step.tool ctx.capabilities = .ok ())
    (hcaps : ctx.toolCapabilities step = .ok capabilities) :
    (ctx.dispatch lib fresh step outputs).toOption =
      (ctx.registry.get step.tool).map fun tool =>
        (tool, ctx.envelope lib fresh step inputs capabilities) := by
  unfold StepContext.dispatch StepContext.lookupTool
  rw [hinputs, haccess, hcaps]
  cases ctx.registry.get step.tool with
  | none => rfl
  | some tool => rfl

/-- A `grant` can only narrow. -/
theorem toolCapabilities_le {step : Step} {capabilities : List String}
    (h : ctx.toolCapabilities step = .ok capabilities) :
    (CapSet.fromPatterns capabilities).authority ≤
      (CapSet.fromPatterns ctx.capabilities).authority := by
  unfold StepContext.toolCapabilities at h
  split at h
  · split at h
    · rename_i hvalid
      cases h
      exact (validateGrant_ok_iff _ _).mp hvalid
    · cases h
  · cases h
    exact le_rfl

end Dispatched

end Konf.Executor
