import Konf.Foundations.Transition
import Konf.Runtime.ScopedEngine

/-! # Hand-offs

How work started under a scope passes from place to place: a run's step calls a tool, a workflow
called as a tool starts a nested run (`workflow_tool.rs`), `runner:spawn` writes an intent and
launches a run (`konf-tool-runner`), an intent is replayed after a restart, `schedule:create` writes
a timer that fires later (`konf-init/src/schedule.rs`, `scheduler.rs`), and `ai:complete` calls
tools for a model (`konf-tool-llm`). Each hand-off rebuilds the caller's authority from what the
previous one left; authority never grows along a chain of them. -/

namespace Konf.Runtime
open Konf.Substrate Konf.Executor Konf.Text Konf.Fallible Konf.Transition
set_option autoImplicit false

/-! ## Spawning -/

structure WorkflowSpec where
  workflow : String
  input : Json
  parentScope : ExecutionScope
  parentCtx : ExecutionContext

structure RunnerIntent where
  runId : RunId
  workflow : String
  input : Json
  namespace_ : String
  capabilities : List String
  actor : Actor
  sessionId : String
  replayCount : ℕ

/-- The caller's scope as `runner:spawn` rebuilds it, at depth zero with the default limits. -/
def reconstructParentScope (env : Envelope) : ExecutionScope where
  namespace_ := env.namespace_
  capabilities := env.capabilities.toPatterns.map CapabilityGrant.new
  limits := ResourceLimits.default
  actor :=
    { id := env.actorId
      role := (((env.metadata.lookup "actor_role").bind Json.asStr).bind ActorRole.parse).getD
        .system }
  depth := 0

def reconstructParentContext (env : Envelope) : ExecutionContext :=
  .withTrace env.traceId (((env.metadata.lookup "session_id").bind Json.asStr).getD "runner")

def spawnSpec (env : Envelope) : Except ToolError WorkflowSpec :=
  match (env.payload.get "workflow").bind Json.asStr with
  | none => .error (.executionFailed "runner:spawn missing required field `workflow`" false)
  | some workflow => .ok
    { workflow := workflow
      input := (env.payload.get "input").getD (.obj [])
      parentScope := reconstructParentScope env
      parentCtx := reconstructParentContext env }

theorem spawnSpec_ok {env : Envelope} {spec : WorkflowSpec} (h : spawnSpec env = .ok spec) :
    spec.parentScope = reconstructParentScope env := by
  unfold spawnSpec at h
  split at h
  · cases h
  · cases h
    rfl

def WorkflowSpec.intent (spec : WorkflowSpec) (runId : RunId) : RunnerIntent where
  runId := runId
  workflow := spec.workflow
  input := spec.input
  namespace_ := spec.parentScope.namespace_
  capabilities := spec.parentScope.capabilityPatterns
  actor := spec.parentScope.actor
  sessionId := spec.parentCtx.sessionId
  replayCount := 0

/-- The envelope the inline runner hands to the workflow tool. -/
def WorkflowSpec.envelope (spec : WorkflowSpec) : Envelope :=
  { Envelope.forToolDispatch (workflowToolName spec.workflow) spec.input
      spec.parentScope.capabilityPatterns spec.parentCtx.traceId spec.parentScope.namespace_
      "runner:inline" ("runner_" ++ spec.workflow) with
    metadata := StrMap.ofList [("session_id", .str spec.parentCtx.sessionId)] (by simp) }

/-- The spawn request that `replay` rebuilds from an intent. -/
def RunnerIntent.replaySpec (i : RunnerIntent) (fresh : Uuid) : WorkflowSpec where
  workflow := i.workflow
  input := i.input
  parentScope :=
    { namespace_ := i.namespace_
      capabilities := i.capabilities.map CapabilityGrant.new
      limits := ResourceLimits.default
      actor := i.actor
      depth := 0 }
  parentCtx := .withTrace fresh i.sessionId

/-! ## Scheduling -/

inductive TimerMode
  | once
  | fixed (delayMs : ℕ)
  | cron (expr : String)
deriving DecidableEq, Repr

structure TimerRecord where
  jobId : Uuid
  workflow : String
  input : Json
  namespace_ : String
  capabilities : List String
  actor : Actor
  mode : TimerMode

def minFixedDelayMs : ℕ := 1000

def maxFixedDelayMs : ℕ := 7 * 24 * 3600 * 1000

def delayOutOfRange (ms : ℕ) : String :=
  "delay_ms=" ++ toString ms ++ " out of range (" ++ toString minFixedDelayMs ++ "–" ++
    toString maxFixedDelayMs ++ ")"

/-- `validate_record`, with the text of its error. -/
def TimerRecord.validate (r : TimerRecord) : Except String Unit :=
  if r.workflow = "" then .error "invalid input: workflow id is empty"
  else if r.namespace_ = "" then .error "invalid input: namespace is empty"
  else .ok ()

/-- The mode of a new timer. `cronCheck` stands for the `cron` crate: it parses the expression and
finds its next fire time, or fails with a text. -/
def timerMode (cronCheck : String → Except String Unit) (input : Json) (r : TimerRecord) :
    Except String TimerMode :=
  let delay := (input.get "delay_ms").bind fun v => v.asU64.or (v.asStr.bind parseU64)
  let repeats := ((input.get "repeat").bind Json.asBool).getD false
  match (input.get "cron").bind Json.asStr, delay with
  | some expr, _ => do
    r.validate
    (cronCheck expr).mapError fun e => "invalid input: " ++ e
    .ok (.cron expr)
  | none, some ms =>
    if minFixedDelayMs ≤ ms ∧ ms ≤ maxFixedDelayMs then do
      r.validate
      .ok (if repeats then .fixed ms else .once)
    else .error (if repeats then "invalid input: " ++ delayOutOfRange ms else delayOutOfRange ms)
  | none, none => .error "must provide either delay_ms or cron"

/-- `ScheduleTool::invoke`, up to the insertion of the record. -/
def scheduleRecord (sys : System) (cronCheck : String → Except String Unit) (jobId : Uuid)
    (env : Envelope) : Except ToolError TimerRecord := do
  if !sys.hasScheduler then
    .error (.executionFailed "scheduler not available (no persistent storage configured)" false)
  else match (env.payload.get "workflow").bind Json.asStr with
  | none => .error (.executionFailed "missing required field: workflow" false)
  | some workflow =>
    if sys.registry.contains (workflowToolName workflow) then
      let record : TimerRecord :=
        { jobId := jobId
          workflow := workflow
          input := (env.payload.get "input").getD (.obj [])
          namespace_ := env.namespace_
          capabilities := env.capabilities.toPatterns
          actor := ⟨env.actorId, .user⟩
          mode := .once }
      let mode ← (timerMode cronCheck env.payload record).mapError fun e => .executionFailed e false
      .ok { record with mode := mode }
    else .error (.notFound (workflowToolName workflow))

/-- A timer takes authority, namespace and actor id from the envelope that made it; the role is fixed. -/
theorem scheduleRecord_ok {sys : System} {cronCheck : String → Except String Unit} {jobId : Uuid}
    {env : Envelope} {r : TimerRecord} (h : scheduleRecord sys cronCheck jobId env = .ok r) :
    r.capabilities = env.capabilities.toPatterns ∧ r.namespace_ = env.namespace_ ∧
      r.actor = ⟨env.actorId, .user⟩ := by
  unfold scheduleRecord at h
  split_ifs at h
  split at h
  · cases h
  · split_ifs at h
    obtain ⟨mode, -, h⟩ := bind_ok h
    cases h
    exact ⟨rfl, rfl, rfl⟩

/-- The envelope of a fire. -/
def TimerRecord.envelope (lib : Externals) (r : TimerRecord) (fresh : Uuid) : Envelope :=
  Envelope.forToolDispatch (workflowToolName r.workflow) r.input r.capabilities fresh r.namespace_
    r.actor.id ("scheduler:" ++ lib.formatUuid r.jobId)

/-! ## Tools for a model -/

/-- The whitelist in the input of `ai:complete`. -/
def toolWhitelist (input : Json) : Option (List String) :=
  match input.get "tools" with
  | some (.arr items) => some (items.filterMap Json.asStr)
  | _ => none

/-- The listed names that pass the capability check and the whitelist. `ai:complete` itself passes
only when it is whitelisted. -/
def offersTool (env : Envelope) (whitelist : Option (List String)) (name : String) : Bool :=
  !(name == "ai:complete" && whitelist.all fun wl => !wl.contains "ai:complete") &&
    (checkToolAccess name env.capabilities.toPatterns).toBool &&
    whitelist.all fun wl => wl.contains name

/-- The tools are those of the engine's own registry, unwrapped. -/
def System.resolveTools (sys : System) (env : Envelope) (whitelist : Option (List String)) :
    List BaseTool :=
  (sys.registry.names.filter (offersTool env whitelist)).filterMap sys.registry.get

/-- The envelope of `KonfluxToolBridge::call`. -/
def bridgeEnvelope (env : Envelope) (input : Json) : Envelope := (env.respond .null).respond input

/-! ## Chains -/

/-- What a chain of hand-offs passes through. -/
inductive Activity
  | running (scope : ExecutionScope) (ctx : ExecutionContext) (wf : Workflow)
  | dispatched (tool : Tool) (env : Envelope)
  | invoked (tool : BaseTool) (env : Envelope)
  | replied (env : Envelope)
  | spawning (spec : WorkflowSpec)
  | intent (i : RunnerIntent)
  | timer (r : TimerRecord)

/-- One hand-off, in a system with this process table. -/
inductive Handoff (sys : System) (table : ProcessTable) : Activity → Activity → Prop
  | step {scope : ExecutionScope} {ctx : ExecutionContext} {wf : Workflow} {s : State} {t : Task}
      {seen : Outputs} {fresh : Uuid} {tool : Tool} {env : Envelope}
      (hgrant : validateGrant wf.capabilities scope.capabilityPatterns = .ok ())
      (hs : Reachable (sys.executor scope ctx wf) s) (ht : t ∈ s.tasks)
      (hpc : t.pc = .executing seen)
      (hd : (sys.stepContext scope ctx wf).dispatch sys.lib fresh t.current seen =
        .ok (tool, env)) :
      Handoff sys table (.running scope ctx wf) (.dispatched tool env)
  | deliver {tool : Tool} {base : BaseTool} {env env' : Envelope}
      (h : tool.deliver env = .ok (base, env')) :
      Handoff sys table (.dispatched tool env) (.invoked base env')
  | nest {wf : Workflow} {env : Envelope} {child : ExecutionScope}
      (hchild : (ExecutionScope.fromEnvelope env).childScope
        (ExecutionScope.fromEnvelope env).capabilities none = .ok child)
      (hstart : child.validateStart table = .ok ()) :
      Handoff sys table (.invoked (.workflow wf) env)
        (.running child (ExecutionContext.fromEnvelope env) wf)
  | spawn {env : Envelope} {spec : WorkflowSpec} (h : spawnSpec env = .ok spec) :
      Handoff sys table (.invoked .spawn env) (.spawning spec)
  | persist {spec : WorkflowSpec} (runId : RunId) (hintents : sys.hasIntents = true)
      (h : sys.registry.contains (workflowToolName spec.workflow) = true) :
      Handoff sys table (.spawning spec) (.intent (spec.intent runId))
  | launch {spec : WorkflowSpec} {tool : BaseTool}
      (h : sys.registry.get (workflowToolName spec.workflow) = some tool) :
      Handoff sys table (.spawning spec) (.dispatched (.base tool) spec.envelope)
  | recount {i : RunnerIntent} (h : sys.hasIntents = true) :
      Handoff sys table (.intent i) (.intent { i with replayCount := i.replayCount + 1 })
  | replay {i : RunnerIntent} (fresh : Uuid) (h : sys.hasIntents = true → i.replayCount + 1 ≤ 10) :
      Handoff sys table (.intent i) (.spawning (i.replaySpec fresh))
  | schedule {env : Envelope} {r : TimerRecord} {cronCheck : String → Except String Unit}
      {jobId : Uuid} (h : scheduleRecord sys cronCheck jobId env = .ok r) :
      Handoff sys table (.invoked .schedule env) (.timer r)
  | fire {r : TimerRecord} {tool : BaseTool} (fresh : Uuid)
      (h : sys.registry.get (workflowToolName r.workflow) = some tool) :
      Handoff sys table (.timer r) (.dispatched (.base tool) (r.envelope sys.lib fresh))
  | bridge {env : Envelope} {tool : BaseTool} (input : Json)
      (h : tool ∈ sys.resolveTools env (toolWhitelist env.payload)) :
      Handoff sys table (.invoked .aiComplete env)
        (.dispatched (.base tool) (bridgeEnvelope env input))
  | reply {tool : BaseTool} {env : Envelope} (output : Json) :
      Handoff sys table (.invoked tool env) (.replied (env.respond output))

inductive Root (scope : ExecutionScope) : Activity → Prop
  | start {table : ProcessTable} (ctx : ExecutionContext) (wf : Workflow)
      (h : scope.validateStart table = .ok ()) : Root scope (.running scope ctx wf)
  | dispatch {sys : System} {toolName : String} {input : Json} {ctx : ExecutionContext} {now : ℕ}
      {tool : Tool} {env : Envelope}
      (h : sys.dispatchTool toolName input scope ctx now = .ok (tool, env)) :
      Root scope (.dispatched tool env)

/-- The runs that start under a scope. -/
def StartedUnder (scope : ExecutionScope) (a : Activity) : Prop :=
  ∃ table ctx wf, scope.validateStart table = .ok () ∧ a = .running scope ctx wf

/-- Hand-offs while registry, guards and process table change, across restarts. -/
def HandoffStep (a : Activity) (at_ : System × ProcessTable) (b : Activity) : Prop :=
  Handoff at_.1 at_.2 a b

def InSystem (sys : System) (_ : Activity) (at_ : System × ProcessTable) : Prop := at_.1 = sys

theorem reaches_inSystem {sys : System} {init : Activity → Prop} {a b : Activity}
    (table : ProcessTable) (ha : ReachesBy HandoffStep (InSystem sys) init a)
    (h : Handoff sys table a b) : ReachesBy HandoffStep (InSystem sys) init b :=
  ha.tail (show InSystem sys a (sys, table) from rfl) h

/-! ## Scripted hand-offs -/

/-- The tool and the envelope of a run's entry step, for a step that does not repeat. -/
def System.firstDispatch (sys : System) (scope : ExecutionScope) (ctx : ExecutionContext)
    (wf : Workflow) : Option (Tool × Envelope) := do
  let _ ← (validateGrant wf.capabilities scope.capabilityPatterns).toOption
  let entry ← wf.getStep wf.entry
  match entry.repeat_ with
  | none => ((sys.stepContext scope ctx wf).dispatch sys.lib 0 entry
      ((∅ : Outputs).insert "input" .null)).toOption
  | some _ => none

/-- The first call of a run, as the tool inside the wrappers gets it. -/
def System.firstCall (sys : System) (scope : ExecutionScope) (ctx : ExecutionContext)
    (wf : Workflow) : Option (BaseTool × Envelope) := do
  let (tool, env) ← sys.firstDispatch scope ctx wf
  (tool.deliver env).toOption

/-- The nested run that the first call of a run starts. -/
def System.firstNested (sys : System) (table : ProcessTable) (scope : ExecutionScope)
    (ctx : ExecutionContext) (wf : Workflow) : Option (ExecutionScope × ExecutionContext × Workflow) :=
  do
  let (base, env) ← sys.firstCall scope ctx wf
  let caller := ExecutionScope.fromEnvelope env
  let child ← (caller.childScope caller.capabilities none).toOption
  let _ ← (child.validateStart table).toOption
  match base with
  | .workflow inner => some (child, ExecutionContext.fromEnvelope env, inner)
  | _ => none

section Scripted
variable {sys : System} {scope : ExecutionScope} {ctx : ExecutionContext} {wf : Workflow}
  {table : ProcessTable}

theorem firstDispatch_handoff {tool : Tool} {env : Envelope}
    (hsize : 0 < sys.config.finishedChannelSize)
    (h : sys.firstDispatch scope ctx wf = some (tool, env)) :
    Handoff sys table (.running scope ctx wf) (.dispatched tool env) := by
  unfold System.firstDispatch at h
  obtain ⟨⟨⟩, hgrant, h⟩ := Option.bind_eq_some_iff.mp h
  obtain ⟨entry, hentry, h⟩ := Option.bind_eq_some_iff.mp h
  split at h
  · rename_i hrepeat
    have hvar : entry.repeat_.bind RepeatConfig.asVar = none := by rw [hrepeat, Option.bind_none]
    obtain ⟨s, t, hs, ht, rfl, hpc⟩ :=
      entry_executes (sys.executor scope ctx wf) hsize hentry hvar .null
    exact .step (ok_of_toOption hgrant) hs ht hpc (ok_of_toOption h)
  · cases h

variable {ok : Activity → System × ProcessTable → Prop} {init : Activity → Prop}

theorem reaches_firstCall (table : ProcessTable) {base : BaseTool} {env : Envelope}
    (hsize : 0 < sys.config.finishedChannelSize)
    (hr : ReachesBy HandoffStep ok init (.running scope ctx wf)) (hok : ∀ a, ok a (sys, table))
    (h : sys.firstCall scope ctx wf = some (base, env)) :
    ReachesBy HandoffStep ok init (.invoked base env) := by
  unfold System.firstCall at h
  obtain ⟨⟨tool, sent⟩, hfirst, h⟩ := Option.bind_eq_some_iff.mp h
  have hd := hr.tail (hok _) (firstDispatch_handoff hsize hfirst)
  exact hd.tail (hok _) (.deliver (ok_of_toOption h))

theorem firstNested_handoffs {child : ExecutionScope} {ctx' : ExecutionContext} {inner : Workflow}
    (hsize : 0 < sys.config.finishedChannelSize)
    (h : sys.firstNested table scope ctx wf = some (child, ctx', inner)) :
    ∃ tool sent env, Handoff sys table (.running scope ctx wf) (.dispatched tool sent) ∧
      tool.deliver sent = .ok (.workflow inner, env) ∧
      Handoff sys table (.invoked (.workflow inner) env) (.running child ctx' inner) := by
  unfold System.firstNested at h
  obtain ⟨⟨base, env⟩, hcall, h⟩ := Option.bind_eq_some_iff.mp h
  obtain ⟨child', hchild, h⟩ := Option.bind_eq_some_iff.mp h
  obtain ⟨⟨⟩, hstart, h⟩ := Option.bind_eq_some_iff.mp h
  unfold System.firstCall at hcall
  obtain ⟨⟨tool, sent⟩, hfirst, hcall⟩ := Option.bind_eq_some_iff.mp hcall
  split at h
  · cases h
    exact ⟨tool, sent, env, firstDispatch_handoff hsize hfirst, ok_of_toOption hcall,
      .nest (ok_of_toOption hchild) (ok_of_toOption hstart)⟩
  · cases h

theorem reaches_firstNested {child : ExecutionScope} {ctx' : ExecutionContext} {inner : Workflow}
    (hsize : 0 < sys.config.finishedChannelSize)
    (hr : ReachesBy HandoffStep ok init (.running scope ctx wf)) (hok : ∀ a, ok a (sys, table))
    (h : sys.firstNested table scope ctx wf = some (child, ctx', inner)) :
    ReachesBy HandoffStep ok init (.running child ctx' inner) := by
  obtain ⟨tool, sent, env, hstep, hcall, hnest⟩ := firstNested_handoffs hsize h
  have hdispatched := hr.tail (hok _) hstep
  have hinvoked := hdispatched.tail (hok _) (.deliver hcall)
  exact hinvoked.tail (hok _) hnest

end Scripted
end Konf.Runtime
