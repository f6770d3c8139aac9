import Konf.Runtime.Bindings

/-! # Two ways to a tool

A tool can be called by a step, through the scoped engine of a run, or directly through the
dispatcher. Both wrap the tool in its bindings and its guard rules, but only the scoped engine reads
the `alias` of a guard entry, and there the target goes under its own name, not under the name that
is redirected. The results say when the two ways end in the same call, and when a guard entry decides
as it is written. -/

namespace Konf.Runtime
open Konf.Substrate Konf.Executor Konf.Transition
set_option autoImplicit false

/-- The tool that a step of a run reaches and the payload it gets; `none` when the call is denied. -/
def System.stepCall (sys : System) (scope : ExecutionScope) (ctx : ExecutionContext) (wf : Workflow)
    (fresh : Uuid) (step : Step) (outputs : Outputs) : Option (BaseTool × Json) := do
  let (tool, env) ← ((sys.stepContext scope ctx wf).dispatch sys.lib fresh step outputs).toOption
  let (base, received) ← (tool.deliver env).toOption
  some (base, received.payload)

/-- The same for a direct dispatch. -/
def System.dispatchCall (sys : System) (scope : ExecutionScope) (ctx : ExecutionContext)
    (toolName : String) (payload : Json) (now : ℕ) : Option (BaseTool × Json) := do
  let (tool, env) ← (sys.dispatchTool toolName payload scope ctx now).toOption
  let (base, received) ← (tool.deliver env).toOption
  some (base, received.payload)

/-- A call of a name in the scoped engine. -/
def System.scopedCall (sys : System) (scope : ExecutionScope) (n : String) (env : Envelope) :
    Option (BaseTool × Json) := do
  let tool ← (sys.buildScopedEngine scope).get n
  let (base, received) ← (tool.deliver env).toOption
  some (base, received.payload)

/-- What the wrappers of a name make of the fields of a call; `none` when its rules refuse it. -/
def System.wrappedFields (sys : System) (scope : ExecutionScope) (n : String)
    (fields : List (String × Json)) : Option (List (String × Json)) :=
  match sys.guards.lookup n with
  | some entry =>
    if entry.rules.isEmpty || (evaluateRules entry.defaultAction n (.obj fields) entry.rules).toBool
    then some (bindFields (scope.bindingsFor n) fields)
    else none
  | none => some (bindFields (scope.bindingsFor n) fields)

/-! ## Wrapped calls -/

section Wrapped
variable {sys : System} {scope : ExecutionScope} {n : String} {raw : BaseTool} {env : Envelope}
  {fields : List (String × Json)}

theorem deliver_virtualize_obj (raw : BaseTool) (bindings : StrMap Json)
    (hp : env.payload = .obj fields) :
    (System.virtualize bindings raw).deliver env =
      .ok (raw, { env with payload := .obj (bindFields bindings fields) }) := by
  unfold System.virtualize
  split_ifs with hempty
  · have hsame : bindFields bindings fields = fields := by
      rw [bindFields, List.isEmpty_iff.mp hempty, List.foldl_nil]
    rw [Tool.deliver, hsame, ← hp]
  · simp only [Tool.deliver, injectBindings, hempty, Bool.false_eq_true, if_false, hp]
    rfl

theorem deliver_wrapped {bindings : StrMap Json} (hname : raw.name = n)
    (hcheck : scope.checkTool n = .ok bindings) (hp : env.payload = .obj fields) :
    (((sys.guard n (System.virtualize bindings raw)).deliver env).toOption.bind fun c =>
        some (c.1, c.2.payload)) =
      (sys.wrappedFields scope n fields).map fun f => (raw, .obj f) := by
  have hbindings : scope.bindingsFor n = bindings := by
    rw [ExecutionScope.bindingsFor, hcheck]
    rfl
  have hinner := deliver_virtualize_obj raw bindings hp
  unfold System.guard System.wrappedFields
  rw [hbindings]
  cases sys.guards.lookup n with
  | none =>
    simp only [hinner]
    rfl
  | some entry =>
    simp only
    cases hempty : entry.rules.isEmpty with
    | true =>
      simp only [hinner, if_true, Bool.true_or]
      rfl
    | false =>
      simp only [Bool.false_eq_true, if_false, Bool.false_or, Tool.deliver, System.virtualize_name,
        hname, hp]
      cases evaluateRules entry.defaultAction n (.obj fields) entry.rules with
      | error e => rfl
      | ok =>
        change (((System.virtualize bindings raw).deliver env).toOption.bind _) = _
        rw [hinner]
        rfl

end Wrapped

/-! ## The two calls -/

section Calls
variable {sys : System} {scope : ExecutionScope} {ctx : ExecutionContext} {n : String}
  {bindings : StrMap Json} {fields : List (String × Json)}

theorem dispatchCall_eq {now : ℕ} (hcheck : scope.checkTool n = .ok bindings)
    (htime : ctx.deadline = none) :
    sys.dispatchCall scope ctx n (.obj fields) now =
      (sys.registry.get n).bind fun raw =>
        (sys.wrappedFields scope n fields).map fun f => (raw, .obj f) := by
  unfold System.dispatchCall System.dispatchTool
  rw [hcheck, htime]
  cases hraw : sys.registry.get n with
  | none => rfl
  | some raw => exact deliver_wrapped (ToolRegistry.get_name hraw) hcheck rfl

/-- A granted step without a `grant` of its own finds its tool in the scoped engine. -/
theorem stepDispatch_eq (ctx : ExecutionContext) (wf : Workflow) (fresh : Uuid) {step : Step}
    {outputs : Outputs} (hcheck : scope.checkTool n = .ok bindings) (htool : step.tool = n)
    (hgrant : step.grant = none)
    (hinputs : resolveInputs sys.lib step.input outputs = .ok fields) :
    ((sys.stepContext scope ctx wf).dispatch sys.lib fresh step outputs).toOption =
      ((sys.buildScopedEngine scope).get n).map fun tool =>
        (tool, (sys.stepContext scope ctx wf).envelope sys.lib fresh step fields
          scope.capabilityPatterns) := by
  have haccess : checkToolAccess step.tool scope.capabilityPatterns = .ok () := by
    rw [htool]
    exact (checkTool_ok_iff scope n).mp ⟨bindings, hcheck⟩
  have hcaps : (sys.stepContext scope ctx wf).toolCapabilities step = .ok scope.capabilityPatterns := by
    unfold StepContext.toolCapabilities
    rw [hgrant]
    rfl
  rw [← htool]
  exact dispatch_eq_lookup hinputs haccess hcaps

/-- A step's call goes to the tool of the scoped engine, with the resolved inputs as payload. -/
theorem stepCall_eq (ctx : ExecutionContext) (wf : Workflow) (fresh : Uuid) {step : Step}
    {outputs : Outputs} (hcheck : scope.checkTool n = .ok bindings) (htool : step.tool = n)
    (hgrant : step.grant = none)
    (hinputs : resolveInputs sys.lib step.input outputs = .ok fields) :
    ∃ env : Envelope, env.payload = .obj fields ∧
      sys.stepCall scope ctx wf fresh step outputs = sys.scopedCall scope n env := by
  refine ⟨(sys.stepContext scope ctx wf).envelope sys.lib fresh step fields
    scope.capabilityPatterns, rfl, ?_⟩
  unfold System.stepCall System.scopedCall
  rw [stepDispatch_eq ctx wf fresh hcheck htool hgrant hinputs]
  cases (sys.buildScopedEngine scope).get n with
  | none => rfl
  | some tool => rfl

/-- Through its own entry a tool is called behind its wrappers. -/
theorem scopedCall_own {env : Envelope} (hcheck : scope.checkTool n = .ok bindings)
    (hpayload : env.payload = .obj fields) (hown : sys.OwnEntry scope n) :
    sys.scopedCall scope n env =
      (sys.registry.get n).bind fun raw =>
        (sys.wrappedFields scope n fields).map fun f => (raw, .obj f) := by
  unfold System.scopedCall
  cases hraw : sys.registry.get n with
  | none =>
    have hname := registrar_registers hown.2
    have hcontains : sys.registry.contains n = false := by
      rw [ToolRegistry.contains, show sys.registry.tools.lookup n = none from hraw]
      rfl
    simp only [System.registeredName, hcheck, hown.1, hcontains, Bool.false_eq_true, if_false] at hname
    cases hname
  | some raw =>
    rw [scoped_get_own hown hcheck hraw]
    exact deliver_wrapped (ToolRegistry.get_name hraw) hcheck hpayload

/-- Where an alias has taken its name over, a tool is called as it is. -/
theorem scopedCall_bare {env : Envelope} {u : String} (hpayload : env.payload = .obj fields)
    (hown : ¬sys.OwnEntry scope n) (hu : sys.registrar scope n = some u) :
    ∃ raw, sys.registry.get n = some raw ∧ sys.scopedCall scope n env = some (raw, .obj fields) := by
  obtain ⟨raw, hraw, hget⟩ := scoped_get_bare hown hu
  refine ⟨raw, hraw, ?_⟩
  unfold System.scopedCall
  rw [hget, ← hpayload]
  rfl

theorem scopedCall_none {env : Envelope} (hu : sys.registrar scope n = none) :
    sys.scopedCall scope n env = none := by
  unfold System.scopedCall
  rw [get_buildScopedEngine, hu]
  rfl

theorem registeredName_ne (hreg : sys.registrar scope n = none) {u : String}
    (hu : u ∈ sys.registry.names) : sys.registeredName scope u ≠ some n := by
  intro hname
  obtain ⟨v, hv⟩ := registrar_isSome hu hname
  rw [hreg] at hv
  cases hv

theorem get_of_unregistered (hcheck : scope.checkTool n = .ok bindings)
    (hreg : sys.registrar scope n = none) (halias : sys.aliasTool n = none) :
    sys.registry.get n = none := by
  cases hraw : sys.registry.get n with
  | none => rfl
  | some raw =>
    exact absurd (registeredName_self hcheck hraw halias)
      (registeredName_ne hreg (ToolRegistry.mem_names_of_get hraw))

theorem alias_name_of_unregistered {target : BaseTool} (hcheck : scope.checkTool n = .ok bindings)
    (hreg : sys.registrar scope n = none) (halias : sys.aliasTool n = some target) :
    target.name ≠ n := by
  intro hname
  have hraw := aliasTool_get halias
  have hregistered := registeredName_alias hcheck halias
  rw [hname] at hraw hregistered
  exact registeredName_ne hreg (ToolRegistry.mem_names_of_get hraw) hregistered

/-- A call of the bare tool follows an alias only to that tool. -/
theorem bare_follows_iff {raw : BaseTool} (hraw : sys.registry.get n = some raw) (payload : Json) :
    (∀ target, sys.aliasTool n = some target → ∃ p, some (raw, payload) = some (target, p)) ↔
      ∀ target, sys.aliasTool n = some target → target.name = n := by
  refine forall₂_congr fun target htarget => ?_
  constructor
  · rintro ⟨p, heq⟩
    cases heq
    exact ToolRegistry.get_name hraw
  · intro hname
    have hget := aliasTool_get htarget
    rw [hname, hraw] at hget
    cases hget
    exact ⟨_, rfl⟩

end Calls

/-! ## When they agree -/

/-- The scoped engine has the tool under its own entry, or neither way finds it; or the wrappers that
one way leaves out would have changed nothing. -/
def System.SameRoute (sys : System) (scope : ExecutionScope) (n : String)
    (fields : List (String × Json)) : Prop :=
  sys.OwnEntry scope n ∨ (sys.aliasTool n = none ∧ sys.registry.get n = none) ∨
    ((∀ target, sys.aliasTool n = some target → target.name = n) ∧
      sys.wrappedFields scope n fields = some fields)

/-- A one-step workflow and a direct dispatch of a granted tool reach the same tool with the same
payload or are both denied, and an alias is followed, exactly when the two ways are the same route. -/
theorem tool_paths_agree_iff (sys : System) (scope : ExecutionScope) (ctx : ExecutionContext)
    (hdeadline : ctx.deadline = none) (n : String) (bindings : StrMap Json)
    (hcheck : scope.checkTool n = .ok bindings) (id : String) (step : Step) (htool : step.tool = n)
    (hgrant : step.grant = none) (input : Json) (fields : List (String × Json))
    (hinputs : resolveInputs sys.lib step.input ((∅ : Outputs).insert "input" input) = .ok fields)
    (fresh : Uuid) (now : ℕ) :
    (sys.stepCall scope ctx (oneStep id step) fresh step ((∅ : Outputs).insert "input" input) =
        sys.dispatchCall scope ctx n (.obj fields) now ∧
      ∀ target, sys.aliasTool n = some target → ∃ p,
        sys.stepCall scope ctx (oneStep id step) fresh step ((∅ : Outputs).insert "input" input) =
          some (target, p)) ↔
      sys.SameRoute scope n fields := by
  obtain ⟨env, hpayload, hstep⟩ := stepCall_eq ctx (oneStep id step) fresh hcheck htool hgrant hinputs
  rw [hstep, dispatchCall_eq hcheck hdeadline]
  unfold System.SameRoute
  by_cases hown : sys.OwnEntry scope n
  · refine iff_of_true ⟨scopedCall_own hcheck hpayload hown, ?_⟩ (.inl hown)
    intro target htarget
    rw [hown.1] at htarget
    cases htarget
  cases hreg : sys.registrar scope n with
  | some u =>
    obtain ⟨raw, hraw, hcall⟩ := scopedCall_bare hpayload hown hreg
    rw [hcall, hraw]
    have hagree : (some (raw, Json.obj fields) = (some raw).bind fun raw =>
        (sys.wrappedFields scope n fields).map fun f => (raw, .obj f)) ↔
          sys.wrappedFields scope n fields = some fields := by
      cases sys.wrappedFields scope n fields with
      | none => simp
      | some f => simp [eq_comm]
    rw [hagree, bare_follows_iff hraw (.obj fields)]
    simp only [hown, false_or, reduceCtorEq, and_false]
    exact and_comm
  | none =>
    rw [scopedCall_none hreg]
    cases halias : sys.aliasTool n with
    | none =>
      rw [get_of_unregistered hcheck hreg halias]
      exact iff_of_true ⟨rfl, nofun⟩ (.inr (.inl ⟨rfl, rfl⟩))
    | some target =>
      refine iff_of_false ?_ ?_
      · rintro ⟨-, hfollow⟩
        obtain ⟨p, heq⟩ := hfollow target rfl
        cases heq
      · rintro (hown' | ⟨heq, -⟩ | ⟨hself, -⟩)
        · exact hown hown'
        · cases heq
        · exact alias_name_of_unregistered hcheck hreg halias (hself target rfl)

/-! ## A redirected tool -/

/-- `shell:exec` is redirected to a workflow that wraps it. -/
def aliasGuards : StrMap ToolGuardEntry :=
  StrMap.ofList [("shell:exec",
    { rules := []
      defaultAction := .allow
      alias_ := some "workflow:safe" })] (by simp)

def safeWf : Workflow := oneStep "safe" (Step.new "run" "shell:exec")

def aliasSystem : System :=
  { baseSystem [.plain "shell:exec", .plain "echo", .workflow safeWf] with guards := aliasGuards }

def aliasScope : ExecutionScope := demoScope [.new "*"]

def plainStep (n : String) : Step := Step.new "call" n

/-- A direct dispatch of the redirected name reaches the tool itself; a step finds nothing under that
name. -/
theorem alias_followed_nowhere :
    aliasSystem.aliasTool "shell:exec" = some (.workflow safeWf) ∧
      (∃ p, aliasSystem.dispatchCall aliasScope demoContext "shell:exec" (.obj []) 0 =
        some (.plain "shell:exec", p)) ∧
      aliasSystem.stepCall aliasScope demoContext (oneStep "call" (plainStep "shell:exec")) 0
        (plainStep "shell:exec") ((∅ : Outputs).insert "input" .null) = none := by
  refine ⟨rfl, ⟨.obj [], rfl⟩, ?_⟩
  rfl

/-- A guard of `echo` that refuses some commands. -/
def commandSystem : System :=
  { aliasSystem with
    guards := StrMap.ofList [("echo",
      { rules := [.deny (.contains "cmd" "rm") "no"]
        defaultAction := .allow
        alias_ := none })] (by simp) }

def commandStep (cmd : String) : Step :=
  { plainStep "echo" with input := StrMap.ofList [("cmd", .literal cmd)] (by simp) }

def commandCalls (cmd : String) : Option (BaseTool × Json) × Option (BaseTool × Json) :=
  (commandSystem.stepCall aliasScope demoContext (oneStep "call" (commandStep cmd)) 0 (commandStep cmd)
      ((∅ : Outputs).insert "input" .null),
    commandSystem.dispatchCall aliasScope demoContext "echo" (.obj [("cmd", .str cmd)]) 0)

/-- `echo` has its own entry: both ways reach it with the same payload, or are refused by its guard. -/
theorem guarded_paths_agree :
    (commandCalls "ls").1 = (commandCalls "ls").2 ∧ (commandCalls "ls").2.isSome = true ∧
      (commandCalls "rm x").1 = (commandCalls "rm x").2 ∧ (commandCalls "rm x").2.isNone = true := by
  have hown : commandSystem.OwnEntry aliasScope "echo" := ⟨rfl, by decide +kernel⟩
  refine ⟨?_, by decide +kernel, ?_, by decide +kernel⟩
  · exact ((tool_paths_agree_iff commandSystem aliasScope demoContext rfl "echo" ∅ rfl "call"
      (commandStep "ls") rfl rfl .null [("cmd", .str "ls")] rfl 0 0).mpr (.inl hown)).1
  · exact ((tool_paths_agree_iff commandSystem aliasScope demoContext rfl "echo" ∅ rfl "call"
      (commandStep "rm x") rfl rfl .null [("cmd", .str "rm x")] rfl 0 0).mpr (.inl hown)).1

end Konf.Runtime
