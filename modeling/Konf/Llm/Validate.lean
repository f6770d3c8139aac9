import Konf.Executor.DeclaredTools

/-! # Validating a workflow

Model of `ValidateWorkflowTool` (`konf-tool-llm/src/validate.rs`): a text is valid when it parses, all
the tools of its steps are registered, and the caller's capabilities cover those the workflow declares.
The checks of a run are more: `Engine::run` asks whether the declared capabilities are covered, and
`execute_step` for each step whether its tool is granted, whether it is registered, and whether its own
`grant` is covered. What `serde_yaml` makes of a text is a parameter. -/

namespace Konf.Llm
open Konf.Text Konf.Substrate Konf.Parser Konf.Executor Konf.Fallible
set_option autoImplicit false

/-- What the tool uses of the engine. -/
structure Engine (T : Type) [NamedTool T] where
  lib : Externals
  config : EngineConfig
  readSchema : String → Except String WorkflowSchema
  registry : ToolRegistry T

section Tool
variable {T : Type} [NamedTool T] (engine : Engine T)

def Engine.parseYaml (text : String) : Except KonfluxError Workflow :=
  if engine.config.maxYamlSize < byteLen text.toList then
    .error (.parse (.invalidYaml ("YAML size (" ++ toString (byteLen text.toList) ++
      " bytes) exceeds maximum (" ++ toString engine.config.maxYamlSize ++ " bytes)")))
  else match engine.readSchema text with
    | .error e => .error (.parse (.invalidYaml e))
    | .ok schema => parse engine.lib engine.config schema

def unregistered (w : Workflow) : List String :=
  (w.steps.filter fun step => !engine.registry.contains step.tool).map fun step =>
    "Tool '" ++ step.tool ++ "' (used in step '" ++ step.id ++ "') is not registered"

def uncovered (patterns : List String) (w : Workflow) : List String :=
  (w.capabilities.filter fun cap => !patterns.any fun grant => (Capability.mk grant).matches cap).map
    fun cap => "Workflow requires '" ++ cap ++ "' but caller does not have a matching grant"

def invalid (errors : List String) : Json :=
  .obj [("errors", .arr (errors.map .str)), ("valid", .bool false)]

def valid (w : Workflow) : Json :=
  .obj [("capabilities_required", .arr (w.capabilities.map .str)),
    ("node_count", Json.ofNat w.steps.length), ("valid", .bool true), ("workflow_id", .str w.id)]

/-- `ValidateWorkflowTool::invoke`. -/
def validateWorkflow (env : Envelope) : Except ToolError Envelope :=
  match (env.payload.get "yaml").bind Json.asStr with
  | none => .error (.invalidInput "Missing required field 'yaml' (string)" (some "yaml"))
  | some yaml => match engine.parseYaml yaml with
    | .error e => .ok (env.respond (invalid ["Parse error: " ++ e.display]))
    | .ok w =>
      let errors := unregistered engine w ++ uncovered env.capabilities.toPatterns w
      if errors.isEmpty then .ok (env.respond (valid w))
      else .ok (env.respond (invalid errors))

/-- The tool answers `valid: true` for the text. -/
def AnswersValid (env : Envelope) (yaml : String) : Prop :=
  (env.payload.get "yaml").bind Json.asStr = some yaml ∧
    ∃ response, validateWorkflow engine env = .ok response ∧
      response.payload.get "valid" = some (.bool true)

end Tool

section Answers
variable {T : Type} [NamedTool T] {engine : Engine T} {env : Envelope} {yaml : String}

theorem unregistered_nil {w : Workflow} (h : unregistered engine w = []) :
    ∀ step ∈ w.steps, ∃ tool, engine.registry.get step.tool = some tool := by
  intro step hstep
  rw [unregistered, List.map_eq_nil_iff, List.filter_eq_nil_iff] at h
  have hcontains := h step hstep
  simp only [ToolRegistry.contains, Bool.not_eq_true', Bool.not_eq_false] at hcontains
  exact Option.isSome_iff_exists.mp hcontains

theorem uncovered_nil {patterns : List String} {w : Workflow} (h : uncovered patterns w = []) :
    ∀ cap ∈ w.capabilities, Declares patterns cap := by
  intro cap hcap
  rw [uncovered, List.map_eq_nil_iff, List.filter_eq_nil_iff] at h
  have hany := h cap hcap
  simp only [Bool.not_eq_true', Bool.not_eq_false] at hany
  exact checkToolAccess_iff_declares.mp (checkToolAccess_iff_any.mpr hany)

theorem parseYaml_ok {w : Workflow} (h : engine.parseYaml yaml = .ok w) :
    ∃ schema, engine.readSchema yaml = .ok schema ∧ parse engine.lib engine.config schema = .ok w := by
  unfold Engine.parseYaml at h
  split_ifs at h
  split at h
  · cases h
  · rename_i schema hschema
    exact ⟨schema, hschema, h⟩

/-- What a positive answer says about the parsed workflow. -/
theorem AnswersValid.checked (h : AnswersValid engine env yaml) :
    ∃ schema w, engine.readSchema yaml = .ok schema ∧ engine.parseYaml yaml = .ok w ∧
      parse engine.lib engine.config schema = .ok w ∧
      (∀ step ∈ w.steps, ∃ tool, engine.registry.get step.tool = some tool) ∧
      ∀ cap ∈ w.capabilities, Declares env.capabilities.toPatterns cap := by
  obtain ⟨hyaml, response, hresponse, hvalid⟩ := h
  unfold validateWorkflow at hresponse
  rw [hyaml] at hresponse
  cases hparse : engine.parseYaml yaml with
  | error e =>
    simp only [hparse] at hresponse
    cases hresponse
    cases hvalid
  | ok w =>
    simp only [hparse] at hresponse
    split_ifs at hresponse with hnone
    · rw [List.isEmpty_iff, List.append_eq_nil_iff] at hnone
      obtain ⟨schema, hschema, hcompiled⟩ := parseYaml_ok hparse
      exact ⟨schema, w, hschema, rfl, hcompiled, unregistered_nil hnone.1, uncovered_nil hnone.2⟩
    · cases hresponse
      cases hvalid

theorem AnswersValid.of_checked {w : Workflow}
    (hyaml : (env.payload.get "yaml").bind Json.asStr = some yaml)
    (hparse : engine.parseYaml yaml = .ok w)
    (hnone : (unregistered engine w ++ uncovered env.capabilities.toPatterns w).isEmpty = true) :
    AnswersValid engine env yaml := by
  refine ⟨hyaml, env.respond (valid w), ?_, rfl⟩
  unfold validateWorkflow
  rw [hyaml]
  simp only [hparse]
  rw [if_pos hnone]

end Answers

/-! ## Covering -/

section Covering
variable {parent child : List String} {tool : String}

theorem declares_iff_mem_authority :
    Declares parent tool ↔ ⟨tool⟩ ∈ (CapSet.fromPatterns parent).authority := by
  rw [← checkToolAccess_iff_declares, checkToolAccess, checkAccess_ok_iff]

theorem validateGrant_iff_declares :
    validateGrant child parent = .ok () ↔ ∀ p ∈ child, Declares parent p := by
  rw [validateGrant_ok_iff, ← attenuate_iff_authority_le, attenuate_ok_iff_covered]
  simp only [declares_iff_mem_authority]

/-- What a covered capability declares is covered. -/
theorem Declares.trans (hcovered : ∀ cap ∈ child, Declares parent cap) (h : Declares child tool) :
    Declares parent tool := by
  have hle := (validateGrant_ok_iff child parent).mp (validateGrant_iff_declares.mpr hcovered)
  rw [declares_iff_mem_authority] at h ⊢
  exact hle h

end Covering

/-! ## The checks of a run -/

section Runs
variable {T : Type} [NamedTool T]

/-- `execute_step` returns at one of its checks: the tool is not granted, not registered, or the
step's `grant` is not covered. -/
def refuses (ctx : StepContext T) (step : Step) : Bool :=
  !(checkToolAccess step.tool ctx.capabilities).isOk || (ctx.registry.get step.tool).isNone ||
    !(ctx.toolCapabilities step).isOk

/-- A step whose inputs resolve reaches its tool unless it is refused. -/
theorem dispatch_isOk_of_resolved {ctx : StepContext T} {lib : Externals} {fresh : Uuid}
    {step : Step} {outputs : Outputs} {inputs : List (String × Json)}
    (hinputs : resolveInputs lib step.input outputs = .ok inputs) :
    (ctx.dispatch lib fresh step outputs).isOk = !refuses ctx step := by
  unfold StepContext.dispatch StepContext.lookupTool refuses
  rw [hinputs]
  cases checkToolAccess step.tool ctx.capabilities with
  | error e => rfl
  | ok _ =>
    cases ctx.registry.get step.tool with
    | none => rfl
    | some tool =>
      cases ctx.toolCapabilities step with
      | error e => rfl
      | ok capabilities => rfl

theorem toolCapabilities_isOk_iff {ctx : StepContext T} {step : Step} :
    (ctx.toolCapabilities step).isOk = true ↔
      ∀ grant, step.grant = some grant → ∀ p ∈ grant, Declares ctx.capabilities p := by
  unfold StepContext.toolCapabilities
  cases step.grant with
  | none => simp [Except.isOk, Except.toBool]
  | some grant =>
    simp only [Option.some.injEq, forall_eq']
    cases hvalid : validateGrant grant ctx.capabilities with
    | error e =>
      have hnot : ¬∀ p ∈ grant, Declares ctx.capabilities p := by
        intro hcovered
        rw [validateGrant_iff_declares.mpr hcovered] at hvalid
        cases hvalid
      simpa [Except.isOk, Except.toBool] using hnot
    | ok _ =>
      simpa [Except.isOk, Except.toBool] using validateGrant_iff_declares.mp hvalid

theorem refuses_eq_false_iff {ctx : StepContext T} {step : Step}
    (hregistered : ∃ tool, ctx.registry.get step.tool = some tool) :
    refuses ctx step = false ↔ Declares ctx.capabilities step.tool ∧
      ∀ grant, step.grant = some grant → ∀ p ∈ grant, Declares ctx.capabilities p := by
  obtain ⟨tool, htool⟩ := hregistered
  have haccess : (checkToolAccess step.tool ctx.capabilities).isOk = true ↔
      Declares ctx.capabilities step.tool := by
    rw [← checkToolAccess_iff_declares]
    cases checkToolAccess step.tool ctx.capabilities with
    | error e => simp [Except.isOk, Except.toBool]
    | ok _ => simp [Except.isOk, Except.toBool]
  unfold refuses
  rw [htool]
  simp only [Option.isNone_some, Bool.or_false, Bool.or_eq_false_iff, Bool.not_eq_false', haccess,
    toolCapabilities_isOk_iff]

end Runs

/-! ## What the validator leaves open -/

/-- Nobody has compared the node's tool with the capabilities: the file declares none, or the compiler
puts the tool in. -/
def ToolUnchecked (schema : WorkflowSchema) (node : NodeSchema) : Prop :=
  schema.capabilities = [] ∨ ∀ tool, node.do_ ≠ some (.single tool)

/-- The capabilities cover what the validator leaves open in a node. -/
structure OpenCovered (schema : WorkflowSchema) (capabilities : List String) (name : String)
    (node : NodeSchema) : Prop where
  tool : ToolUnchecked schema node → Declares capabilities (nodeTool name node)
  grant : ∀ grant, node.grant = some grant → ∀ p ∈ grant, Declares capabilities p

section Open
variable {lib : Externals} {config : EngineConfig} {schema : WorkflowSchema} {w : Workflow}
  {capabilities : List String} {step : Step}

theorem compile_capabilities (h : compile lib config schema = .ok w) :
    w.capabilities = schema.capabilities := by
  unfold compile at h
  split at h
  · cases h
  · obtain ⟨steps, -, h⟩ := bind_ok h
    cases h
    rfl

theorem compileNode_grant {name : String} {node : NodeSchema}
    (h : compileNode lib config schema name node = .ok step) : step.grant = node.grant := by
  unfold compileNode at h
  obtain ⟨retry, -, h⟩ := bind_ok h
  obtain ⟨timeout, -, h⟩ := bind_ok h
  cases h
  rfl

/-- Where the declared capabilities are covered, a tool that the parser has checked is covered too, so
that a step passes its checks exactly when what is left open in its node is covered. -/
theorem covered_iff_open (hparse : parse lib config schema = .ok w)
    (hcaps : ∀ cap ∈ w.capabilities, Declares capabilities cap) {name : String} {node : NodeSchema}
    (hnode : schema.nodes.lookup name = some node)
    (hcompile : compileNode lib config schema name node = .ok step) :
    (Declares capabilities step.tool ∧
      ∀ grant, step.grant = some grant → ∀ p ∈ grant, Declares capabilities p) ↔
        OpenCovered schema capabilities name node := by
  obtain ⟨hv, hc⟩ := parse_ok hparse
  rw [compile_capabilities hc] at hcaps
  rw [compileNode_tool hcompile, compileNode_grant hcompile]
  constructor
  · intro h
    exact ⟨fun _ => h.1, h.2⟩
  · intro h
    refine ⟨?_, h.grant⟩
    by_cases hunchecked : ToolUnchecked schema node
    · exact h.tool hunchecked
    · obtain ⟨hdeclared, hwritten⟩ := not_or.mp hunchecked
      obtain ⟨tool, hdo⟩ := not_forall_not.mp hwritten
      have hchecked := validate_single hv hdeclared hnode hdo
      have htool : nodeTool name node = tool := by rw [nodeTool, hdo]
      rw [htool]
      exact Declares.trans hcaps (checkToolAccess_iff_declares.mp hchecked)

end Open

/-- In some state of a run the task executes its step, and the step's inputs resolve. -/
def Executes {T : Type} [NamedTool T] (ctx : StepContext T) (lib : Externals)
    (evaluateAsBool : Outputs → String → Except String Bool) (w : Workflow) (t : Task)
    (seen : Outputs) : Prop :=
  (∃ s, Reachable (ctx.executor lib evaluateAsBool w) s ∧ t ∈ s.tasks) ∧ t.pc = .executing seen ∧
    (resolveInputs lib t.current.input seen).isOk = true

/-- After a positive answer `Engine::run` passes its own check, and no step that is executed in a run
under these capabilities is stopped by a check of `execute_step` exactly when the capabilities cover
what the validator leaves open in the nodes that the runs come to. -/
theorem valid_answer_sound_iff {T : Type} [NamedTool T] (engine : Engine T) (env : Envelope)
    (yaml : String) (hvalid : AnswersValid engine env yaml) :
    ∃ schema w, engine.readSchema yaml = .ok schema ∧ engine.parseYaml yaml = .ok w ∧
      validateGrant w.capabilities env.capabilities.toPatterns = .ok () ∧
      ∀ (ctx : StepContext T) (evaluateAsBool : Outputs → String → Except String Bool),
        ctx.registry = engine.registry → ctx.capabilities = env.capabilities.toPatterns →
        ((∀ t seen fresh, Executes ctx engine.lib evaluateAsBool w t seen →
            ((ctx.forWorkflow w).dispatch engine.lib fresh t.current seen).isOk = true) ↔
          ∀ name node, schema.nodes.lookup name = some node →
            (∃ t seen, Executes ctx engine.lib evaluateAsBool w t seen ∧ t.current.id = name) →
              OpenCovered schema env.capabilities.toPatterns name node) := by
  obtain ⟨schema, w, hschema, hyaml, hparse, hregistered, hcaps⟩ := hvalid.checked
  refine ⟨schema, w, hschema, hyaml, validateGrant_iff_declares.mpr hcaps, ?_⟩
  intro ctx evaluateAsBool hregistry hcapabilities
  -- what the checks of one executing step come to
  have hstep : ∀ t seen fresh, Executes ctx engine.lib evaluateAsBool w t seen → ∀ name node,
      t.current.id = name → schema.nodes.lookup name = some node →
        (((ctx.forWorkflow w).dispatch engine.lib fresh t.current seen).isOk = true ↔
          OpenCovered schema env.capabilities.toPatterns name node) := by
    intro t seen fresh hexec name node hname hnode
    obtain ⟨⟨s, hreach, ht⟩, -, hresolved⟩ := hexec
    have hmem : t.current ∈ w.steps :=
      Workflow.getStep_mem ((Reachable.residence hreach).current t ht)
    obtain ⟨name', node', hnode', hcompile⟩ := step_node (parse_ok hparse).2 hmem
    obtain rfl : name' = name := (compileNode_ok hcompile).id.symm.trans hname
    rw [hnode'] at hnode
    cases hnode
    obtain ⟨inputs, hinputs⟩ := isOk_iff.mp hresolved
    have hget : ∃ tool, (ctx.forWorkflow w).registry.get t.current.tool = some tool := by
      change ∃ tool, ctx.registry.get t.current.tool = some tool
      rw [hregistry]
      exact hregistered _ hmem
    have hsame : (ctx.forWorkflow w).capabilities = env.capabilities.toPatterns := hcapabilities
    rw [dispatch_isOk_of_resolved hinputs, Bool.not_eq_true', refuses_eq_false_iff hget, hsame]
    exact covered_iff_open hparse hcaps hnode' hcompile
  constructor
  · intro hall name node hnode hvisited
    obtain ⟨t, seen, hexec, hname⟩ := hvisited
    exact (hstep t seen 0 hexec name node hname hnode).mp (hall t seen 0 hexec)
  · intro hopen t seen fresh hexec
    have hmem : t.current ∈ w.steps := by
      obtain ⟨⟨s, hreach, ht⟩, -⟩ := hexec
      exact Workflow.getStep_mem ((Reachable.residence hreach).current t ht)
    obtain ⟨node, hnode, -⟩ := step_compiled hparse hmem
    exact (hstep t seen fresh hexec _ node rfl hnode).mpr
      (hopen _ node hnode ⟨t, seen, hexec, rfl⟩)

/-! ## A workflow without declared capabilities -/

def helloYaml : String := "workflow: hello\nnodes:\n  say:\n    do: echo\n    return: true\n"

def helloSchema : WorkflowSchema where
  workflow := "hello"
  nodes := StrMap.ofList
    [("say", { do_ := some (.single "echo"), return_ := some (.bool true) })] (by decide)

def helloEngine : Engine PlainTool where
  lib := plainExternals
  config := EngineConfig.default
  readSchema text := if text = helloYaml then .ok helloSchema else .error "unknown text"
  registry := ToolRegistry.new.registerAll [⟨"echo"⟩]

/-- A call of the tool by someone with these capabilities. -/
def helloCall (capabilities : List String) : Envelope :=
  Envelope.forToolDispatch "yaml:validate_workflow" (.obj [("yaml", .str helloYaml)]) capabilities 0
    "konf:demo" "alice" "s"

theorem helloEngine_parses : helloEngine.parseYaml helloYaml =
    parse plainExternals EngineConfig.default helloSchema := by
  have hsize : ¬helloEngine.config.maxYamlSize < byteLen helloYaml.toList := by decide +kernel
  unfold Engine.parseYaml
  rw [if_neg hsize]
  simp only [helloEngine, if_true]

/-- No capability is declared, so whoever asks is told that the workflow is valid. -/
theorem hello_valid {w : Workflow} (capabilities : List String)
    (hparse : parse plainExternals EngineConfig.default helloSchema = .ok w) :
    AnswersValid helloEngine (helloCall capabilities) helloYaml := by
  have hw : ((parse plainExternals EngineConfig.default helloSchema).toOption.any fun w =>
      (unregistered helloEngine w).isEmpty && w.capabilities.isEmpty) = true := by decide +kernel
  rw [hparse] at hw
  simp only [Except.toOption, Option.any_some, Bool.and_eq_true, List.isEmpty_iff] at hw
  refine AnswersValid.of_checked rfl (helloEngine_parses.trans hparse) ?_
  rw [hw.1, uncovered, hw.2]
  rfl

/-- A run under these capabilities, on the engine's registry. -/
def helloContext (capabilities : List String) : StepContext PlainTool :=
  { plainContext EngineConfig.default with
    registry := helloEngine.registry
    capabilities := capabilities }

/-- The workflow is valid for a caller who may only validate, and its run under the caller's
capabilities ends with its tool denied. -/
theorem valid_hello_denied : ∃ w s,
    AnswersValid helloEngine (helloCall ["yaml:validate_workflow"]) helloYaml ∧
      helloEngine.parseYaml helloYaml = .ok w ∧
      Reachable (grantedEnv ["echo"] ["yaml:validate_workflow"] w) s ∧
      s.failure = some (.tool (.capabilityDenied "echo")) := by
  have hrun : parsedRun (grantedEnv ["echo"] ["yaml:validate_workflow"]) (fun _ _ _ => True)
      EngineConfig.default helloSchema
      (fun _ => [.task 0, .task 0, .task 0, .answer 0 (answers .null), .task 0, .task 0, .join 0, .main])
      (fun _ s => decide (s.failure = some (.tool (.capabilityDenied "echo")))) = true := by
    decide +kernel
  obtain ⟨w, s, hw, hs, hp⟩ := parsedRun_reaches hrun (fun _ => rfl) (by decide)
  exact ⟨w, s, hello_valid _ hw, helloEngine_parses.trans hw, hs, of_decide_eq_true hp⟩

/-- For a caller who holds the tool the answer is right. -/
theorem valid_hello_sound : ∃ w, AnswersValid helloEngine (helloCall ["echo"]) helloYaml ∧
    helloEngine.parseYaml helloYaml = .ok w ∧ validateGrant w.capabilities ["echo"] = .ok () ∧
      ∀ t seen fresh, Executes (helloContext ["echo"]) plainExternals (fun _ _ => .ok true) w t seen →
        (((helloContext ["echo"]).forWorkflow w).dispatch plainExternals fresh t.current seen).isOk =
          true := by
  have hparses : (parse plainExternals EngineConfig.default helloSchema).isOk = true := by
    decide +kernel
  obtain ⟨w, hw⟩ := isOk_iff.mp hparses
  have hvalid := hello_valid ["echo"] hw
  obtain ⟨schema, w', hschema, hparse, hgrant, hsound⟩ :=
    valid_answer_sound_iff helloEngine (helloCall ["echo"]) helloYaml hvalid
  obtain rfl : schema = helloSchema := by
    simpa [helloEngine] using hschema.symm
  refine ⟨w', hvalid, hparse, hgrant, ?_⟩
  refine (hsound (helloContext ["echo"]) (fun _ _ => .ok true) rfl rfl).mpr ?_
  intro name node hnode _
  cases List.mem_singleton.mp (AList.mem_lookup_iff.mp hnode)
  exact ⟨fun _ => .inr (.inl (List.mem_singleton_self _)), fun grant hgrant => by cases hgrant⟩

end Konf.Llm
