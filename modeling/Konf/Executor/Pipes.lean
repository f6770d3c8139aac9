import Konf.Executor.DeclaredTools
import Konf.Executor.ParsedRun

/-! # Pipes

A node may name tools that its output is to be piped through. The list is read from the file, checked
and compiled; `execute_step` does not look at it. A `{do, with}` block does not get as far as its own
variant of the schema: the map variant before it takes every map, with `do` or `with` for the tool. -/

namespace Konf.Executor
open Konf.Substrate Konf.Parser Konf.Fallible
set_option autoImplicit false

/-! ## From the file -/

/-- The three ways to write a pipe step. -/
inductive PipeForm
  | name (tool : String)
  | map (tool : String) (args : Json)
  | block (tool : String) (args : Option Json)

/-- The tool that is meant. -/
def PipeForm.tool : PipeForm → String
  | .name tool => tool
  | .map tool _ => tool
  | .block tool _ => tool

def PipeForm.json : PipeForm → Json
  | .name tool => .str tool
  | .map tool args => .obj [(tool, args)]
  | .block tool none => .obj [("do", .str tool)]
  | .block tool (some args) => .obj [("do", .str tool), ("with", args)]

/-- The untagged `PipeStepSchema`, its variants tried in order. A `HashMap` takes every map, in an
order of its own, and the last variant is not tried. -/
inductive Deserialises : Json → PipeStepSchema → Prop
  | simple (tool : String) : Deserialises (.str tool) (.simple tool)
  | withArgs {fields : List (String × Json)} {args : StrMap Json}
      (h : args.entries.Perm (fields.map fun e => ⟨e.1, e.2⟩)) :
      Deserialises (.obj fields) (.withArgs args)

/-! ## In the executor -/

/-- What a tool makes of an input. -/
abbrev Tools := String → Json → Json → Prop

/-- `v` comes out when the tools are applied in order, each with access and to the result before. -/
inductive Chain (tools : Tools) (capabilities : List String) : List String → Json → Json → Prop
  | nil (v : Json) : Chain tools capabilities [] v v
  | cons {tool : String} {rest : List String} {input r v : Json}
      (access : checkToolAccess tool capabilities = .ok ()) (applied : tools tool input r)
      (next : Chain tools capabilities rest r v) : Chain tools capabilities (tool :: rest) input v

/-- The step succeeds, and with the task's next move `v` is recorded as its output. -/
def RecordsOutput (env : ExecutorEnv) (s : State) (t : Task) (seen : Outputs) (a : env.Answer) (v : Json) :
    Prop :=
  ∃ val t', env.executeStep a t.current seen = .ok val ∧
    (t.answered (.ok val)).next env s = some (t', some (.output t.current.id v))

theorem recordsOutput_iff {env : ExecutorEnv} {s : State} {t : Task} {seen : Outputs} {a : env.Answer}
    {v : Json} : RecordsOutput env s t seen a v ↔ env.executeStep a t.current seen = .ok v := by
  constructor
  · rintro ⟨val, t', hval, hnext⟩
    have hevent := congrArg (Option.map Prod.snd) hnext
    cases hevent
    exact hval
  · intro h
    exact ⟨v, _, h, rfl⟩

section Steps
variable {T : Type} [NamedTool T] (ctx : StepContext T) (lib : Externals)
  (evaluateAsBool : Outputs → String → Except String Bool) (w : Workflow)

/-- Whatever the tools do, the recorded output of the step is that of the `do` tool piped through the
others. -/
def PipesCompose (step : Step) (tool : String) (pipes : List String) (seen : Outputs) : Prop :=
  ∀ (tools : Tools) (s : State) (t : Task) (a : StepAnswer) (called : T) (env : Envelope) (v : Json),
    t.current = step →
    (ctx.forWorkflow w).dispatch lib a.newTraceId step seen = .ok (called, env) →
    (∀ n r, a.attempt n = .completed (.ok r) → tools step.tool env.payload r) →
    RecordsOutput (ctx.executor lib evaluateAsBool w) s t seen a v →
      Chain tools ctx.capabilities (tool :: pipes) env.payload v

variable {ctx lib evaluateAsBool w}

theorem completed_of_outcome {step : Step} {answer : ℕ → Attempt} {n : ℕ}
    {res : Except ToolError Json} (h : ctx.outcome step answer n = .completed res) :
    answer n = .completed res := by
  unfold StepContext.outcome at h
  split at h
  · cases h
  · split_ifs at h
    exact h

theorem attempts_ok {step : Step} {answer : ℕ → Attempt} {v : Json} {left n : ℕ}
    (h : ctx.attempts step answer left n = .ok v) : ∃ m, answer m = .completed (.ok v) := by
  induction left generalizing n with
  | zero => cases h
  | succ left ih =>
    have hsettle : ∀ {e : ToolError} {b : Prop} [Decidable b],
        (if b then .error (.tool e) else ctx.attempts step answer left (n + 1)) = .ok v →
          ∃ m, answer m = .completed (.ok v) := by
      intro e b _ hif
      split_ifs at hif
      exact ih hif
    rw [StepContext.attempts] at h
    cases hanswer : ctx.outcome step answer n with
    | cancelled =>
      rw [hanswer] at h
      cases h
    | panicked =>
      rw [hanswer] at h
      cases h
    | timedOut =>
      rw [hanswer] at h
      exact hsettle h
    | completed res =>
      rw [hanswer] at h
      cases res with
      | error e => exact hsettle h
      | ok output =>
        cases h
        exact ⟨n, completed_of_outcome hanswer⟩

theorem executeStep_ok {step : Step} {seen : Outputs} {a : StepAnswer} {v : Json}
    (h : ctx.executeStep lib a step seen = .ok v) :
    (∃ called env, ctx.dispatch lib a.newTraceId step seen = .ok (called, env)) ∧
      ctx.attempts step a.attempt (maxAttempts step) 1 = .ok v := by
  unfold StepContext.executeStep at h
  obtain ⟨⟨called, env⟩, hdispatch, hattempts⟩ := bind_ok h
  exact ⟨⟨called, env, hdispatch⟩, hattempts⟩

/-- Without pipe steps the recorded output is what the tool returned. -/
theorem pipesCompose_nil {step : Step} {seen : Outputs} :
    PipesCompose ctx lib evaluateAsBool w step step.tool [] seen := by
  intro tools s t a called env v hcurrent hdispatch htool hrecorded
  have hok : (ctx.forWorkflow w).executeStep lib a t.current seen = .ok v := recordsOutput_iff.mp hrecorded
  rw [hcurrent] at hok
  obtain ⟨-, hattempts⟩ := executeStep_ok hok
  obtain ⟨n, hn⟩ := attempts_ok hattempts
  exact .cons (dispatch_ok hdispatch).1 (htool n v hn) (.nil v)

/-- A tool that is called with an object and returns `null`, and no other call of a tool: the output
`null` is recorded and nothing is made of it. -/
theorem not_pipesCompose_cons {step : Step} {seen : Outputs} {tool pipe : String}
    {pipes : List String} (h : ∃ a v, (ctx.forWorkflow w).executeStep lib a step seen = .ok v) :
    ¬PipesCompose ctx lib evaluateAsBool w step tool (pipe :: pipes) seen := by
  obtain ⟨a, v, hok⟩ := h
  obtain ⟨⟨called, env, hdispatch⟩, hattempts⟩ := executeStep_ok hok
  obtain ⟨-, -, inputs, capabilities, -, henv⟩ := dispatch_ok hdispatch
  have hpayload : env.payload = .obj inputs := by
    rw [henv]
    rfl
  let a' : StepAnswer := ⟨a.newTraceId, fun _ => .completed (.ok .null)⟩
  have hnull : (ctx.forWorkflow w).executeStep lib a' step seen = .ok .null := by
    unfold StepContext.executeStep
    rw [hdispatch]
    cases hmax : maxAttempts step with
    | zero =>
      rw [hmax] at hattempts
      cases hattempts
    | succ left => rfl
  let t := Task.spawned 0 step
  have hrecorded : RecordsOutput (ctx.executor lib evaluateAsBool w)
      (start (ctx.executor lib evaluateAsBool w) .null) t seen a' .null := recordsOutput_iff.mpr hnull
  intro hcompose
  have hchain := hcompose (fun _ input r => input = env.payload ∧ r = .null) _ t a' called env .null
    rfl hdispatch (fun n r hr => ⟨rfl, by cases hr; rfl⟩) hrecorded
  cases hchain with
  | cons _ happlied hrest =>
    cases hrest with
    | cons _ hnext _ =>
      rw [happlied.2, hpayload] at hnext
      cases hnext.1

end Steps

/-! ## Parsed nodes -/

/-- The output of an accepted node with one `do` tool is that of its pipe exactly when it has no pipe
steps, or never an output. -/
theorem pipes_compose_iff {T : Type} [NamedTool T] (ctx : StepContext T) (lib : Externals)
    (evaluateAsBool : Outputs → String → Except String Bool) {config : EngineConfig}
    {schema : WorkflowSchema} {w : Workflow} (hparse : parse lib config schema = .ok w)
    {name tool : String} {node : NodeSchema} (hnode : schema.nodes.lookup name = some node)
    (hdo : node.do_ = some (.single tool)) {forms : List PipeForm}
    (hpipe : List.Forall₂ Deserialises (forms.map PipeForm.json) node.pipe) {step : Step}
    (hstep : w.getStep name = some step) (seen : Outputs) :
    PipesCompose ctx lib evaluateAsBool w step tool (forms.map PipeForm.tool) seen ↔
      node.pipe = [] ∨ ¬∃ a v, (ctx.forWorkflow w).executeStep lib a step seen = .ok v := by
  have htool : step.tool = tool := by
    obtain ⟨name', node', hnode', hcompile⟩ := step_node (parse_ok hparse).2
      (Workflow.getStep_mem hstep)
    have hname : name' = name := by
      rw [← (compileNode_ok hcompile).id, Workflow.getStep_id hstep]
    rw [hname, hnode, Option.some.injEq] at hnode'
    rw [compileNode_tool hcompile, ← hnode', nodeTool, hdo]
  cases forms with
  | nil =>
    have hnone : node.pipe = [] := List.forall₂_nil_left_iff.mp hpipe
    rw [← htool]
    exact ⟨fun _ => .inl hnone, fun _ => pipesCompose_nil⟩
  | cons form forms =>
    constructor
    · intro hcompose
      exact .inr fun hsucceeds => not_pipesCompose_cons hsucceeds hcompose
    · rintro (hnone | hnever)
      · rw [hnone] at hpipe
        cases hpipe
      · intro tools s t a called env v hcurrent _ _ hrecorded
        rw [← hcurrent] at hnever
        exact absurd ⟨a, v, recordsOutput_iff.mp hrecorded⟩ hnever

/-- The page of the reference, with this pipe. -/
def fetchSchema (pipe : List PipeStepSchema) : WorkflowSchema where
  workflow := "fetch"
  capabilities := ["*"]
  nodes := StrMap.ofList [("fetch", {
    do_ := some (.single "http:get")
    with_ := some (.obj [("url", .str "\x7b\x7binput.url\x7d\x7d")])
    pipe := pipe
    return_ := some (.bool true) })] (by simp)

def fetchContext : StepContext PlainTool :=
  { plainContext .default with registry := ToolRegistry.new.register ⟨"http:get"⟩ }

def fetchOutputs : Outputs := StrMap.ofList [("input", .obj [("url", .str "https://host")])] (by simp)

/-- The schema is accepted, and its step can succeed. -/
def fetches (pipe : List PipeStepSchema) : Bool :=
  (parse plainExternals .default (fetchSchema pipe)).toOption.any fun w =>
    (w.getStep "fetch").any fun step =>
      ((fetchContext.forWorkflow w).executeStep plainExternals (answers (.str "body")) step
        fetchOutputs).isOk

theorem fetches_step {pipe : List PipeStepSchema} (h : fetches pipe = true) :
    ∃ w step, parse plainExternals .default (fetchSchema pipe) = .ok w ∧
      w.getStep "fetch" = some step ∧
      ∃ a v, (fetchContext.forWorkflow w).executeStep plainExternals a step fetchOutputs = .ok v := by
  unfold fetches at h
  obtain ⟨w, hw, h⟩ := (Option.any_eq_true ..).mp h
  obtain ⟨step, hstep, h⟩ := (Option.any_eq_true ..).mp h
  obtain ⟨v, hv⟩ := isOk_iff.mp h
  cases hparse : parse plainExternals .default (fetchSchema pipe) with
  | error e =>
    rw [hparse] at hw
    cases hw
  | ok w' =>
    rw [hparse] at hw
    cases hw
    exact ⟨w, step, rfl, hstep, _, v, hv⟩

theorem plain_fetch_composes :
    ∃ w step, parse plainExternals .default (fetchSchema []) = .ok w ∧
      w.getStep "fetch" = some step ∧
      (∃ a v, (fetchContext.forWorkflow w).executeStep plainExternals a step fetchOutputs = .ok v) ∧
      PipesCompose fetchContext plainExternals (fun _ _ => .ok true) w step "http:get" []
        fetchOutputs := by
  have hfetches : fetches [] = true := by decide +kernel
  obtain ⟨w, step, hparse, hstep, hsucceeds⟩ := fetches_step hfetches
  refine ⟨w, step, hparse, hstep, hsucceeds, ?_⟩
  have hpipe : List.Forall₂ Deserialises (([] : List PipeForm).map PipeForm.json) [] := .nil
  exact (pipes_compose_iff fetchContext plainExternals _ hparse rfl rfl hpipe hstep
    fetchOutputs).mpr (.inl rfl)

/-- The example of the reference. -/
def documentedPipe : List PipeForm :=
  [.name "json_get",
    .block "template" (some (.obj [("template", .str "Result: \x7b\x7bvars.data\x7d\x7d")]))]

def documentedSchemas : List PipeStepSchema :=
  [.simple "json_get", .withArgs (StrMap.ofList [("do", .str "template"),
    ("with", .obj [("template", .str "Result: \x7b\x7bvars.data\x7d\x7d")])] (by simp))]

theorem documented_pipe_not_applied :
    List.Forall₂ Deserialises (documentedPipe.map PipeForm.json) documentedSchemas ∧
    ∃ w step, parse plainExternals .default (fetchSchema documentedSchemas) = .ok w ∧
      w.getStep "fetch" = some step ∧
      ¬PipesCompose fetchContext plainExternals (fun _ _ => .ok true) w step "http:get"
        (documentedPipe.map PipeForm.tool) fetchOutputs := by
  have hfetches : fetches documentedSchemas = true := by decide +kernel
  obtain ⟨w, step, hparse, hstep, hsucceeds⟩ := fetches_step hfetches
  refine ⟨?_, w, step, hparse, hstep, not_pipesCompose_cons hsucceeds⟩
  exact .cons (.simple _) (.cons (.withArgs (List.Perm.refl _)) .nil)

end Konf.Executor
