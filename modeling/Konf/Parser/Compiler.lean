import Mathlib.Data.List.Dedup
import Konf.Substrate.Template
import Konf.Parser.Validator

/-! # Dependency graph and compiler

Model of `parser/graph.rs`, `parser/compiler.rs` and `parser::parse` on a deserialised schema. The
dependency graph holds data dependencies only: the nodes a node's own `with` value refers to. It is
kept as the list of those names without repetition, standing for the hash set. -/

namespace Konf.Parser
open Konf.Substrate Konf.Text
set_option autoImplicit false

/-! ## Dependency graph -/

/-- The loop of `extract_from_string`; each round consumes at least the four braces. -/
def extractLoop : ℕ → List Char → List String
  | 0, _ => []
  | fuel + 1, s =>
    match splitOnce ['{', '{'] s with
    | none => []
    | some (_, rest) => match splitOnce ['}', '}'] rest with
      | none => []
      | some (inner, rest) =>
        let inner := trimList inner
        let root := match splitOnce ['.'] inner with
          | some (root, _) => root
          | none => inner
        String.ofList root :: extractLoop fuel rest

def extractFromString (s : String) : List String := extractLoop s.toList.length s.toList

mutual
def extractReferences : Json → List String
  | .str s => extractFromString s
  | .arr items => extractItems items
  | .obj fields => extractFields fields
  | .null | .bool _ | .num _ => []
def extractItems : List Json → List String
  | [] => []
  | v :: vs => extractReferences v ++ extractItems vs
def extractFields : List (String × Json) → List String
  | [] => []
  | (_, v) :: fs => extractReferences v ++ extractFields fs
end

/-- The nodes that `name` must wait for, as `DependencyGraph::build` collects them. -/
def dependenciesOf (schema : WorkflowSchema) (name : String) (node : NodeSchema) : List StepId :=
  match node.with_ with
  | some value =>
    ((extractReferences value).filter fun r => r ∈ nodeNames schema ∧ r ≠ name).dedup
  | none => []

/-! ## Node compilation -/

def valueToExpr (lib : Externals) : Json → Expr
  | .str s =>
    match (stripPrefix s openTag).bind fun rest => stripSuffix rest closeTag with
    | some body =>
      if contains body openTag then .template s
      else if (trim body).toList.all (fun c => lib.isAlphanumeric c || c == '.' || c == '_') then
        .ref (trim body)
      else .template s
    | none => if contains s openTag && contains s closeTag then .template s else .literal s
  | value => .json value

def parseDuration (s : String) : Except ParseError ℕ :=
  let s := trim s
  let err (detail : String) : ParseError :=
    .invalidValue "duration" (detail ++ " (expected Ns, Nms, or Nm, got '" ++ s ++ "')")
  let number (digits detail : String) (unit : ℕ → ℕ) : Except ParseError ℕ :=
    match parseU64 digits with
    | some n => .ok (unit n)
    | none => .error (err detail)
  match stripSuffix s "ms" with
  | some ms => number (trim ms) "invalid milliseconds" id
  | none => match stripSuffix s "s" with
    | some secs => number (trim secs) "invalid seconds" (· * 1000)
    | none => match stripSuffix s "m" with
      | some mins => number (trim mins) "invalid minutes" fun n => n * 60 % 2 ^ 64 * 1000
      | none => number s "invalid duration format" (· * 1000)

def compileInput (lib : Externals) (node : NodeSchema) : StrMap Expr :=
  match node.with_ with
  | some (.obj fields) =>
    fields.foldl (fun m e => m.insert e.1 (valueToExpr lib e.2)) ∅
  | _ => match node.do_, node.return_ with
    | none, some ret => (∅ : StrMap Expr).insert "__return__" (valueToExpr lib ret)
    | _, _ => ∅

def returnEdges (node : NodeSchema) : List Edge :=
  if node.return_.isSome then [⟨.ret, none, 0⟩] else []

def branchEdge (i : ℕ) (b : ThenBranchSchema) : Option Edge :=
  b.target.map fun t => ⟨.step t, if b.else_.getD false then none else b.when_, i⟩

def thenEdges : Option ThenBlock → List Edge
  | none => []
  | some (.unconditional target) => [⟨.step target, none, 0⟩]
  | some (.multiple targets) => targets.map fun t => ⟨.step t, none, 0⟩
  | some (.conditional branches) => branches.zipIdx.filterMap fun p => branchEdge p.2 p.1

def catchAction : CatchBlock → ErrorAction
  | .simple target => .goto target
  | .branches bs => match bs.find? CatchBranchSchema.isMatch with
    | none => .fail
    | some b => match b.then_, b.do_ with
      | some target, _ => .goto target
      | none, some do_ =>
        if do_ = "skip" ∨ do_ = "continue" then .skip
        else match stripPrefix do_ "fallback:" with
          | some value => .fallback value
          | none => .fail
      | none, none => .fail

def compileRetry (config : EngineConfig) (r : RetryConfigSchema) :
    Except ParseError RetryPolicy := do
  let baseDelay := (← r.delay.mapM parseDuration).getD config.defaultRetryBaseDelayMs
  let maxDelay := (← r.maxDelay.mapM parseDuration).getD config.defaultRetryMaxDelayMs
  let backoff := match r.backoff with
    | some "fixed" => BackoffStrategy.fixed
    | some "linear" => .linear baseDelay
    | _ => .exponential
  .ok ⟨r.times, backoff, baseDelay, maxDelay⟩

def argsInput (lib : Externals) : Json → StrMap Expr
  | .obj fields => fields.foldl (fun m e => m.insert e.1 (valueToExpr lib e.2)) ∅
  | _ => ∅

def compilePipe (lib : Externals) : PipeStepSchema → Option PipeStep
  | .simple tool => some ⟨tool, ∅⟩
  | .withArgs args => args.entries.head?.map fun e => ⟨e.1, argsInput lib e.2⟩
  | .full do_ with_ => some ⟨do_, argsInput lib (with_.getD .null)⟩

def compileNode (lib : Externals) (config : EngineConfig) (schema : WorkflowSchema)
    (name : String) (node : NodeSchema) : Except ParseError Step := do
  let tool := match node.do_ with
    | some (.single tool) => tool
    | some (.parallel _) => "internal_parallel_" ++ name
    | none => "echo"
  let retry ← node.retry.mapM (compileRetry config)
  let timeout ← node.timeout.mapM parseDuration
  .ok { Step.new name tool with
    input := compileInput lib node
    edges := returnEdges node ++ thenEdges node.then_
    onError := catchAction node.catch_
    retry := retry
    timeout := timeout
    credentials := node.credentials
    grant := node.grant
    pipe := node.pipe.filterMap (compilePipe lib)
    stream := node.stream.toMode
    repeat_ := node.repeat_.map fun r => ⟨r.until_, r.max, r.as_⟩
    dependsOn := dependenciesOf schema name node }

def compile (lib : Externals) (config : EngineConfig) (schema : WorkflowSchema) :
    Except ParseError Workflow :=
  match schema.nodes.keys with
  | [] => .error (.invalidYaml "Workflow must have at least one node")
  | entryId :: _ => do
    let steps ← schema.nodes.entries.mapM fun e => compileNode lib config schema e.1 e.2
    .ok { Workflow.new schema.workflow schema.workflow entryId with
      version := schema.version
      steps := steps
      capabilities := schema.capabilities
      description := schema.description
      inputSchema := schema.inputSchema
      outputSchema := schema.outputSchema
      registerAsTool := schema.registerAsTool }

/-- `parser::parse` after deserialisation: validate, then compile. -/
def parse (lib : Externals) (config : EngineConfig) (schema : WorkflowSchema) :
    Except KonfluxError Workflow :=
  match validate schema with
  | .error e => .error (.validation e)
  | .ok () => match compile lib config schema with
    | .error e => .error (.parse e)
    | .ok w => .ok w

end Konf.Parser
