import Konf.Substrate.Workflow

/-! # YAML schema types

The deserialised form of a workflow file (`parser/schema.rs`). `nodes` is an `IndexMap`: its entry
order is the order of the file. -/

namespace Konf.Parser
open Konf.Substrate
set_option autoImplicit false

structure ParallelTaskConfig where
  tool : String
  with_ : Option Json

inductive DoBlock
  | single (tool : String)
  | parallel (tasks : List (StrMap ParallelTaskConfig))

inductive PipeStepSchema
  | simple (tool : String)
  | withArgs (args : StrMap Json)
  | full (do_ : String) (with_ : Option Json)

structure ThenBranchSchema where
  when_ : Option String
  then_ : Option String
  goto : Option String
  else_ : Option Bool
deriving DecidableEq

inductive ThenBlock
  | unconditional (target : String)
  | multiple (targets : List String)
  | conditional (list : List ThenBranchSchema)
deriving DecidableEq

structure CatchBranchSchema where
  when_ : Option Json
  do_ : Option String
  with_ : Option Json
  then_ : Option String
  else_ : Option Bool

/-- A branch matches if `else` is set, or `when` is absent, `true` or `"true"`. -/
def CatchBranchSchema.isMatch (b : CatchBranchSchema) : Bool :=
  if b.else_.getD false then true
  else match b.when_ with
    | none => true
    | some (.bool v) => v
    | some (.str s) => s == "true"
    | some _ => false

inductive CatchBlock
  | simple (target : String)
  | branches (list : List CatchBranchSchema)

structure RetryConfigSchema where
  times : ℕ
  delay : Option String
  backoff : Option String
  maxDelay : Option String
  on : Option (List String)

structure RepeatConfigSchema where
  until_ : String
  max : ℕ
  as_ : Option String

structure JoinConfigSchema where
  waitFor : List String
  policy : Option String

inductive StreamConfigSchema
  | none
  | enabled (b : Bool)
  | mode (s : String)

def StreamConfigSchema.toMode : StreamConfigSchema → StreamMode
  | .none => .default
  | .enabled true => .passthrough
  | .enabled false => .default
  | .mode s =>
    -- the three accepted spellings are ASCII, so ASCII lowering decides them
    if s.toLower = "passthrough" ∨ s.toLower = "pass" ∨ s.toLower = "stream" then .passthrough
    else .default

structure NodeSchema where
  do_ : Option DoBlock := none
  with_ : Option Json := none
  pipe : List PipeStepSchema := []
  then_ : Option ThenBlock := none
  catch_ : CatchBlock := .branches []
  retry : Option RetryConfigSchema := none
  timeout : Option String := none
  entry : Option Bool := none
  repeat_ : Option RepeatConfigSchema := none
  stream : StreamConfigSchema := .none
  return_ : Option Json := none
  join : Option JoinConfigSchema := none
  credentials : StrMap String := ∅
  grant : Option (List String) := none

structure WorkflowSchema where
  workflow : String
  version : String := "0.1.0"
  description : Option String := none
  capabilities : List String := []
  inputSchema : Option Json := none
  outputSchema : Option Json := none
  registerAsTool : Bool := false
  nodes : StrMap NodeSchema

def ThenBranchSchema.target (b : ThenBranchSchema) : Option String := b.then_.or b.goto

/-- The targets a `then` block names, in source order. -/
def ThenBlock.targets : ThenBlock → List String
  | .unconditional target => [target]
  | .multiple targets => targets
  | .conditional branches => branches.filterMap ThenBranchSchema.target

def CatchBlock.targets : CatchBlock → List String
  | .simple target => [target]
  | .branches bs => bs.filterMap CatchBranchSchema.then_

/-- The control successors of a node: `then` and `goto` targets, then `catch` targets. -/
def NodeSchema.successors (n : NodeSchema) : List String :=
  (n.then_.map ThenBlock.targets).getD [] ++ n.catch_.targets

end Konf.Parser
