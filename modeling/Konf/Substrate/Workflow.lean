import Konf.Foundations.Json

/-! # Workflow IR and engine configuration

The data of `konflux-substrate/src/workflow.rs` and `EngineConfig` of `engine.rs`. Ids are their
strings, durations are milliseconds (the parser writes no finer unit). -/

namespace Konf.Substrate
set_option autoImplicit false

abbrev StepId : Type := String

abbrev Uuid : Type := ℕ

inductive Expr
  | literal (s : String)
  | ref (path : String)
  | template (tmpl : String)
  | json (value : Json)

inductive EdgeTarget
  | step (id : StepId)
  | ret
deriving DecidableEq, Repr

structure Edge where
  target : EdgeTarget
  condition : Option String
  priority : Int
deriving DecidableEq, Repr

inductive JoinPolicy
  | all
  | any
  | quorum (min : ℕ)
  | lenient
deriving DecidableEq, Repr

inductive ErrorAction
  | fail
  | skip
  | fallback (value : String)
  | goto (step : StepId)
deriving DecidableEq, Repr

inductive BackoffStrategy
  | fixed
  | exponential
  | linear (increment : ℕ)
deriving DecidableEq, Repr

structure RetryPolicy where
  maxAttempts : ℕ
  backoff : BackoffStrategy
  baseDelay : ℕ
  maxDelay : ℕ
deriving DecidableEq, Repr

structure PipeStep where
  tool : String
  input : StrMap Expr

inductive StreamMode
  | default
  | passthrough
deriving DecidableEq, Repr

structure RepeatConfig where
  until_ : String
  max : ℕ
  asVar : Option String
deriving DecidableEq, Repr

structure Step where
  id : StepId
  tool : String
  input : StrMap Expr
  edges : List Edge
  dependsOn : List StepId
  join : JoinPolicy
  onError : ErrorAction
  retry : Option RetryPolicy
  timeout : Option ℕ
  credentials : StrMap String
  grant : Option (List String)
  pipe : List PipeStep
  stream : StreamMode
  repeat_ : Option RepeatConfig

def Step.new (id tool : String) : Step where
  id := id
  tool := tool
  input := ∅
  edges := []
  dependsOn := []
  join := .all
  onError := .fail
  retry := none
  timeout := none
  credentials := ∅
  grant := none
  pipe := []
  stream := .default
  repeat_ := none

structure Workflow where
  id : String
  name : String
  version : String
  entry : StepId
  steps : List Step
  capabilities : List String
  metadata : StrMap String
  description : Option String
  inputSchema : Option Json
  outputSchema : Option Json
  registerAsTool : Bool

def Workflow.new (id name entry : String) : Workflow where
  id := id
  name := name
  version := "0.1.0"
  entry := entry
  steps := []
  capabilities := []
  metadata := ∅
  description := none
  inputSchema := none
  outputSchema := none
  registerAsTool := false

def Workflow.getStep (w : Workflow) (id : StepId) : Option Step :=
  w.steps.find? fun s => s.id == id

theorem Workflow.getStep_id {w : Workflow} {id : StepId} {s : Step} (h : w.getStep id = some s) :
    s.id = id := by
  have hp := List.find?_some h
  exact beq_iff_eq.mp hp

theorem Workflow.getStep_mem {w : Workflow} {id : StepId} {s : Step} (h : w.getStep id = some s) :
    s ∈ w.steps := List.mem_of_find?_eq_some h

theorem Workflow.getStep_isSome {w : Workflow} {s : Step} (h : s ∈ w.steps) :
    ∃ s', w.getStep s.id = some s' := by
  have hs : (w.getStep s.id).isSome = true := by
    rw [Workflow.getStep, List.find?_isSome]
    exact ⟨s, h, beq_self_eq_true _⟩
  exact Option.isSome_iff_exists.mp hs

structure EngineConfig where
  maxSteps : ℕ
  defaultTimeoutMs : ℕ
  maxWorkflowTimeoutMs : ℕ
  streamBuffer : ℕ
  finishedChannelSize : ℕ
  defaultRetryBackoffMs : ℕ
  maxYamlSize : ℕ
  maxConcurrentNodes : ℕ
  defaultRetryBaseDelayMs : ℕ
  defaultRetryMaxDelayMs : ℕ
deriving DecidableEq, Repr

def EngineConfig.default : EngineConfig where
  maxSteps := 1000
  defaultTimeoutMs := 30000
  maxWorkflowTimeoutMs := 300000
  streamBuffer := 256
  finishedChannelSize := 100
  defaultRetryBackoffMs := 250
  maxYamlSize := 10 * 1024 * 1024
  maxConcurrentNodes := 50
  defaultRetryBaseDelayMs := 1000
  defaultRetryMaxDelayMs := 30000

end Konf.Substrate
