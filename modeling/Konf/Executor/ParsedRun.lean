import Konf.Parser.Compiler
import Konf.Executor.ExecuteStep

/-! # Scripted runs of parsed workflows

A schema is parsed and a call of `execute` on the result is driven by a script. A script that the
evaluator accepts yields a reachable state of the parsed workflow, so a concrete schedule is checked
by evaluation. -/

namespace Konf.Executor
open Konf.Substrate Konf.Parser Konf.Transition
set_option autoImplicit false

/-- A tool that is known by its name only; what it answers is up to the script. -/
structure PlainTool where
  name : String

instance : NamedTool PlainTool := ⟨PlainTool.name⟩

-- only ASCII text and fresh trace ids occur in the scripts
def plainExternals : Externals where
  isAlphanumeric := Char.isAlphanum
  render := fun s _ => .ok s
  parseUuid := fun _ => none
  formatUuid := fun _ => ""

/-- The engine's defaults, the `echo` tool, and all capabilities. -/
def plainContext (config : EngineConfig) : StepContext PlainTool where
  registry := ToolRegistry.new.register ⟨"echo"⟩
  capabilities := ["*"]
  config := config
  metadata := ∅
  workflowId := ""

def plainEnv (config : EngineConfig) (w : Workflow) : ExecutorEnv :=
  (plainContext config).executor plainExternals (fun _ _ => .ok true) w

/-- The tool's first attempt returns this value. -/
def answers (v : Json) : StepAnswer := ⟨0, fun _ => .completed (.ok v)⟩

/-- Parse the schema, run the script, and test the outcome. Each step must meet `ok`. -/
def parsedRun (mk : Workflow → ExecutorEnv)
    (ok : (env : ExecutorEnv) → State → Choice env.Answer → Prop)
    [∀ env s c, Decidable (ok env s c)] (config : EngineConfig) (schema : WorkflowSchema)
    (script : (w : Workflow) → List (Choice (mk w).Answer)) (p : Workflow → State → Bool) : Bool :=
  (parse plainExternals config schema).toOption.any fun w =>
    (run (mk w) (ok _) .null (script w)).any (p w)

theorem parsedRun_reachesWith {mk : Workflow → ExecutorEnv}
    {ok : (env : ExecutorEnv) → State → Choice env.Answer → Prop}
    [∀ env s c, Decidable (ok env s c)] {config : EngineConfig} {schema : WorkflowSchema}
    {script : (w : Workflow) → List (Choice (mk w).Answer)} {p : Workflow → State → Bool}
    (h : parsedRun mk ok config schema script p = true) (hconfig : ∀ w, (mk w).config = config)
    (hsize : 0 < config.finishedChannelSize) :
    ∃ w s, parse plainExternals config schema = .ok w ∧
      ReachesBy (Trans (mk w)) (ok _) (InitialWith (mk w) .null) s ∧ p w s = true := by
  unfold parsedRun at h
  obtain ⟨w, hw, h⟩ := (Option.any_eq_true ..).mp h
  obtain ⟨s, hs, hp⟩ := (Option.any_eq_true ..).mp h
  cases hparse : parse plainExternals config schema with
  | error e =>
    rw [hparse] at hw
    cases hw
  | ok w' =>
    rw [hparse] at hw
    cases hw
    rw [← hconfig w] at hsize
    exact ⟨w, s, rfl, run_reachesWith hsize hs, hp⟩

theorem parsedRun_reaches {mk : Workflow → ExecutorEnv}
    {ok : (env : ExecutorEnv) → State → Choice env.Answer → Prop}
    [∀ env s c, Decidable (ok env s c)] {config : EngineConfig} {schema : WorkflowSchema}
    {script : (w : Workflow) → List (Choice (mk w).Answer)} {p : Workflow → State → Bool}
    (h : parsedRun mk ok config schema script p = true) (hconfig : ∀ w, (mk w).config = config)
    (hsize : 0 < config.finishedChannelSize) :
    ∃ w s, parse plainExternals config schema = .ok w ∧
      ReachesBy (Trans (mk w)) (ok _) (Initial (mk w)) s ∧ p w s = true := by
  obtain ⟨w, s, hw, hs, hp⟩ := parsedRun_reachesWith h hconfig hsize
  exact ⟨w, s, hw, initial_of_with hs, hp⟩

end Konf.Executor
