import Mathlib.Data.List.Basic

/-! # Error types of the substrate

The error enumerations of `konflux-substrate/src/error.rs` and the messages of their `Display`
instances. -/

namespace Konf.Substrate
set_option autoImplicit false

inductive ToolError
  | invalidInput (message : String) (field : Option String)
  | executionFailed (message : String) (retryable : Bool)
  | timeout (afterMs : ℕ)
  | capabilityDenied (capability : String)
  | accessDenied (message : String)
  | notFound (toolId : String)
deriving DecidableEq, Repr

inductive ExecutionError
  | nodeFailed (workflowId node message : String)
  | timeout (workflowId node : String) (timeoutMs : ℕ)
  | maxStepsExceeded (workflowId : String) (max : ℕ)
  | joinFailed (workflowId node message : String)
  | cancelled (workflowId : String)
deriving DecidableEq, Repr

inductive ParseError
  | invalidYaml (message : String)
  | missingField (field context : String)
  | invalidValue (field message : String)
deriving DecidableEq, Repr

inductive ValidationError
  | cycleDetected (path : List String)
  | orphanedNode (node : String)
  | unknownNode (node source : String)
  | unknownTool (tool node : String)
  | missingCapability (capability : String)
  | noEntryNode
  | noReturnNode
deriving DecidableEq, Repr

inductive KonfluxError
  | parse (e : ParseError)
  | validation (e : ValidationError)
  | execution (e : ExecutionError)
  | tool (e : ToolError)
  | capabilityDenied (message : String)
deriving DecidableEq, Repr

def ToolError.display : ToolError → String
  | .invalidInput message _ => "invalid input: " ++ message
  | .executionFailed message _ => "execution failed: " ++ message
  | .timeout afterMs => "timeout after " ++ toString afterMs ++ "ms"
  | .capabilityDenied capability => "capability denied: " ++ capability
  | .accessDenied message => "access denied: " ++ message
  | .notFound toolId => "tool not found: " ++ toolId

def ExecutionError.display : ExecutionError → String
  | .nodeFailed w node message => "[" ++ w ++ "] node '" ++ node ++ "' failed: " ++ message
  | .timeout w node ms =>
    "[" ++ w ++ "] node '" ++ node ++ "' timed out after " ++ toString ms ++ "ms"
  | .maxStepsExceeded w max => "[" ++ w ++ "] max steps exceeded (" ++ toString max ++ ")"
  | .joinFailed w node message =>
    "[" ++ w ++ "] join failed on node '" ++ node ++ "': " ++ message
  | .cancelled w => "[" ++ w ++ "] workflow cancelled"

def ParseError.display : ParseError → String
  | .invalidYaml message => "invalid YAML: " ++ message
  | .missingField field context => "missing required field '" ++ field ++ "' in " ++ context
  | .invalidValue field message => "invalid value for '" ++ field ++ "': " ++ message

def ValidationError.display : ValidationError → String
  | .cycleDetected path => "cycle detected: " ++ " → ".intercalate path
  | .orphanedNode node => "orphaned node '" ++ node ++ "' — not reachable from entry"
  | .unknownNode node source =>
    "unknown node '" ++ node ++ "' referenced in edge from '" ++ source ++ "'"
  | .unknownTool tool node => "unknown tool '" ++ tool ++ "' in node '" ++ node ++ "'"
  | .missingCapability capability => "capability '" ++ capability ++ "' required but not granted"
  | .noEntryNode => "no entry node found"
  | .noReturnNode => "no return node found"

def KonfluxError.display : KonfluxError → String
  | .parse e => "parse error: " ++ e.display
  | .validation e => "validation error: " ++ e.display
  | .execution e => "execution error: " ++ e.display
  | .tool e => "tool error: " ++ e.display
  | .capabilityDenied message => "capability denied: " ++ message

end Konf.Substrate
