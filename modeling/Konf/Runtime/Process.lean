import Konf.Foundations.Text
import Konf.Substrate.Workflow

/-! # Process table

Model of `konf-runtime/src/process.rs`: the in-memory table of workflow runs. The fields that only
monitoring reads (timestamps, active nodes, step counts, the cancellation token) are left out. -/

namespace Konf.Runtime
open Konf.Text Konf.Substrate
set_option autoImplicit false

inductive ActorRole
  | infraAdmin
  | productAdmin
  | user
  | infraAgent
  | productAgent
  | userAgent
  | system
deriving DecidableEq, Repr

structure Actor where
  id : String
  role : ActorRole
deriving DecidableEq, Repr

inductive RunStatus
  | pending
  | running
  | completed (output : Json)
  | failed (error : String)
  | cancelled (reason : String)

def RunStatus.isTerminal : RunStatus → Bool
  | .completed _ | .failed _ | .cancelled _ => true
  | .pending | .running => false

def RunStatus.isRunning : RunStatus → Bool
  | .running => true
  | _ => false

abbrev RunId : Type := Uuid

structure WorkflowRun where
  id : RunId
  workflowId : String
  namespace_ : String
  actor : Actor
  capabilities : List String
  status : RunStatus

abbrev ProcessTable : Type := AList (fun _ : RunId => WorkflowRun)

namespace ProcessTable

def insertRun (table : ProcessTable) (run : WorkflowRun) : ProcessTable := table.insert run.id run

/-- Runs counted by `validate_start`: the namespace is compared as a string prefix. -/
def activeIn (namespacePrefix : String) (run : WorkflowRun) : Bool :=
  run.status.isRunning && startsWith run.namespace_ namespacePrefix

def activeCountInNamespace (table : ProcessTable) (namespacePrefix : String) : ℕ :=
  table.entries.countP fun e => activeIn namespacePrefix e.2

end ProcessTable
end Konf.Runtime
