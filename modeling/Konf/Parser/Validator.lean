import Konf.Parser.Schema
import Konf.Substrate.Error
import Konf.Foundations.Text

/-! # Schema validation

Model of `parser/validator.rs`: tools against declared capabilities, existence of `then` / `goto` /
`catch` targets, reachability and cycles by depth-first search from the first node, and the
existence of a `return` node. The search is bounded by the number of nodes: every node on the path
is new, so the bound is never reached on a schema whose targets exist. -/

namespace Konf.Parser
open Konf.Substrate Konf.Text
set_option autoImplicit false

def nodeNames (schema : WorkflowSchema) : List String := schema.nodes.keys

def checkTool (schema : WorkflowSchema) (tool : String) : Except ValidationError Unit :=
  if schema.capabilities.isEmpty then .ok ()
  else if schema.capabilities.any (fun cap =>
      if cap = "*" then true
      else match stripSuffix cap ":*" with
        | some p =>
          startsWith tool p && (getRange tool (byteLen p.toList) (byteLen p.toList + 1) == some ":")
        | none => cap == tool) then .ok ()
  else .error (.missingCapability tool)

def checkTarget (schema : WorkflowSchema) (name target : String) : Except ValidationError Unit :=
  if target ∈ nodeNames schema then .ok () else .error (.unknownNode target name)

def checkDo (schema : WorkflowSchema) : DoBlock → Except ValidationError Unit
  | .single tool => checkTool schema tool
  | .parallel tasks =>
    tasks.forM fun taskMap => taskMap.entries.forM fun task => checkTool schema task.2.tool

def checkPipe (schema : WorkflowSchema) : PipeStepSchema → Except ValidationError Unit
  | .simple tool => checkTool schema tool
  | .withArgs args => match args.keys.head? with
    | some tool => checkTool schema tool
    | none => .ok ()
  | .full do_ _ => checkTool schema do_

def checkCatchDo (schema : WorkflowSchema) (do_ : String) : Except ValidationError Unit :=
  if do_ ≠ "skip" ∧ do_ ≠ "continue" ∧ startsWith do_ "fallback:" = false then checkTool schema do_
  else .ok ()

def checkCatchBranch (schema : WorkflowSchema) (name : String) (b : CatchBranchSchema) :
    Except ValidationError Unit := do
  b.then_.forM (checkTarget schema name)
  b.do_.forM (checkCatchDo schema)

def checkCatch (schema : WorkflowSchema) (name : String) : CatchBlock → Except ValidationError Unit
  | .simple target => checkTarget schema name target
  | .branches branches => branches.forM (checkCatchBranch schema name)

def validateNode (schema : WorkflowSchema) (name : String) (node : NodeSchema) :
    Except ValidationError Unit := do
  node.do_.forM (checkDo schema)
  node.pipe.forM (checkPipe schema)
  node.then_.forM fun thenBlock => thenBlock.targets.forM (checkTarget schema name)
  checkCatch schema name node.catch_

/-! ## Reachability and cycles -/

structure DfsState where
  visited : List String
  path : List String
  reachable : List String

def dfs (schema : WorkflowSchema) : ℕ → String → DfsState → Except ValidationError DfsState
  | 0, current, st => .error (.cycleDetected (st.path ++ [current]))
  | fuel + 1, current, st =>
    if current ∈ st.path then .error (.cycleDetected (st.path ++ [current]))
    else
      let reachable := current :: st.reachable
      if current ∈ st.visited then .ok { st with reachable := reachable }
      else
        let st : DfsState :=
          { visited := current :: st.visited, path := st.path ++ [current], reachable := reachable }
        let targets := ((schema.nodes.lookup current).map NodeSchema.successors).getD []
        (targets.foldlM (fun st target => dfs schema fuel target st) st).map fun st =>
          { st with path := st.path.dropLast }

def checkReachabilityAndCycles (schema : WorkflowSchema) (entryId : String) :
    Except ValidationError Unit := do
  let st ← dfs schema ((nodeNames schema).length + 1) entryId ⟨[], [], []⟩
  match (nodeNames schema).find? (fun name => name ∉ st.reachable) with
  | some node => .error (.orphanedNode node)
  | none => .ok ()

def checkTerminals (schema : WorkflowSchema) : Except ValidationError Unit :=
  if schema.nodes.entries.any (fun e => e.2.return_.isSome) then .ok () else .error .noReturnNode

def validate (schema : WorkflowSchema) : Except ValidationError Unit :=
  match schema.nodes.keys with
  | [] => .error .noEntryNode
  | entryId :: _ => do
    schema.nodes.entries.forM fun e => validateNode schema e.1 e.2
    checkReachabilityAndCycles schema entryId
    checkTerminals schema

end Konf.Parser
