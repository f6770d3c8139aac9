import Konf.Memory.Nodes
import Konf.Memory.Search
import Konf.Memory.Session
import Konf.Runtime.Resolution
import Konf.Substrate.Condition
import Konf.Substrate.Error

/-! # Memory tools

Model of `konf-tool-memory/src/tools.rs`: what each tool makes of its payload, and the request that it
hands to the backend. The backend answers a request in steps, one for each statement that changes
something, and other requests run in between. The two queries of a hybrid search are one step, and so is
the block that creates a node with its embedding. -/

namespace Konf.Memory
open Konf.Substrate Konf.Fallible
set_option autoImplicit false

/-! ## Payloads -/

def MemoryError.display : MemoryError → String
  | .operationFailed message => "memory operation failed: " ++ message
  | .validation message => "validation error: " ++ message
  | .unavailable message => "backend unavailable: " ++ message
  | .unsupported message => "unsupported operation: " ++ message

def memErr (e : MemoryError) : ToolError := .executionFailed e.display false

inductive MemoryRequest
  | search (params : SearchParams)
  | addNodes (nodes : List Json) (namespace_ : Option String)
  | state (call : StateCall)

/-- `payload.get(key).and_then(|v| v.as_str())` -/
def strField (payload : Json) (key : String) : Option String := (payload.get key).bind Json.asStr

def intField (payload : Json) (key : String) : Option ℤ :=
  ((payload.get key).bind Json.asNumber).bind Condition.asI64

def missing (key message : String) : ToolError := .invalidInput message (some key)

/-- A field that a tool cannot do without. -/
def required {α : Type} (value : Option α) (key message : String) : Except ToolError α :=
  match value with
  | some a => .ok a
  | none => .error (missing key message)

def searchTool (payload : Json) : Except ToolError MemoryRequest :=
  .ok (.search
    { query := strField payload "query"
      mode := strField payload "mode"
      limit := intField payload "limit"
      namespace_ := strField payload "namespace"
      nodeType := strField payload "node_type"
      metadataFilter := payload.get "metadata_filter" })

def storeTool (payload : Json) : Except ToolError MemoryRequest := do
  let nodes ← required ((payload.get "nodes").bind Json.asArray) "nodes" "missing 'nodes' array"
  .ok (.addNodes nodes (strField payload "namespace"))

def stateSetTool (payload : Json) : Except ToolError MemoryRequest := do
  let key ← required (strField payload "key") "key" "missing 'key'"
  let value ← required (payload.get "value") "value" "missing 'value'"
  let sessionId ← required (strField payload "session_id") "session_id" "missing 'session_id'"
  .ok (.state (.set key value sessionId (strField payload "namespace") (intField payload "ttl_seconds")))

def stateGetTool (payload : Json) : Except ToolError MemoryRequest := do
  let key ← required (strField payload "key") "key" "missing 'key'"
  let sessionId ← required (strField payload "session_id") "session_id" "missing 'session_id'"
  .ok (.state (.get key sessionId (strField payload "namespace")))

def stateDeleteTool (payload : Json) : Except ToolError MemoryRequest := do
  let key ← required (strField payload "key") "key" "missing 'key'"
  let sessionId ← required (strField payload "session_id") "session_id" "missing 'session_id'"
  .ok (.state (.delete key sessionId (strField payload "namespace")))

def stateListTool (payload : Json) : Except ToolError MemoryRequest := do
  let sessionId ← required (strField payload "session_id") "session_id" "missing 'session_id'"
  .ok (.state (.list sessionId (strField payload "namespace")))

def stateClearTool (payload : Json) : Except ToolError MemoryRequest := do
  let sessionId ← required (strField payload "session_id") "session_id" "missing 'session_id'"
  .ok (.state (.clear sessionId (strField payload "namespace")))

/-- The tools that `register` adds, each with what it does to a payload. -/
def memoryTools : List (String × (Json → Except ToolError MemoryRequest)) :=
  [("memory:search", searchTool), ("memory:store", storeTool), ("state:set", stateSetTool),
    ("state:get", stateGetTool), ("state:delete", stateDeleteTool), ("state:list", stateListTool),
    ("state:clear", stateClearTool)]

def memoryTool (name : String) : Option (Json → Except ToolError MemoryRequest) :=
  memoryTools.lookup name

/-! ## Namespaces -/

def StateCall.namespace_ : StateCall → Option String
  | .set _ _ _ ns _ | .get _ _ ns | .delete _ _ ns | .list _ ns | .clear _ ns => ns

def MemoryRequest.namespace_ : MemoryRequest → Option String
  | .search params => params.namespace_
  | .addNodes _ ns => ns
  | .state call => call.namespace_

section Namespaces
variable {payload : Json} {request : MemoryRequest}

/-- Every tool takes the namespace from the payload, and from nowhere else. -/
theorem tools_namespace : ∀ t ∈ memoryTools, ∀ payload request, t.2 payload = .ok request →
    request.namespace_ = strField payload "namespace" := by
  intro t ht payload request h
  simp only [memoryTools, List.mem_cons, List.not_mem_nil, or_false] at ht
  obtain rfl | rfl | rfl | rfl | rfl | rfl | rfl := ht
  · cases h
    rfl
  · obtain ⟨nodes, -, h⟩ := bind_ok h
    cases h
    rfl
  · obtain ⟨key, -, h⟩ := bind_ok h
    obtain ⟨value, -, h⟩ := bind_ok h
    obtain ⟨sessionId, -, h⟩ := bind_ok h
    cases h
    rfl
  · obtain ⟨key, -, h⟩ := bind_ok h
    obtain ⟨sessionId, -, h⟩ := bind_ok h
    cases h
    rfl
  · obtain ⟨key, -, h⟩ := bind_ok h
    obtain ⟨sessionId, -, h⟩ := bind_ok h
    cases h
    rfl
  · obtain ⟨sessionId, -, h⟩ := bind_ok h
    cases h
    rfl
  · obtain ⟨sessionId, -, h⟩ := bind_ok h
    cases h
    rfl

theorem memoryTool_namespace {name : String} {tool : Json → Except ToolError MemoryRequest}
    (htool : memoryTool name = some tool) (h : tool payload = .ok request) :
    request.namespace_ = strField payload "namespace" := by
  obtain ⟨before, after, hsplit, -⟩ := List.lookup_eq_some_iff.mp htool
  have hmem : (name, tool) ∈ memoryTools := by
    rw [hsplit]
    simp
  exact tools_namespace _ hmem payload request h

end Namespaces

/-! ## Answering -/

inductive MemoryReply (F : Type)
  | found (reply : SearchReply F)
  | value (json : Json)

/-- A request that is being answered. `adding` is the loop of `add_nodes`, with the nodes that are left
and the number of those that are created. -/
inductive Pending
  | request (r : MemoryRequest)
  | adding (ns : String) (nodes : List Json) (createdCount : ℕ)
  | state (call : StateCall) (begun : Bool)

/-- What the backend is made of. -/
structure Backend (F : Type) where
  engine : Engine F
  config : SearchConfig
  surreal : Surreal

structure MemoryTables where
  store : Store
  sessions : SessionTable

/-- Another step, or the answer. -/
abbrev Progress (F : Type) : Type := Pending ⊕ Except MemoryError (MemoryReply F)

section Answering
variable {F : Type} (db : Backend F)

/-- A statement of a `state:*` call. -/
def stateStep (t : MemoryTables) (call : StateCall) (begun : Bool) (now : Time) :
    MemoryTables × Progress F :=
  let after := call.statement db.surreal t.sessions begun now
  ({ t with sessions := after.1 }, match after.2 with
    | none => .inl (.state call true)
    | some reply => .inr (reply.map .value))

/-- A turn of the loop of `add_nodes`; the last one records the event. -/
def addStep (t : MemoryTables) (ns : String) (createdCount : ℕ) (record : RecordId) :
    List Json → MemoryTables × Progress F
  | [] =>
    ({ t with store := t.store.recordEvent ns "nodes_added" (.obj [("count", .ofNat createdCount)]) },
      .inr (.ok (.value (.obj [("_meta", .obj [("namespace", .str ns)]),
        ("added", .ofNat createdCount)]))))
  | node :: rest => match parseNode db.config.vectorDimension node with
    | .error e => (t, .inr (.error e))
    | .ok new =>
      ({ t with store := t.store.create ns record new }, .inl (.adding ns rest (createdCount + 1)))

/-- The next step of a request, at the given time and with the record id that a new node would get. -/
def Pending.step (t : MemoryTables) (now : Time) (record : RecordId) :
    Pending → MemoryTables × Progress F
  | .request (.search params) => (t, .inr ((run db.engine db.config t.store params).map .found))
  | .request (.addNodes nodes param) =>
    if nodes = [] then (t, .inr (.error (.validation "add_nodes: nodes array is empty")))
    else (t, .inl (.adding (resolveNamespace param) nodes 0))
  | .request (.state call) => stateStep db t call false now
  | .adding ns nodes createdCount => addStep db t ns createdCount record nodes
  | .state call begun => stateStep db t call begun now

def Pending.namespace_ : Pending → String
  | .request r => resolveNamespace r.namespace_
  | .adding ns _ _ => ns
  | .state call _ => resolveNamespace call.namespace_

end Answering
end Konf.Memory
