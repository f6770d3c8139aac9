import Konf.Runtime.Authority

/-! # Tool names at the MCP boundary

Model of `list_tools` and `call_tool` of `konf-mcp/src/lib.rs`. An MCP name is a kernel name with its
colons replaced by underscores, and a call is resolved by going through all registered tools, those
the session may not see included, in the order of a hash map. A listed tool can be called under its
MCP name in every order exactly when no other registered tool has the same MCP name. -/

namespace Konf.Mcp
open Konf.Substrate Konf.Runtime
set_option autoImplicit false

/-! ## Names -/

/-- `name.replace(':', "_")`. -/
def kernelToMcpName (name : String) : String :=
  String.ofList (name.toList.map fun c => if c = ':' then '_' else c)

def toolAllowedBySession (toolName : String) (capabilities : List String) : Bool :=
  match checkToolAccess toolName capabilities with
  | .ok _ => true
  | .error _ => false

/-- The names of `list_tools`, for a registry that is gone through in the given order. -/
def listTools (order capabilities : List String) : List String :=
  (order.filter (toolAllowedBySession · capabilities)).map kernelToMcpName

/-- The first tool with this MCP name, else the name as it is. -/
def resolveName (order : List String) (mcpName : String) : String :=
  (order.find? fun name => kernelToMcpName name == mcpName).getD mcpName

/-! ## Calls -/

inductive McpError
  | invalidParams (message : String)

def mcpSessionScope (capabilities : List String) : ExecutionScope where
  namespace_ := "konf:mcp:http"
  capabilities := capabilities.map fun pattern =>
    ⟨pattern, StrMap.ofList [("namespace", .str "konf:mcp:http")] (by simp)⟩
  limits := ResourceLimits.default
  actor := ⟨"mcp-http", .system⟩
  depth := 0

/-- `call_tool`, up to the invocation of the tool. The server and the runtime share one engine, and
the trace id is a new one. -/
def callTool (sys : System) (capabilities order : List String) (traceId : Uuid) (now : ℕ)
    (mcpName : String) (arguments : Option (List (String × Json))) :
    Except McpError (Except RuntimeError (Tool × Envelope)) :=
  let kernelName := resolveName order mcpName
  let input := Json.obj (arguments.getD [])
  if toolAllowedBySession kernelName capabilities then
    .ok (sys.dispatchTool kernelName input (mcpSessionScope capabilities)
      (.withTrace traceId "konf:mcp:http") now)
  else .error (.invalidParams ("Tool not permitted in this session: " ++ mcpName))

def Listed (sys : System) (capabilities : List String) (t : String) : Prop :=
  t ∈ sys.registry.names ∧ toolAllowedBySession t capabilities = true

/-- Every listed tool can be called under its MCP name, and the call goes to it, in whatever order
the registry is gone through. -/
def NamesRoundTrip (sys : System) (capabilities : List String) : Prop :=
  ∀ t, Listed sys capabilities t → ∀ order, order.Perm sys.registry.names →
    ∀ traceId now arguments, ∃ tool env,
      callTool sys capabilities order traceId now (kernelToMcpName t) arguments =
        .ok (.ok (tool, env)) ∧ tool.name = t

def NamesApart (sys : System) (capabilities : List String) : Prop :=
  ∀ t, Listed sys capabilities t → ∀ u ∈ sys.registry.names,
    kernelToMcpName u = kernelToMcpName t → u = t

/-! ## Resolution -/

section Resolution
variable {sys : System} {capabilities order : List String} {t : String}

theorem resolveName_of_mem (h : t ∈ order) :
    resolveName order (kernelToMcpName t) ∈ order ∧
      kernelToMcpName (resolveName order (kernelToMcpName t)) = kernelToMcpName t := by
  unfold resolveName
  cases hfind : order.find? fun name => kernelToMcpName name == kernelToMcpName t with
  | none =>
    have hnot := List.find?_eq_none.mp hfind t h
    simp at hnot
  | some u =>
    have hname := List.find?_some hfind
    exact ⟨List.mem_of_find?_eq_some hfind, beq_iff_eq.mp hname⟩

theorem toolAllowedBySession_iff :
    toolAllowedBySession t capabilities = true ↔
      (CapSet.fromPatterns capabilities).checkAccess t = .ok () := by
  unfold toolAllowedBySession checkToolAccess
  cases (CapSet.fromPatterns capabilities).checkAccess t <;> simp

theorem mcpSessionScope_checkTool (h : toolAllowedBySession t capabilities = true) :
    ∃ bindings, (mcpSessionScope capabilities).checkTool t = .ok bindings := by
  have hpatterns : (mcpSessionScope capabilities).capabilityPatterns = capabilities := by
    rw [ExecutionScope.capabilityPatterns, mcpSessionScope, List.map_map]
    exact List.map_id capabilities
  rw [checkTool_ok_iff, hpatterns]
  exact toolAllowedBySession_iff.mp h

theorem callTool_listed {m : String} (h : Listed sys capabilities (resolveName order m))
    (traceId : Uuid) (now : ℕ) (arguments : Option (List (String × Json))) :
    ∃ tool env, callTool sys capabilities order traceId now m arguments = .ok (.ok (tool, env)) := by
  obtain ⟨hmem, hallowed⟩ := h
  obtain ⟨bindings, hcheck⟩ := mcpSessionScope_checkTool hallowed
  obtain ⟨raw, hraw⟩ := Option.isSome_iff_exists.mp (AList.lookup_isSome.mpr hmem)
  have hget : sys.registry.get (resolveName order m) = some raw := hraw
  unfold callTool System.dispatchTool
  simp only [hallowed, if_true, hcheck, hget]
  exact ⟨_, _, rfl⟩

theorem dispatchTool_name {toolName : String} {input : Json} {scope : ExecutionScope}
    {ctx : ExecutionContext} {now : ℕ} {tool : Tool} {env : Envelope}
    (h : sys.dispatchTool toolName input scope ctx now = .ok (tool, env)) : tool.name = toolName := by
  unfold System.dispatchTool at h
  obtain ⟨bindings, -, h⟩ := Fallible.bind_ok h
  split at h
  · cases h
  · rename_i raw hraw
    split_ifs at h
    cases h
    rw [System.guard_name, System.virtualize_name]
    exact ToolRegistry.get_name hraw

theorem callTool_ok {traceId : Uuid} {now : ℕ} {m : String}
    {arguments : Option (List (String × Json))} {tool : Tool} {env : Envelope}
    (h : callTool sys capabilities order traceId now m arguments = .ok (.ok (tool, env))) :
    tool.name = resolveName order m := by
  unfold callTool at h
  simp only at h
  split at h
  · exact dispatchTool_name (Except.ok.inj h)
  · cases h

end Resolution

/-- MCP names round-trip, for every order of the registry, exactly when no registered tool shares the
MCP name of a listed one. -/
theorem names_round_trip_iff (sys : System) (capabilities : List String) :
    NamesRoundTrip sys capabilities ↔ NamesApart sys capabilities := by
  constructor
  · intro h t ht u hu hname
    -- an order that meets `u` first
    have hperm : (u :: sys.registry.names.erase u).Perm sys.registry.names :=
      (List.perm_cons_erase hu).symm
    obtain ⟨tool, env, hcall, htool⟩ := h t ht _ hperm 0 0 none
    have hfirst : resolveName (u :: sys.registry.names.erase u) (kernelToMcpName t) = u := by
      simp [resolveName, hname]
    rw [← htool, callTool_ok hcall, hfirst]
  · intro h t ht order horder traceId now arguments
    obtain ⟨hmem, hname⟩ := resolveName_of_mem (horder.mem_iff.mpr ht.1)
    have hself := h t ht _ (horder.mem_iff.mp hmem) hname
    have hlisted : Listed sys capabilities (resolveName order (kernelToMcpName t)) := by
      rw [hself]
      exact ht
    obtain ⟨tool, env, hcall⟩ := callTool_listed hlisted traceId now arguments
    exact ⟨tool, env, hcall, (callTool_ok hcall).trans hself⟩

/-! ## Two tools with one MCP name -/

/-- A session that may use `memory:search`, next to a workflow tool named with an underscore. -/
def clashingSystem : System := baseSystem [.plain "memory_search", .plain "memory:search"]

/-- The client is shown one tool, and its call of that tool is refused. -/
theorem clashing_names_lost :
    listTools clashingSystem.registry.names ["memory:search"] = ["memory_search"] ∧
      ¬ NamesRoundTrip clashingSystem ["memory:search"] := by
  refine ⟨by decide +kernel, ?_⟩
  intro h
  have hlisted : Listed clashingSystem ["memory:search"] "memory:search" := by
    unfold Listed
    decide +kernel
  have hperm : ["memory_search", "memory:search"].Perm clashingSystem.registry.names := by
    decide +kernel
  obtain ⟨tool, env, hcall, -⟩ := h _ hlisted _ hperm 0 0 none
  have hrefused : (callTool clashingSystem ["memory:search"] ["memory_search", "memory:search"] 0 0
      (kernelToMcpName "memory:search") none).isOk = false := by
    decide +kernel
  rw [hcall] at hrefused
  cases hrefused

end Konf.Mcp
