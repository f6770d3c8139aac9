import Konf.Parser.Compiled
import Konf.Executor.ParsedRun
import Konf.Executor.Residence

/-! # Tools that a workflow declares

The validator checks every tool that a file names against the `capabilities` of the file, and
`execute_step` checks every tool that runs against the capabilities of the call. For two kinds of nodes
these are not the same tools: a node without `do` runs `echo`, and a node with a parallel `do` runs a
tool called after the node. The validator has seen neither, so a workflow that runs under exactly what
it declares is denied such a tool unless the file happens to declare it. -/

namespace Konf.Executor
open Konf.Substrate Konf.Parser Konf.Fallible
set_option autoImplicit false

/-! ## Declared patterns -/

/-- All tools, the tool itself, or a family to which the tool belongs. -/
def Declares (capabilities : List String) (tool : String) : Prop :=
  "*" ∈ capabilities ∨ tool ∈ capabilities ∨
    ∃ p, p ++ ":*" ∈ capabilities ∧ p.toList ++ [':'] <+: tool.toList

section Patterns
variable {capabilities : List String} {tool : String}

theorem checkToolAccess_iff_any : checkToolAccess tool capabilities = .ok () ↔
    (capabilities.any fun c => (Capability.mk c).matches tool) = true := by
  rw [checkToolAccess, checkAccess_ok_iff, ← any_matches_iff, CapSet.fromPatterns, List.any_map]
  rfl

theorem checkToolAccess_iff_declares :
    checkToolAccess tool capabilities = .ok () ↔ Declares capabilities tool := by
  rw [checkToolAccess_iff_any, List.any_eq_true]
  constructor
  · intro ⟨c, hc, hmatch⟩
    obtain rfl | ⟨p, rfl⟩ | ⟨hall, hfamily⟩ := pattern_cases c
    · exact .inl hc
    · exact .inr (.inr ⟨p, hc, (matches_family p tool).mp hmatch⟩)
    · have heq : c = tool := (matches_exact hall hfamily tool).mp hmatch
      exact .inr (.inl (heq ▸ hc))
  · intro h
    obtain hall | hself | ⟨p, hp, hpre⟩ := h
    · exact ⟨"*", hall, matches_all tool⟩
    · exact ⟨tool, hself, matches_self tool⟩
    · exact ⟨p ++ ":*", hp, (matches_family p tool).mpr hpre⟩

/-- No family has `echo` in it, which is written without a colon. -/
theorem declares_echo : Declares capabilities "echo" ↔ "*" ∈ capabilities ∨ "echo" ∈ capabilities := by
  have hfamily : ¬∃ p, p ++ ":*" ∈ capabilities ∧ p.toList ++ [':'] <+: "echo".toList := by
    rintro ⟨p, -, hpre⟩
    have hcolon : ':' ∈ "echo".toList := hpre.subset (by simp)
    revert hcolon
    decide
  rw [Declares, iff_false_intro hfamily, or_false]

/-- The validator's own matcher is the one of `check_tool_access`. -/
theorem checkToolAccess_of_checkTool {schema : WorkflowSchema} (hcaps : schema.capabilities ≠ [])
    (h : checkTool schema tool = .ok ()) : checkToolAccess tool schema.capabilities = .ok () := by
  unfold checkTool at h
  rw [if_neg (by simpa using hcaps)] at h
  split_ifs at h with hany
  exact checkToolAccess_iff_any.mpr hany

end Patterns

/-! ## The tool of a compiled node -/

def nodeTool (name : String) (node : NodeSchema) : String :=
  match node.do_ with
  | some (.single tool) => tool
  | some (.parallel _) => "internal_parallel_" ++ name
  | none => "echo"

/-- The file declares the tools that the compiler puts in. -/
structure DeclaresInvented (schema : WorkflowSchema) : Prop where
  echo : ∀ name node, schema.nodes.lookup name = some node → node.do_ = none →
    "*" ∈ schema.capabilities ∨ "echo" ∈ schema.capabilities
  parallel : ∀ name node tasks, schema.nodes.lookup name = some node →
    node.do_ = some (.parallel tasks) → Declares schema.capabilities ("internal_parallel_" ++ name)

section Compiled
variable {lib : Externals} {config : EngineConfig} {schema : WorkflowSchema} {w : Workflow}

theorem compileNode_tool {name : String} {node : NodeSchema} {s : Step}
    (h : compileNode lib config schema name node = .ok s) : s.tool = nodeTool name node := by
  unfold compileNode at h
  obtain ⟨retry, -, h⟩ := bind_ok h
  obtain ⟨timeout, -, h⟩ := bind_ok h
  cases h
  rfl

theorem validate_single (hv : validate schema = .ok ()) (hcaps : schema.capabilities ≠ [])
    {name tool : String} {node : NodeSchema} (hnode : schema.nodes.lookup name = some node)
    (hdo : node.do_ = some (.single tool)) :
    checkToolAccess tool schema.capabilities = .ok () := by
  have hvalid := validate_nodes hv hnode
  unfold validateNode at hvalid
  obtain ⟨⟨⟩, hcheck, -⟩ := bind_ok hvalid
  rw [hdo] at hcheck
  exact checkToolAccess_of_checkTool hcaps hcheck

theorem tools_covered_iff (hv : validate schema = .ok ()) (hc : compile lib config schema = .ok w)
    (hcaps : schema.capabilities ≠ []) :
    (∀ s ∈ w.steps, checkToolAccess s.tool schema.capabilities = .ok ()) ↔
      DeclaresInvented schema := by
  constructor
  · intro h
    refine ⟨?_, ?_⟩
    · intro name node hnode hdo
      obtain ⟨s, hs, hcompile⟩ := node_step hc hnode
      have haccess := h s hs
      simp only [compileNode_tool hcompile, nodeTool, hdo] at haccess
      exact declares_echo.mp (checkToolAccess_iff_declares.mp haccess)
    · intro name node tasks hnode hdo
      obtain ⟨s, hs, hcompile⟩ := node_step hc hnode
      have haccess := h s hs
      simp only [compileNode_tool hcompile, nodeTool, hdo] at haccess
      exact checkToolAccess_iff_declares.mp haccess
  · intro h s hs
    obtain ⟨name, node, hnode, hcompile⟩ := step_node hc hs
    rw [compileNode_tool hcompile]
    cases hdo : node.do_ with
    | none =>
      simp only [nodeTool, hdo]
      exact checkToolAccess_iff_declares.mpr (declares_echo.mpr (h.echo name node hnode hdo))
    | some block =>
      cases block with
      | single tool =>
        simp only [nodeTool, hdo]
        exact validate_single hv hcaps hnode hdo
      | parallel tasks =>
        simp only [nodeTool, hdo]
        exact checkToolAccess_iff_declares.mpr (h.parallel name node tasks hnode hdo)

end Compiled

/-! ## Runs under the declared capabilities -/

section Runs
variable {T : Type} [NamedTool T]

/-- The inputs of the step resolve, and `execute_step` returns at its access check. -/
def StepContext.denies (ctx : StepContext T) (lib : Externals) (step : Step) (outputs : Outputs) :
    Bool :=
  (resolveInputs lib step.input outputs).isOk && !(checkToolAccess step.tool ctx.capabilities).isOk

end Runs

/-- In every run of the workflow under these capabilities, whatever the tools do, no call of
`execute_step` is denied the tool of its step. -/
def NeverDenied (lib : Externals) (w : Workflow) (capabilities : List String) : Prop :=
  ∀ (T : Type) [NamedTool T] (ctx : StepContext T)
    (evaluateAsBool : Outputs → String → Except String Bool) (s : State),
    ctx.capabilities = capabilities → Reachable (ctx.executor lib evaluateAsBool w) s →
      ∀ t ∈ s.tasks, ∀ seen, t.pc = .executing seen → ctx.denies lib t.current seen = false

theorem neverDenied_of_covered {lib : Externals} {w : Workflow} {capabilities : List String}
    (h : ∀ s ∈ w.steps, checkToolAccess s.tool capabilities = .ok ()) :
    NeverDenied lib w capabilities := by
  intro T _ ctx evaluateAsBool s hctx hreach t ht seen _
  have hcurrent := (Reachable.residence hreach).current t ht
  have haccess : checkToolAccess t.current.tool ctx.capabilities = .ok () := by
    rw [hctx]
    exact h t.current (Workflow.getStep_mem hcurrent)
  simp [StepContext.denies, haccess, Except.isOk, Except.toBool]

/-- The declared capabilities cover what runs exactly when the file declares the tools that the
compiler puts in. -/
theorem declared_capabilities_cover_iff (lib : Externals) (config : EngineConfig)
    (schema : WorkflowSchema) (w : Workflow) (hv : validate schema = .ok ())
    (hc : compile lib config schema = .ok w) (hcaps : schema.capabilities ≠ []) :
    ((∀ s ∈ w.steps, checkToolAccess s.tool schema.capabilities = .ok ()) ∧
      NeverDenied lib w schema.capabilities) ↔ DeclaresInvented schema := by
  constructor
  · intro h
    exact (tools_covered_iff hv hc hcaps).mp h.1
  · intro h
    have hcovered := (tools_covered_iff hv hc hcaps).mpr h
    exact ⟨hcovered, neverDenied_of_covered hcovered⟩

/-- A search whose result is passed through, with the tool for that declared. -/
def searchSchema : WorkflowSchema where
  workflow := "search"
  capabilities := ["memory:*", "echo"]
  nodes := StrMap.ofList
    [("search", { do_ := some (.single "memory:search"), then_ := some (.unconditional "answer") }),
      ("answer", { return_ := some (.str "done") })]
    (by decide)

theorem search_covered : ∃ w, validate searchSchema = .ok () ∧
    compile plainExternals EngineConfig.default searchSchema = .ok w ∧ w.steps.length = 2 ∧
      NeverDenied plainExternals w searchSchema.capabilities := by
  have hv : validate searchSchema = .ok () := by decide +kernel
  have hinvented : DeclaresInvented searchSchema := by
    refine ⟨fun _ _ _ _ => .inr (by decide), ?_⟩
    intro name node tasks hnode hdo
    cases List.mem_cons.mp (AList.mem_lookup_iff.mp hnode) with
    | inl h =>
      cases h
      cases hdo
    | inr h =>
      cases List.mem_singleton.mp h
      cases hdo
  refine ⟨_, hv, rfl, rfl, ?_⟩
  exact ((declared_capabilities_cover_iff plainExternals EngineConfig.default searchSchema _ hv rfl
    (by decide)).mpr hinvented).2

/-! ## Two pages at once -/

/-- The parallel block of the workflow reference: two pages are fetched, and fetching is declared. -/
def parallelFetch : WorkflowSchema where
  workflow := "parallel_fetch"
  capabilities := ["http:get"]
  nodes := StrMap.ofList
    [("fetch_both",
      { do_ := some (.parallel
          [StrMap.ofList [("page_a", ⟨"http:get", some (.obj [("url", .str "https://example.com/a")])⟩)]
              (by decide),
            StrMap.ofList [("page_b", ⟨"http:get", some (.obj [("url", .str "https://example.com/b")])⟩)]
              (by decide)])
        return_ := some (.bool true) })]
    (by decide)

def grantedEnv (tools capabilities : List String) (w : Workflow) : ExecutorEnv :=
  ({ plainContext EngineConfig.default with
      registry := ToolRegistry.new.registerAll (tools.map PlainTool.mk)
      capabilities := capabilities } : StepContext PlainTool).executor plainExternals
    (fun _ _ => .ok true) w

def State.failure (s : State) : Option KonfluxError :=
  match s.main with
  | .returned (.error e) => some e
  | _ => none

/-- The example is accepted, and a run of it under what it declares ends with its own tool denied. -/
theorem parallel_fetch_denied : ∃ w s, validate parallelFetch = .ok () ∧
    compile plainExternals EngineConfig.default parallelFetch = .ok w ∧
      (∃ step ∈ w.steps, checkToolAccess step.tool parallelFetch.capabilities ≠ .ok ()) ∧
      Reachable (grantedEnv ["http:get"] parallelFetch.capabilities w) s ∧
      s.failure = some (.tool (.capabilityDenied "internal_parallel_fetch_both")) := by
  have hrun : parsedRun (grantedEnv ["http:get"] parallelFetch.capabilities) (fun _ _ _ => True)
      EngineConfig.default parallelFetch
      (fun _ => [.task 0, .task 0, .task 0, .answer 0 (answers .null), .task 0, .task 0, .join 0, .main])
      (fun w s => decide (s.failure =
          some (.tool (.capabilityDenied "internal_parallel_fetch_both"))) &&
        w.steps.any fun step => !(checkToolAccess step.tool parallelFetch.capabilities).isOk) =
      true := by
    decide +kernel
  obtain ⟨w, s, hw, hs, hp⟩ := parsedRun_reaches hrun (fun _ => rfl) (by decide)
  rw [Bool.and_eq_true, decide_eq_true_eq, List.any_eq_true] at hp
  obtain ⟨hfailure, step, hstep, hdenied⟩ := hp
  obtain ⟨hv, hc⟩ := parse_ok hw
  refine ⟨w, s, hv, hc, ⟨step, hstep, ?_⟩, hs, hfailure⟩
  intro haccess
  rw [haccess] at hdenied
  cases hdenied

end Konf.Executor
