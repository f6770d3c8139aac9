import Konf.Foundations.Fallible
import Konf.Parser.Compiler

/-! # What the parser produces

Facts about every workflow that `parse` returns: each step is the compilation of one node, each node
has its step, and the targets of edges and of `catch` resolve to steps. -/

namespace Konf.Parser
open Konf.Substrate Konf.Text Konf.Fallible
set_option autoImplicit false

variable {lib : Externals} {config : EngineConfig} {schema : WorkflowSchema} {w : Workflow}

theorem parse_ok (h : parse lib config schema = .ok w) :
    validate schema = .ok () ∧ compile lib config schema = .ok w := by
  unfold parse at h
  split at h
  · cases h
  · rename_i hv
    split at h
    · cases h
    · rename_i hc
      cases h
      exact ⟨hv, hc⟩

theorem compile_ok (h : compile lib config schema = .ok w) :
    List.Forall₂ (fun e s => compileNode lib config schema e.1 e.2 = .ok s)
        schema.nodes.entries w.steps ∧
      schema.nodes.keys.head? = some w.entry := by
  unfold compile at h
  split at h
  · cases h
  · rename_i hkeys
    obtain ⟨steps, hsteps, h⟩ := bind_ok h
    cases h
    rw [hkeys]
    exact ⟨mapM_ok hsteps, rfl⟩

/-- The parts of a step that node compilation decides and the executor reads. -/
structure CompiledFrom (schema : WorkflowSchema) (name : String) (node : NodeSchema) (s : Step) :
    Prop where
  id : s.id = name
  join : s.join = .all
  edges : s.edges = returnEdges node ++ thenEdges node.then_
  onError : s.onError = catchAction node.catch_
  dependsOn : s.dependsOn = dependenciesOf schema name node
  repeat_ : s.repeat_ = node.repeat_.map fun r => ⟨r.until_, r.max, r.as_⟩

theorem compileNode_ok {name : String} {node : NodeSchema} {s : Step}
    (h : compileNode lib config schema name node = .ok s) : CompiledFrom schema name node s := by
  unfold compileNode at h
  obtain ⟨retry, -, h⟩ := bind_ok h
  obtain ⟨timeout, -, h⟩ := bind_ok h
  cases h
  exact ⟨rfl, rfl, rfl, rfl, rfl, rfl⟩

/-- Every step is the compilation of a node. -/
theorem step_node (h : compile lib config schema = .ok w) {s : Step} (hs : s ∈ w.steps) :
    ∃ name node, schema.nodes.lookup name = some node ∧
      compileNode lib config schema name node = .ok s := by
  obtain ⟨hall, -⟩ := compile_ok h
  obtain ⟨i, hi, rfl⟩ := List.mem_iff_getElem.mp hs
  have hi' : i < schema.nodes.entries.length := hall.length_eq ▸ hi
  refine ⟨schema.nodes.entries[i].1, schema.nodes.entries[i].2, ?_, hall.get hi' hi⟩
  exact AList.mem_lookup_iff.mpr (List.getElem_mem hi')

/-- Every node is compiled to a step. -/
theorem node_step (h : compile lib config schema = .ok w) {name : String} {node : NodeSchema}
    (hnode : schema.nodes.lookup name = some node) :
    ∃ s ∈ w.steps, compileNode lib config schema name node = .ok s := by
  obtain ⟨hall, -⟩ := compile_ok h
  obtain ⟨i, hi, heq⟩ := List.mem_iff_getElem.mp (AList.mem_lookup_iff.mp hnode)
  have hi' : i < w.steps.length := hall.length_eq ▸ hi
  have hcompile := hall.get hi hi'
  simp only [List.get_eq_getElem, heq] at hcompile
  exact ⟨w.steps[i], List.getElem_mem hi', hcompile⟩

theorem step_compiled (h : parse lib config schema = .ok w) {s : Step} (hs : s ∈ w.steps) :
    ∃ node, schema.nodes.lookup s.id = some node ∧ CompiledFrom schema s.id node s := by
  obtain ⟨name, node, hnode, hcompile⟩ := step_node (parse_ok h).2 hs
  have hc := compileNode_ok hcompile
  rw [← hc.id] at hnode hc
  exact ⟨node, hnode, hc⟩

theorem getStep_of_node (h : parse lib config schema = .ok w) {name : String}
    (hname : name ∈ nodeNames schema) : ∃ s, w.getStep name = some s := by
  obtain ⟨node, hnode⟩ := Option.isSome_iff_exists.mp (AList.lookup_isSome.mpr hname)
  obtain ⟨s, hs, hcompile⟩ := node_step (parse_ok h).2 hnode
  rw [← (compileNode_ok hcompile).id]
  exact Workflow.getStep_isSome hs

theorem entry_step (h : parse lib config schema = .ok w) :
    ∃ s, w.getStep w.entry = some s := by
  obtain ⟨-, hentry⟩ := compile_ok (parse_ok h).2
  exact getStep_of_node h (List.mem_of_mem_head? hentry)

/-! ## Targets -/

theorem validate_nodes (h : validate schema = .ok ()) {name : String} {node : NodeSchema}
    (hnode : schema.nodes.lookup name = some node) : validateNode schema name node = .ok () := by
  unfold validate at h
  split at h
  · cases h
  · obtain ⟨⟨⟩, hnodes, -⟩ := bind_ok h
    exact forM_ok hnodes ⟨name, node⟩ (AList.mem_lookup_iff.mp hnode)

theorem checkTarget_ok {name target : String} (h : checkTarget schema name target = .ok ()) :
    target ∈ nodeNames schema := by
  unfold checkTarget at h
  split_ifs at h with ht
  exact ht

theorem mem_thenEdges {t : ThenBlock} {x : StepId} {c : Option String} {p : Int}
    (h : ⟨.step x, c, p⟩ ∈ thenEdges (some t)) : x ∈ t.targets := by
  cases t with
  | unconditional target =>
    have hx := List.mem_singleton.mp h
    cases hx
    exact List.mem_singleton_self _
  | multiple targets =>
    obtain ⟨y, hy, heq⟩ := List.mem_map.mp h
    cases heq
    exact hy
  | conditional branches =>
    obtain ⟨⟨b, i⟩, hb, heq⟩ := List.mem_filterMap.mp h
    obtain ⟨y, hy, heq⟩ := Option.map_eq_some_iff.mp heq
    cases heq
    exact List.mem_filterMap.mpr ⟨b, List.fst_mem_of_mem_zipIdx hb, hy⟩

theorem edge_target (h : parse lib config schema = .ok w) {s : Step} (hs : s ∈ w.steps)
    {e : Edge} (he : e ∈ s.edges) {x : StepId} (hx : e.target = .step x) :
    ∃ s', w.getStep x = some s' := by
  obtain ⟨node, hnode, hc⟩ := step_compiled h hs
  have hvalid := validate_nodes (parse_ok h).1 hnode
  rw [hc.edges, List.mem_append] at he
  obtain he | he := he
  · unfold returnEdges at he
    split_ifs at he
    · rw [List.mem_singleton.mp he] at hx
      cases hx
    · cases he
  · cases hthen : node.then_ with
    | none =>
      rw [hthen] at he
      cases he
    | some t =>
      obtain ⟨target, c, p⟩ := e
      cases hx
      rw [hthen] at he
      unfold validateNode at hvalid
      obtain ⟨⟨⟩, -, hvalid⟩ := bind_ok hvalid
      obtain ⟨⟨⟩, -, hvalid⟩ := bind_ok hvalid
      obtain ⟨⟨⟩, htargets, -⟩ := bind_ok hvalid
      rw [hthen] at htargets
      exact getStep_of_node h (checkTarget_ok (forM_ok htargets x (mem_thenEdges he)))

end Konf.Parser
