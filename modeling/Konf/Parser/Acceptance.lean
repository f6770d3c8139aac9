import Konf.Parser.Compiled
import Konf.Substrate.Validate

/-! # What the parser accepts can be run

The validator searches the graph of `then`, `goto` and `catch` targets, the compiler derives edges and
error actions from the same blocks, and `Workflow::validate` searches the graph of the edges. Every
edge and every `goto` of a compiled step is a successor that the validator has searched, so a schema
that passes the first search compiles to a workflow that passes the second. -/

namespace Konf.Parser
open Konf.Substrate Konf.Fallible Konf.Search
set_option autoImplicit false

variable {lib : Externals} {config : EngineConfig} {schema : WorkflowSchema} {w : Workflow}

/-! ## The validator's search -/

/-- The graph that the validator searches. -/
def successorsOf (schema : WorkflowSchema) (name : String) : List String :=
  ((schema.nodes.lookup name).map NodeSchema.successors).getD []

/-- The nodes that the search has left behind have no endless descent. -/
def DfsState.Sound (schema : WorkflowSchema) (st : DfsState) : Prop :=
  ∀ x ∈ st.visited, x ∉ st.path → Acc (Below (successorsOf schema)) x

/-- What a search that succeeds does: it comes back to where it was, with its targets behind it. -/
structure DfsState.Passed (targets : List String) (st st' : DfsState) : Prop where
  path : st'.path = st.path
  visited : ∀ x ∈ st.visited, x ∈ st'.visited
  reachable : ∀ x ∈ st'.reachable, x ∈ st.reachable ∨ x ∈ st'.visited
  done : ∀ t ∈ targets, t ∈ st'.visited ∧ t ∉ st.path

theorem DfsState.Passed.append {ts us : List String} {s t u : DfsState} (h : s.Passed ts t)
    (h' : t.Passed us u) : s.Passed (ts ++ us) u := by
  refine ⟨h'.path.trans h.path, fun x hx => h'.visited x (h.visited x hx), ?_, ?_⟩
  · intro x hx
    cases h'.reachable x hx with
    | inl hx => exact (h.reachable x hx).imp_right (h'.visited x)
    | inr hx => exact .inr hx
  · intro x hx
    cases List.mem_append.mp hx with
    | inl hx => exact ⟨h'.visited x (h.done x hx).1, (h.done x hx).2⟩
    | inr hx => exact h.path ▸ h'.done x hx

/-- The targets one after another, each of them behind the search when the next one begins. -/
theorem fold_passed {visit : DfsState → String → Except ValidationError DfsState}
    (hvisit : ∀ t s s', s.Sound schema → visit s t = .ok s' → s'.Sound schema ∧ s.Passed [t] s')
    (targets : List String) (s s' : DfsState) (hs : s.Sound schema)
    (h : targets.foldlM visit s = .ok s') : s'.Sound schema ∧ s.Passed targets s' := by
  induction targets generalizing s with
  | nil =>
    cases h
    exact ⟨hs, rfl, fun _ hx => hx, fun _ hx => .inl hx, by simp⟩
  | cons target rest ih =>
    rw [List.foldlM_cons] at h
    obtain ⟨s₁, hfirst, hrest⟩ := bind_ok h
    obtain ⟨hs₁, hpassed⟩ := hvisit target s s₁ hs hfirst
    obtain ⟨hs', hpassed'⟩ := ih s₁ hs₁ hrest
    exact ⟨hs', hpassed.append hpassed'⟩

def DfsState.enter (st : DfsState) (current : String) : DfsState where
  visited := current :: st.visited
  path := st.path ++ [current]
  reachable := current :: st.reachable

theorem dfs_succ_ok {fuel : ℕ} {current : String} {st st' : DfsState}
    (h : dfs schema (fuel + 1) current st = .ok st') :
    current ∉ st.path ∧
      ((current ∈ st.visited ∧ st' = { st with reachable := current :: st.reachable }) ∨
        ∃ s, (successorsOf schema current).foldlM (fun st target => dfs schema fuel target st)
            (st.enter current) = .ok s ∧ st' = { s with path := s.path.dropLast }) := by
  rw [dfs] at h
  split_ifs at h with hpath hvisited
  · cases h
    exact ⟨hpath, .inl ⟨hvisited, rfl⟩⟩
  · refine ⟨hpath, .inr ?_⟩
    change Except.map _ ((successorsOf schema current).foldlM
      (fun st target => dfs schema fuel target st) (st.enter current)) = .ok st' at h
    cases hfold : (successorsOf schema current).foldlM
        (fun st target => dfs schema fuel target st) (st.enter current) with
    | error e =>
      rw [hfold] at h
      cases h
    | ok s =>
      rw [hfold] at h
      cases h
      exact ⟨s, rfl, rfl⟩

theorem DfsState.Sound.enter {st : DfsState} (h : st.Sound schema) (current : String) :
    (st.enter current).Sound schema := by
  intro x hx hxpath
  have hne : x ∉ st.path ∧ x ≠ current := by simpa [DfsState.enter] using hxpath
  cases List.mem_cons.mp hx with
  | inl hx => exact absurd hx hne.2
  | inr hx => exact h x hx hne.1

theorem DfsState.Passed.leave {st s : DfsState} {current : String} (hs : s.Sound schema)
    (h : (st.enter current).Passed (successorsOf schema current) s) (hpath : current ∉ st.path) :
    DfsState.Sound schema { s with path := s.path.dropLast } ∧
      st.Passed [current] { s with path := s.path.dropLast } := by
  have hback : s.path.dropLast = st.path := by
    rw [h.path]
    exact List.dropLast_concat
  have hdone : Acc (Below (successorsOf schema)) current := by
    refine Acc.intro current ?_
    intro y hy
    obtain ⟨hyvisited, hypath⟩ := h.done y hy
    exact hs y hyvisited (h.path ▸ hypath)
  have hcurrent := h.visited current (List.mem_cons_self ..)
  refine ⟨?_, hback, fun x hx => h.visited x (List.mem_cons_of_mem _ hx), ?_, ?_⟩
  · intro x hx hxpath
    change x ∉ s.path.dropLast at hxpath
    rw [hback] at hxpath
    by_cases hxc : x = current
    · rw [hxc]
      exact hdone
    · refine hs x hx ?_
      rw [h.path]
      simp [DfsState.enter, hxc, hxpath]
  · intro x hx
    cases h.reachable x hx with
    | inr hx => exact .inr hx
    | inl hx =>
      cases List.mem_cons.mp hx with
      | inl hx => exact .inr (hx ▸ hcurrent)
      | inr hx => exact .inl hx
  · intro t ht
    rw [List.mem_singleton.mp ht]
    exact ⟨hcurrent, hpath⟩

theorem dfs_passed (fuel : ℕ) (current : String) (st st' : DfsState) (hsound : st.Sound schema)
    (h : dfs schema fuel current st = .ok st') : st'.Sound schema ∧ st.Passed [current] st' := by
  induction fuel generalizing current st st' with
  | zero => cases h
  | succ fuel ih =>
    obtain ⟨hpath, hcases⟩ := dfs_succ_ok h
    cases hcases with
    | inl hbehind =>
      obtain ⟨hvisited, rfl⟩ := hbehind
      refine ⟨hsound, rfl, fun _ hx => hx, ?_, by simp [hvisited, hpath]⟩
      intro x hx
      cases List.mem_cons.mp hx with
      | inl hx => exact .inr (hx ▸ hvisited)
      | inr hx => exact .inl hx
    | inr hentered =>
      obtain ⟨s, hfold, rfl⟩ := hentered
      obtain ⟨hs, hpassed⟩ := fold_passed (fun t s s' => ih t s s') _ _ _ (hsound.enter current) hfold
      exact hpassed.leave hs hpath

theorem validate_acc (h : validate schema = .ok ()) {name : String} (hname : name ∈ nodeNames schema) :
    Acc (Below (successorsOf schema)) name := by
  unfold validate at h
  split at h
  · cases h
  · obtain ⟨⟨⟩, -, h⟩ := bind_ok h
    obtain ⟨⟨⟩, hsearch, -⟩ := bind_ok h
    unfold checkReachabilityAndCycles at hsearch
    obtain ⟨st, hdfs, hfound⟩ := bind_ok hsearch
    obtain ⟨hsound, hpassed⟩ := dfs_passed _ _ _ _ (by intro x hx; cases hx) hdfs
    have hreachable : name ∈ st.reachable := by
      split at hfound
      · cases hfound
      · rename_i hnone
        simpa using List.find?_eq_none.mp hnone name hname
    have hvisited : name ∈ st.visited := by
      cases hpassed.reachable name hreachable with
      | inl hold => cases hold
      | inr hvisited => exact hvisited
    refine hsound name hvisited ?_
    rw [hpassed.path]
    exact List.not_mem_nil

theorem validate_return (h : validate schema = .ok ()) :
    ∃ name node, schema.nodes.lookup name = some node ∧ node.return_.isSome = true := by
  unfold validate at h
  split at h
  · cases h
  · obtain ⟨⟨⟩, -, h⟩ := bind_ok h
    obtain ⟨⟨⟩, -, hterminals⟩ := bind_ok h
    unfold checkTerminals at hterminals
    split_ifs at hterminals with hany
    obtain ⟨e, he, hreturn⟩ := List.any_eq_true.mp hany
    exact ⟨e.1, e.2, AList.mem_lookup_iff.mpr he, hreturn⟩

/-! ## The compiled graph -/

theorem parse_of_validate (hv : validate schema = .ok ()) (hc : compile lib config schema = .ok w) :
    parse lib config schema = .ok w := by
  unfold parse
  rw [hv, hc]

theorem step_ids (h : parse lib config schema = .ok w) : w.steps.map Step.id = nodeNames schema := by
  obtain ⟨hall, -⟩ := compile_ok (parse_ok h).2
  unfold nodeNames AList.keys List.keys
  generalize schema.nodes.entries = entries at hall ⊢
  generalize w.steps = steps at hall ⊢
  induction hall with
  | nil => rfl
  | cons hcompile _ ih => rw [List.map_cons, List.map_cons, ih, (compileNode_ok hcompile).id]

section Steps
variable {name : String} {node : NodeSchema} {s : Step}

theorem CompiledFrom.targets (h : CompiledFrom schema name node s) {x : StepId}
    (hx : x ∈ s.targets) : x ∈ node.successors := by
  obtain ⟨e, he, htarget⟩ := Step.mem_targets.mp hx
  rw [h.edges, List.mem_append] at he
  refine List.mem_append_left _ ?_
  cases he with
  | inl hreturn =>
    unfold returnEdges at hreturn
    split_ifs at hreturn
    · rw [List.mem_singleton.mp hreturn] at htarget
      cases htarget
    · cases hreturn
  | inr hthen =>
    cases hblock : node.then_ with
    | none =>
      rw [hblock] at hthen
      cases hthen
    | some t =>
      rw [hblock] at hthen
      obtain ⟨target, c, p⟩ := e
      cases htarget
      exact mem_thenEdges hthen

theorem catchAction_goto {block : CatchBlock} {x : StepId} (h : catchAction block = .goto x) :
    x ∈ block.targets := by
  cases block with
  | simple target =>
    cases h
    exact List.mem_singleton_self _
  | branches bs =>
    unfold catchAction at h
    simp only at h
    cases hfind : bs.find? CatchBranchSchema.isMatch with
    | none =>
      rw [hfind] at h
      cases h
    | some b =>
      rw [hfind] at h
      simp only at h
      cases hthen : b.then_ with
      | some target =>
        simp only [hthen] at h
        cases h
        exact List.mem_filterMap.mpr ⟨b, List.mem_of_find?_eq_some hfind, hthen⟩
      | none =>
        -- without a target there is no `goto`
        cases hdo : b.do_ with
        | none =>
          simp only [hthen, hdo] at h
          cases h
        | some do_ =>
          simp only [hthen, hdo] at h
          split_ifs at h
          split at h <;> cases h

theorem successorsOf_eq (hnode : schema.nodes.lookup name = some node) :
    successorsOf schema name = node.successors := by
  rw [successorsOf, hnode]
  rfl

theorem mem_dependenciesOf {x : StepId} (h : x ∈ dependenciesOf schema name node) :
    x ∈ nodeNames schema := by
  unfold dependenciesOf at h
  split at h
  · have hx := (List.mem_filter.mp (List.mem_dedup.mp h)).2
    exact (of_decide_eq_true hx).1
  · cases h

end Steps

/-- The edges of the compiled workflow lie in the graph that the validator has searched. -/
theorem adjacency_below (h : parse lib config schema = .ok w) {x y : StepId}
    (hy : Below w.adjacency y x) : Below (successorsOf schema) y x := by
  obtain ⟨s, hs, rfl, htarget⟩ := Workflow.mem_adjacency hy
  obtain ⟨node, hnode, hc⟩ := step_compiled h hs
  rw [Below, successorsOf_eq hnode]
  exact hc.targets htarget

theorem validate_compiled (h : parse lib config schema = .ok w) : w.validate = .ok () := by
  obtain ⟨hv, -⟩ := parse_ok h
  refine Workflow.validate_ok (entry_step h) ?_ ?_ ?_ ?_
  · intro s hs x hx
    obtain ⟨e, he, htarget⟩ := Step.mem_targets.mp hx
    exact edge_target h hs he htarget
  · intro s hs x hx
    obtain ⟨node, -, hc⟩ := step_compiled h hs
    rw [hc.dependsOn] at hx
    exact getStep_of_node h (mem_dependenciesOf hx)
  · obtain ⟨name, node, hnode, hreturn⟩ := validate_return hv
    have hname : name ∈ nodeNames schema := AList.lookup_isSome.mp (by rw [hnode]; rfl)
    obtain ⟨s, hs⟩ := getStep_of_node h hname
    obtain ⟨node', hnode', hc⟩ := step_compiled h (Workflow.getStep_mem hs)
    rw [Workflow.getStep_id hs, hnode] at hnode'
    cases hnode'
    refine ⟨s, Workflow.getStep_mem hs, ⟨.ret, none, 0⟩, ?_, rfl⟩
    rw [hc.edges, returnEdges, if_pos hreturn]
    exact List.mem_append_left _ (List.mem_singleton_self _)
  · intro s hs
    have hname : s.id ∈ nodeNames schema := by
      rw [← step_ids h]
      exact List.mem_map_of_mem hs
    exact Subrelation.accessible (adjacency_below h) (validate_acc hv hname)

/-- What the validator accepts and the compiler turns into a workflow is valid for the executor: step
ids are unique, and every edge and every `goto` leads to a successor that the validator has
searched. -/
theorem accepted_workflow_runs (lib : Externals) (config : EngineConfig) (schema : WorkflowSchema)
    (w : Workflow) (hv : validate schema = .ok ()) (hc : compile lib config schema = .ok w) :
    w.validate = .ok () ∧ (w.steps.map Step.id).Nodup ∧
      ∀ s ∈ w.steps, ∃ node, schema.nodes.lookup s.id = some node ∧
        (∀ e ∈ s.edges, ∀ x, e.target = .step x → x ∈ node.successors) ∧
        ∀ x, s.onError = .goto x → x ∈ node.successors := by
  have h := parse_of_validate hv hc
  refine ⟨validate_compiled h, ?_, ?_⟩
  · rw [step_ids h]
    exact schema.nodes.keys_nodup
  · intro s hs
    obtain ⟨node, hnode, hcompiled⟩ := step_compiled h hs
    refine ⟨node, hnode, ?_, ?_⟩
    · intro e he x htarget
      exact hcompiled.targets (Step.mem_targets.mpr ⟨e, he, htarget⟩)
    · intro x hgoto
      rw [hcompiled.onError] at hgoto
      exact List.mem_append_right _ (catchAction_goto hgoto)

/-- A search whose result is answered, or else, and also when the search fails, asked for. -/
def fallbackSchema : WorkflowSchema where
  workflow := "fallback"
  nodes := StrMap.ofList
    [("search", { do_ := some (.single "memory:search")
                  then_ := some (.conditional
                    [⟨some "found", none, some "answer", none⟩, ⟨none, some "ask", none, some true⟩])
                  catch_ := .branches [⟨none, none, none, some "ask", none⟩] }),
      ("ask", { do_ := some (.single "ai:complete"), then_ := some (.unconditional "answer") }),
      ("answer", { return_ := some (.str "done") })]
    (by decide)

def asciiExternals : Externals where
  isAlphanumeric := Char.isAlphanum
  render := fun s _ => .ok s
  parseUuid := fun _ => none
  formatUuid := fun _ => ""

theorem fallback_runs : ∃ w, validate fallbackSchema = .ok () ∧
    compile asciiExternals EngineConfig.default fallbackSchema = .ok w ∧ w.validate = .ok () ∧
      ∃ s ∈ w.steps, s.onError = .goto "ask" := by
  have hv : validate fallbackSchema = .ok () := by rfl
  refine ⟨_, hv, rfl, ?_, _, List.mem_cons_self, rfl⟩
  exact (accepted_workflow_runs asciiExternals EngineConfig.default fallbackSchema _ hv rfl).1

end Konf.Parser
