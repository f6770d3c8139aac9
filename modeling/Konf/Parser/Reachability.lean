import Mathlib.Data.List.Chain
import Konf.Parser.Acceptance

/-! # The validator's search is exact

The search for cycles and for nodes that are never reached, against the graph it walks. A search that
comes to an end has seen what can be reached from where it started (`dfs_covers`); one that fails has
walked a cycle (`dfs_error`); and because the nodes on its path are all different, the number of nodes
bounds its depth (`dfs_fuel`). -/

namespace Konf.Parser
open Konf.Substrate Konf.Fallible Konf.Search Relation
set_option autoImplicit false

variable {schema : WorkflowSchema} {entry : String}

/-- One node names another as `then`, `goto` or `catch` target. -/
def Leads (schema : WorkflowSchema) (x y : String) : Prop := y ∈ successorsOf schema x

/-- Every target names a node. -/
def TargetsExist (schema : WorkflowSchema) : Prop :=
  ∀ x y, Leads schema x y → y ∈ nodeNames schema

theorem targetsExist_of_nodes (h : ∀ x ∈ nodeNames schema, ∀ y ∈ successorsOf schema x,
    y ∈ nodeNames schema) : TargetsExist schema := by
  intro x y hy
  by_cases hx : x ∈ nodeNames schema
  · exact h x hx y hy
  · have hnone : schema.nodes.lookup x = none := AList.lookup_eq_none.mpr hx
    rw [Leads, successorsOf, hnone] at hy
    cases hy

theorem leads_transGen {x y : String} :
    TransGen (Leads schema) x y ↔ TransGen (Below (successorsOf schema)) y x := by
  rw [← transGen_swap]
  exact Iff.rfl

/-! ## What a finished search has seen -/

/-- Visited nodes are marked, marked nodes are reached from the entry, and a node that the search has
left has its successors visited. -/
structure DfsState.Covers (schema : WorkflowSchema) (entry : String) (st : DfsState) : Prop where
  marked : ∀ x ∈ st.visited, x ∈ st.reachable
  reached : ∀ x ∈ st.reachable, ReflTransGen (Leads schema) entry x
  closed : ∀ x ∈ st.visited, x ∉ st.path → ∀ y, Leads schema x y → y ∈ st.visited

theorem DfsState.Covers.enter {st : DfsState} {current : String} (h : st.Covers schema entry)
    (hcurrent : ReflTransGen (Leads schema) entry current) : (st.enter current).Covers schema entry := by
  refine ⟨?_, ?_, ?_⟩
  · intro x hx
    obtain rfl | hx := List.mem_cons.mp hx
    · exact List.mem_cons_self
    · exact List.mem_cons_of_mem _ (h.marked x hx)
  · intro x hx
    obtain rfl | hx := List.mem_cons.mp hx
    · exact hcurrent
    · exact h.reached x hx
  · intro x hx hpath y hy
    have hne : x ∉ st.path ∧ x ≠ current := by simpa [DfsState.enter] using hpath
    obtain rfl | hx := List.mem_cons.mp hx
    · exact absurd rfl hne.2
    · exact List.mem_cons_of_mem _ (h.closed x hx hne.1 y hy)

theorem DfsState.Covers.leave {st s : DfsState} {current : String} (hs : s.Covers schema entry)
    (h : (st.enter current).Passed (successorsOf schema current) s) :
    DfsState.Covers schema entry { s with path := s.path.dropLast } := by
  have hback : s.path.dropLast = st.path := by
    rw [h.path]
    exact List.dropLast_concat
  refine ⟨hs.marked, hs.reached, ?_⟩
  intro x hx hpath y hy
  change x ∉ s.path.dropLast at hpath
  rw [hback] at hpath
  by_cases hxc : x = current
  · exact (h.done y (hxc ▸ hy)).1
  · refine hs.closed x hx ?_ y hy
    rw [h.path]
    simp [DfsState.enter, hxc, hpath]

theorem fold_covers {visit : DfsState → String → Except ValidationError DfsState}
    {targets : List String}
    (hvisit : ∀ t ∈ targets, ∀ s s', s.Sound schema → s.Covers schema entry → visit s t = .ok s' →
      s'.Sound schema ∧ s'.Covers schema entry)
    (s s' : DfsState) (hs : s.Sound schema) (hc : s.Covers schema entry)
    (h : targets.foldlM visit s = .ok s') : s'.Covers schema entry := by
  induction targets generalizing s with
  | nil =>
    cases h
    exact hc
  | cons target rest ih =>
    rw [List.foldlM_cons] at h
    obtain ⟨s₁, hfirst, hrest⟩ := bind_ok h
    obtain ⟨hs₁, hc₁⟩ := hvisit target List.mem_cons_self s s₁ hs hc hfirst
    exact ih (fun t ht => hvisit t (List.mem_cons_of_mem _ ht)) s₁ hs₁ hc₁ hrest

theorem dfs_covers (fuel : ℕ) (current : String) (st st' : DfsState) (hsound : st.Sound schema)
    (hc : st.Covers schema entry) (hcurrent : ReflTransGen (Leads schema) entry current)
    (h : dfs schema fuel current st = .ok st') : st'.Covers schema entry := by
  induction fuel generalizing current st st' with
  | zero => cases h
  | succ fuel ih =>
    obtain ⟨-, ⟨hvisited, rfl⟩ | ⟨s, hfold, rfl⟩⟩ := dfs_succ_ok h
    · refine ⟨fun x hx => List.mem_cons_of_mem _ (hc.marked x hx), ?_, hc.closed⟩
      intro x hx
      obtain rfl | hx := List.mem_cons.mp hx
      · exact hcurrent
      · exact hc.reached x hx
    · obtain ⟨-, hpassed⟩ := fold_passed (fun t s s' => dfs_passed fuel t s s') _ _ _
        (hsound.enter current) hfold
      refine DfsState.Covers.leave ?_ hpassed
      refine fold_covers ?_ _ _ (hsound.enter current) (hc.enter hcurrent) hfold
      intro t ht s s' hs hcs hok
      exact ⟨(dfs_passed fuel t s s' hs hok).1, ih t s s' hs hcs (hcurrent.tail ht) hok⟩

def DfsState.start : DfsState := ⟨[], [], []⟩

theorem DfsState.start_sound : DfsState.start.Sound schema := by
  intro x hx
  cases hx

theorem DfsState.start_covers : DfsState.start.Covers schema entry := by
  constructor
  all_goals
    intro x hx
    cases hx

/-- A search from the entry that succeeds has marked what can be reached, and nothing in it lies on a
cycle. -/
theorem dfs_entry {fuel : ℕ} {st : DfsState} (h : dfs schema fuel entry .start = .ok st) (x : String) :
    (x ∈ st.reachable ↔ ReflTransGen (Leads schema) entry x) ∧
      (x ∈ st.reachable → ¬TransGen (Leads schema) x x) := by
  obtain ⟨hsound, hpassed⟩ := dfs_passed fuel entry _ st DfsState.start_sound h
  have hcovers := dfs_covers fuel entry _ st DfsState.start_sound DfsState.start_covers .refl h
  have hout : ∀ y, y ∉ st.path := by
    intro y
    rw [hpassed.path]
    exact List.not_mem_nil
  refine ⟨⟨hcovers.reached x, ?_⟩, ?_⟩
  · intro hreach
    refine hcovers.marked x ?_
    induction hreach with
    | refl => exact (hpassed.done entry (List.mem_singleton_self _)).1
    | tail _ hstep ih => exact hcovers.closed _ ih (hout _) _ hstep
  · intro hx
    obtain hx | hx := hpassed.reachable x hx
    · cases hx
    · rw [leads_transGen]
      exact not_self_of_acc (hsound x hx (hout x))

/-! ## Where a search fails -/

/-- The nodes that the search stands below are different nodes, each named by the one before it. -/
structure Trail (schema : WorkflowSchema) (path : List String) (current : String) : Prop where
  nodup : path.Nodup
  inside : ∀ x ∈ path, x ∈ nodeNames schema
  chain : (path ++ [current]).IsChain (Leads schema)
  current : current ∈ nodeNames schema

/-- A walk that ends with a cycle: its last node stands in it before. -/
def EndsInCycle (schema : WorkflowSchema) (path : List String) : Prop :=
  path.IsChain (Leads schema) ∧ ∃ before node between, path = before ++ node :: between ++ [node]

theorem EndsInCycle.cycle {path : List String} (h : EndsInCycle schema path) :
    ∃ x, TransGen (Leads schema) x x := by
  obtain ⟨hchain, before, node, between, rfl⟩ := h
  have hcycle : (node :: (between ++ [node])).IsChain (Leads schema) :=
    hchain.suffix ⟨before, by simp⟩
  obtain ⟨first, rest, hrest⟩ := List.exists_cons_of_ne_nil (l := between ++ [node]) (by simp)
  rw [hrest] at hcycle
  have hback : ReflTransGen (Leads schema) first node := by
    refine List.relationReflTransGen_of_exists_isChain_cons rest hcycle.tail ?_
    simp only [← hrest, List.getLast_append_singleton]
  exact ⟨node, .head' hcycle.rel hback⟩

section Trails
variable {path : List String} {current : String}

theorem Trail.length_lt (h : Trail schema path current) (hnew : current ∉ path) :
    path.length < (nodeNames schema).length := by
  have hnodup : (current :: path).Nodup := List.nodup_cons.mpr ⟨hnew, h.nodup⟩
  have hsub : current :: path ⊆ nodeNames schema := by
    intro x hx
    obtain rfl | hx := List.mem_cons.mp hx
    · exact h.current
    · exact h.inside x hx
  exact (hnodup.subperm hsub).length_le

theorem Trail.endsInCycle (h : Trail schema path current) (hold : current ∈ path) :
    EndsInCycle schema (path ++ [current]) := by
  obtain ⟨before, between, hsplit⟩ := List.append_of_mem hold
  exact ⟨h.chain, before, current, between, by rw [hsplit]⟩

theorem Trail.enter (hexist : TargetsExist schema) (h : Trail schema path current)
    (hnew : current ∉ path) {target : String} (ht : Leads schema current target) :
    Trail schema (path ++ [current]) target := by
  refine ⟨?_, ?_, ?_, hexist _ _ ht⟩
  · rw [← List.concat_eq_append]
    exact h.nodup.concat hnew
  · intro x hx
    obtain hx | hx := List.mem_append.mp hx
    · exact h.inside x hx
    · rw [List.mem_singleton.mp hx]
      exact h.current
  · refine List.isChain_append.mpr ⟨h.chain, List.isChain_singleton _, ?_⟩
    intro x hx y hy
    obtain rfl : current = x := by simpa using hx
    obtain rfl : target = y := by simpa using hy
    exact ht

end Trails

theorem dfs_succ (fuel : ℕ) (current : String) (st : DfsState) :
    dfs schema (fuel + 1) current st =
      if current ∈ st.path then .error (.cycleDetected (st.path ++ [current]))
      else if current ∈ st.visited then .ok { st with reachable := current :: st.reachable }
      else ((successorsOf schema current).foldlM (fun st target => dfs schema fuel target st)
        (st.enter current)).map fun st => { st with path := st.path.dropLast } := rfl

section Folds
variable {visit visit' : DfsState → String → Except ValidationError DfsState}

/-- A loop that fails does so at one of its targets, with the path as it was at the start. -/
theorem fold_error {e : ValidationError}
    (hvisit : ∀ t s s', s.Sound schema → visit s t = .ok s' → s'.Sound schema ∧ s.Passed [t] s')
    {targets : List String} {s : DfsState} (hs : s.Sound schema)
    (h : targets.foldlM visit s = .error e) :
    ∃ t ∈ targets, ∃ s', s'.Sound schema ∧ s'.path = s.path ∧ visit s' t = .error e := by
  induction targets generalizing s with
  | nil => cases h
  | cons target rest ih =>
    rw [List.foldlM_cons] at h
    cases hfirst : visit s target with
    | error e' =>
      rw [hfirst] at h
      cases h
      exact ⟨target, List.mem_cons_self, s, hs, rfl, hfirst⟩
    | ok s₁ =>
      rw [hfirst] at h
      obtain ⟨hs₁, hpassed⟩ := hvisit target s s₁ hs hfirst
      obtain ⟨t, ht, s', hs', hpath, herr⟩ := ih hs₁ h
      exact ⟨t, List.mem_cons_of_mem _ ht, s', hs', hpath.trans hpassed.path, herr⟩

theorem fold_congr
    (hvisit : ∀ t s s', s.Sound schema → visit s t = .ok s' → s'.Sound schema ∧ s.Passed [t] s')
    {targets : List String} {s : DfsState} (hs : s.Sound schema)
    (hsame : ∀ t ∈ targets, ∀ s', s'.Sound schema → s'.path = s.path → visit s' t = visit' s' t) :
    targets.foldlM visit s = targets.foldlM visit' s := by
  induction targets generalizing s with
  | nil => rfl
  | cons target rest ih =>
    rw [List.foldlM_cons, List.foldlM_cons, ← hsame target List.mem_cons_self s hs rfl]
    cases hfirst : visit s target with
    | error e => rfl
    | ok s₁ =>
      obtain ⟨hs₁, hpassed⟩ := hvisit target s s₁ hs hfirst
      refine ih hs₁ ?_
      intro t ht s' hs' hpath
      exact hsame t (List.mem_cons_of_mem _ ht) s' hs' (hpath.trans hpassed.path)

end Folds

theorem dfs_error (hexist : TargetsExist schema) (fuel : ℕ) (current : String) (st : DfsState)
    (hsound : st.Sound schema) (htrail : Trail schema st.path current)
    (hfuel : (nodeNames schema).length < fuel + st.path.length) {e : ValidationError}
    (h : dfs schema fuel current st = .error e) :
    ∃ path, e = .cycleDetected path ∧ EndsInCycle schema path := by
  induction fuel generalizing current st with
  | zero =>
    by_cases hpath : current ∈ st.path
    · cases h
      exact ⟨_, rfl, htrail.endsInCycle hpath⟩
    · have := htrail.length_lt hpath
      omega
  | succ fuel ih =>
    rw [dfs_succ] at h
    split_ifs at h with hpath hvisited
    · cases h
      exact ⟨_, rfl, htrail.endsInCycle hpath⟩
    · cases hfold : (successorsOf schema current).foldlM
          (fun st target => dfs schema fuel target st) (st.enter current) with
      | ok s =>
        rw [hfold] at h
        cases h
      | error e' =>
        rw [hfold] at h
        cases h
        obtain ⟨t, ht, s, hs, hspath, herr⟩ := fold_error (fun t s s' => dfs_passed fuel t s s')
          (hsound.enter current) hfold
        have hpath' : s.path = st.path ++ [current] := hspath
        refine ih t s hs ?_ ?_ herr
        · rw [hpath']
          exact htrail.enter hexist hpath ht
        · rw [hpath', List.length_append, List.length_singleton]
          omega

/-- A bound beyond the number of nodes is never reached: a larger one makes no difference. -/
theorem dfs_fuel (hexist : TargetsExist schema) (fuel : ℕ) (current : String) (st : DfsState)
    (hsound : st.Sound schema) (htrail : Trail schema st.path current)
    (hfuel : (nodeNames schema).length < fuel + st.path.length) :
    dfs schema fuel current st = dfs schema (fuel + 1) current st := by
  induction fuel generalizing current st with
  | zero =>
    have hpath : current ∈ st.path := by
      by_contra hpath
      have := htrail.length_lt hpath
      omega
    rw [dfs_succ, if_pos hpath, dfs]
  | succ fuel ih =>
    rw [dfs_succ, dfs_succ]
    split_ifs with hpath hvisited
    · rfl
    · rfl
    · congr 1
      refine fold_congr (fun t s s' => dfs_passed fuel t s s') (hsound.enter current) ?_
      intro t ht s hs hspath
      have hpath' : s.path = st.path ++ [current] := hspath
      refine ih t s hs ?_ ?_
      · rw [hpath']
        exact htrail.enter hexist hpath ht
      · rw [hpath', List.length_append, List.length_singleton]
        omega

/-! ## The check as a whole -/

theorem start_trail (hentry : entry ∈ nodeNames schema) : Trail schema DfsState.start.path entry :=
  ⟨List.nodup_nil, fun _ hx => (List.not_mem_nil hx).elim, List.isChain_singleton _, hentry⟩

theorem dfs_fuel_entry (hexist : TargetsExist schema) (hentry : entry ∈ nodeNames schema) {fuel : ℕ}
    (hfuel : (nodeNames schema).length < fuel) :
    dfs schema fuel entry .start = dfs schema ((nodeNames schema).length + 1) entry .start := by
  induction fuel, hfuel using Nat.le_induction with
  | base => rfl
  | succ fuel hle ih =>
    rw [← ih]
    exact (dfs_fuel hexist fuel entry .start DfsState.start_sound (start_trail hentry) (by omega)).symm

/-- The answers the check can give: the search met a cycle, or it ended and then a node it did not
reach is named, if there is one. -/
theorem check_cases (hexist : TargetsExist schema) (hentry : entry ∈ nodeNames schema) :
    (∃ path, checkReachabilityAndCycles schema entry = .error (.cycleDetected path) ∧
      EndsInCycle schema path) ∨
    ∃ st, dfs schema ((nodeNames schema).length + 1) entry .start = .ok st ∧
      ((∃ node ∈ nodeNames schema, node ∉ st.reachable ∧
          checkReachabilityAndCycles schema entry = .error (.orphanedNode node)) ∨
        (∀ name ∈ nodeNames schema, name ∈ st.reachable) ∧
          checkReachabilityAndCycles schema entry = .ok ()) := by
  cases hdfs : dfs schema ((nodeNames schema).length + 1) entry .start with
  | error e =>
    obtain ⟨path, rfl, hcycle⟩ := dfs_error hexist _ entry .start DfsState.start_sound
      (start_trail hentry) (by omega) hdfs
    refine .inl ⟨path, ?_, hcycle⟩
    unfold checkReachabilityAndCycles
    change (dfs schema _ entry .start >>= _) = _
    rw [hdfs]
    rfl
  | ok st =>
    refine .inr ⟨st, rfl, ?_⟩
    unfold DfsState.start at hdfs
    unfold checkReachabilityAndCycles
    simp only [hdfs, bind, Except.bind]
    cases hfind : (nodeNames schema).find? (fun name => name ∉ st.reachable) with
    | some node =>
      refine .inl ⟨node, List.mem_of_find?_eq_some hfind, ?_, rfl⟩
      simpa using List.find?_some hfind
    | none =>
      refine .inr ⟨?_, rfl⟩
      intro name hname
      simpa using List.find?_eq_none.mp hfind name hname

/-- The check ends, at a depth that the number of nodes bounds. It passes exactly when every node is
reached from the entry and no node lies on a cycle; a cycle it reports is one, and so is a node that
is not reached, whichever of the unmarked nodes it names. -/
theorem checkReachabilityAndCycles_exact (schema : WorkflowSchema) (entry : String)
    (hexist : TargetsExist schema) (hentry : entry ∈ nodeNames schema) :
    (∀ fuel, (nodeNames schema).length < fuel →
      dfs schema fuel entry .start = dfs schema ((nodeNames schema).length + 1) entry .start) ∧
    (checkReachabilityAndCycles schema entry = .ok () ↔
      (∀ name ∈ nodeNames schema, ReflTransGen (Leads schema) entry name) ∧
        ∀ name ∈ nodeNames schema, ¬TransGen (Leads schema) name name) ∧
    (∀ path, checkReachabilityAndCycles schema entry = .error (.cycleDetected path) →
      EndsInCycle schema path) ∧
    (∀ node, checkReachabilityAndCycles schema entry = .error (.orphanedNode node) →
      ¬ReflTransGen (Leads schema) entry node) ∧
    ∀ fuel st, dfs schema fuel entry .start = .ok st →
      ∀ name, name ∉ st.reachable ↔ ¬ReflTransGen (Leads schema) entry name := by
  refine ⟨fun fuel => dfs_fuel_entry hexist hentry, ?_, ?_, ?_, ?_⟩
  · obtain ⟨path, hcheck, hcycle⟩ | ⟨st, hdfs, ⟨node, hnode, hout, hcheck⟩ | ⟨hall, hcheck⟩⟩ :=
      check_cases hexist hentry
    · rw [hcheck]
      refine ⟨nofun, ?_⟩
      rintro ⟨-, hacyclic⟩
      obtain ⟨x, hx⟩ := hcycle.cycle
      -- a node on a cycle is named by another one, so it is a node of the schema
      have hmem : x ∈ nodeNames schema := by
        obtain ⟨y, -, hy⟩ := TransGen.tail'_iff.mp hx
        exact hexist _ _ hy
      exact absurd hx (hacyclic x hmem)
    · rw [hcheck]
      refine ⟨nofun, ?_⟩
      rintro ⟨hreach, -⟩
      exact absurd ((dfs_entry hdfs node).1.mpr (hreach node hnode)) hout
    · refine ⟨fun _ => ⟨?_, ?_⟩, fun _ => hcheck⟩
      · intro name hname
        exact (dfs_entry hdfs name).1.mp (hall name hname)
      · intro name hname
        exact (dfs_entry hdfs name).2 (hall name hname)
  · intro path h
    obtain ⟨path', hcheck, hcycle⟩ | ⟨st, -, ⟨node, -, -, hcheck⟩ | ⟨-, hcheck⟩⟩ :=
      check_cases hexist hentry
    · rw [hcheck] at h
      cases h
      exact hcycle
    · rw [hcheck] at h
      cases h
    · rw [hcheck] at h
      cases h
  · intro node h
    obtain ⟨path', hcheck, -⟩ | ⟨st, hdfs, ⟨node', -, hout, hcheck⟩ | ⟨-, hcheck⟩⟩ :=
      check_cases hexist hentry
    · rw [hcheck] at h
      cases h
    · rw [hcheck] at h
      cases h
      rw [← (dfs_entry hdfs node).1]
      exact hout
    · rw [hcheck] at h
      cases h
  · intro fuel st hdfs name
    exact not_congr (dfs_entry hdfs name).1

theorem fallback_reaches_answer :
    ReflTransGen (Leads fallbackSchema) "search" "answer" ∧
      ¬TransGen (Leads fallbackSchema) "answer" "answer" := by
  have hexist : TargetsExist fallbackSchema := targetsExist_of_nodes (by decide +kernel)
  have hexact := checkReachabilityAndCycles_exact fallbackSchema "search" hexist (by decide +kernel)
  obtain ⟨hreach, hacyclic⟩ := hexact.2.1.mp (by rfl)
  exact ⟨hreach "answer" (by decide +kernel), hacyclic "answer" (by decide +kernel)⟩

end Konf.Parser
