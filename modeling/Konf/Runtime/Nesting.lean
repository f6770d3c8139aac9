import Konf.Runtime.Authority

/-! # Nested runs

The process table together with the work that descends from runs started under one root scope. A
lineage is the chain of run ids from a root run down to a piece of work. `validate_start` and the
insertion of the run are two steps, since nothing locks the table between them.

The depth of a run is lost on the way to a nested one: a step's envelope has empty metadata, and both
`from_envelope` and `runner:spawn` then start from depth zero and the default limits. What still
stops a chain is the default limit of active runs per namespace, so the bound that holds is that
number, whatever `max_child_depth` the root scope sets. -/

namespace Konf.Runtime
open Konf.Substrate Konf.Executor Konf.Text Konf.Transition Konf.Fallible
set_option autoImplicit false

/-! ## Namespaces -/

def Activity.inNamespace : Activity → String
  | .running scope _ _ => scope.namespace_
  | .dispatched _ env | .invoked _ env | .replied env => env.namespace_
  | .spawning spec => spec.parentScope.namespace_
  | .intent i => i.namespace_
  | .timer r => r.namespace_

theorem metadata_namespace (sys : System) (scope : ExecutionScope) (ctx : ExecutionContext)
    (wf : Workflow) : (sys.stepContext scope ctx wf).metadataStr "namespace" "unknown" =
      scope.namespace_ := rfl

/-- Work stays in the namespace it was started in. -/
theorem Handoff.namespace_eq {sys : System} {table : ProcessTable} {a b : Activity}
    (h : Handoff sys table a b) : b.inNamespace = a.inNamespace := by
  cases h with
  | @step scope ctx wf s t seen fresh tool env _ _ _ _ hd =>
    obtain ⟨-, -, inputs, capabilities, -, rfl⟩ := dispatch_ok hd
    exact metadata_namespace sys scope ctx wf
  | deliver h =>
    obtain ⟨-, p, rfl⟩ := Tool.deliver_ok h
    rfl
  | @nest wf env child hchild _ =>
    rw [childScope_self] at hchild
    cases hchild
    rfl
  | @spawn env spec h =>
    change spec.parentScope.namespace_ = env.namespace_
    rw [spawnSpec_ok h]
    rfl
  | schedule h => exact (scheduleRecord_ok h).2.1
  | persist | recount | launch | replay | fire | bridge | reply => rfl

/-- A nested run is admitted only while fewer runs than the default limit are active. -/
theorem Handoff.nested_admission {sys : System} {table : ProcessTable} {a : Activity}
    {child : ExecutionScope} {ctx : ExecutionContext} {wf : Workflow}
    (h : Handoff sys table a (.running child ctx wf)) :
    table.activeCountInNamespace child.namespace_ <
      ResourceLimits.default.maxActiveRunsPerNamespace := by
  cases h with
  | nest hchild hstart =>
    rw [childScope_self] at hchild
    cases hchild
    unfold ExecutionScope.validateStart at hstart
    split_ifs at hstart with hfull
    exact Nat.lt_of_not_le hfull

/-! ## The world -/

/-- A nested run that `validate_start` has let through and that is not in the table yet. -/
structure Admission where
  lineage : List RunId
  scope : ExecutionScope
  ctx : ExecutionContext
  wf : Workflow

structure World where
  table : ProcessTable
  live : List (List RunId × Activity)
  admitted : List Admission

def World.empty : World := ⟨∅, [], []⟩

def newRun (id : RunId) (scope : ExecutionScope) (wf : Workflow) : WorkflowRun where
  id := id
  workflowId := wf.id
  namespace_ := scope.namespace_
  actor := scope.actor
  capabilities := scope.capabilityPatterns
  status := .running

inductive Progress
  | request
  | register (id : RunId)
  | hop
  | finish (id : RunId)
  | other (id : RunId)

/-- The steps of a system in which runs start under `root`. Runs of other scopes come and go in the
same table. -/
inductive WorldStep (sys : System) (root : ExecutionScope) (w : World) : Progress → World → Prop
  | start {ctx : ExecutionContext} {wf : Workflow} (h : root.validateStart w.table = .ok ()) :
      WorldStep sys root w .request { w with admitted := ⟨[], root, ctx, wf⟩ :: w.admitted }
  | admission {lineage : List RunId} {a : Activity} {child : ExecutionScope}
      {ctx : ExecutionContext} {wf : Workflow} (hlive : (lineage, a) ∈ w.live)
      (h : Handoff sys w.table a (.running child ctx wf)) :
      WorldStep sys root w .request { w with admitted := ⟨lineage, child, ctx, wf⟩ :: w.admitted }
  | register {id : RunId} {p : Admission} {before after : List Admission}
      (hsplit : w.admitted = before ++ p :: after) (hfresh : id ∉ w.table) :
      WorldStep sys root w (.register id)
        { table := w.table.insertRun (newRun id p.scope p.wf)
          live := (p.lineage ++ [id], .running p.scope p.ctx p.wf) :: w.live
          admitted := before ++ after }
  | hop {lineage : List RunId} {a b : Activity} (hlive : (lineage, a) ∈ w.live)
      (h : Handoff sys w.table a b) (hrun : ∀ scope ctx wf, b ≠ .running scope ctx wf) :
      WorldStep sys root w .hop { w with live := (lineage, b) :: w.live }
  | finish {id : RunId} {run : WorkflowRun} {status : RunStatus}
      (hget : w.table.lookup id = some run) (hstatus : status.isTerminal = true) :
      WorldStep sys root w (.finish id)
        { w with table := w.table.insert id { run with status := status } }
  | other {run : WorkflowRun} (hfresh : run.id ∉ w.table) :
      WorldStep sys root w (.other run.id) { w with table := w.table.insertRun run }

def isRunning (table : ProcessTable) (id : RunId) : Bool :=
  (table.lookup id).any fun run => run.status.isRunning

/-- The runs of a lineage below its root that are running at the same time. -/
def nestedRunning (table : ProcessTable) (lineage : List RunId) : ℕ :=
  (lineage.drop 1).countP (isRunning table)

/-! ## Tables change in one direction -/

/-- Runs stay in the table and in their namespace, and a finished run does not run again. -/
def Evolves (table table' : ProcessTable) : Prop :=
  ∀ id run, table.lookup id = some run → ∃ run', table'.lookup id = some run' ∧
    run'.namespace_ = run.namespace_ ∧ (run'.status.isRunning = true → run.status.isRunning = true)

theorem evolves_insertRun {table : ProcessTable} {run : WorkflowRun} (h : run.id ∉ table) :
    Evolves table (table.insertRun run) := by
  intro id r hr
  have hne : id ≠ run.id := by
    rintro rfl
    exact h (AList.lookup_isSome.mp (by rw [hr]; rfl))
  refine ⟨r, ?_, rfl, fun h => h⟩
  rw [ProcessTable.insertRun, AList.lookup_insert_ne hne]
  exact hr

theorem evolves_finish {table : ProcessTable} {id : RunId} {run : WorkflowRun} {status : RunStatus}
    (hget : table.lookup id = some run) (hstatus : status.isTerminal = true) :
    Evolves table (table.insert id { run with status := status }) := by
  intro x r hr
  by_cases hx : x = id
  · subst hx
    rw [hget] at hr
    cases hr
    refine ⟨_, AList.lookup_insert _, rfl, ?_⟩
    intro hrunning
    cases status with
    | pending | running => cases hstatus
    | _ => cases hrunning
  · exact ⟨r, by rw [AList.lookup_insert_ne hx]; exact hr, rfl, fun h => h⟩

/-- The runs of the lineage are in the table, each once, all in one namespace. -/
structure Lineage (table : ProcessTable) (ns : String) (l : List RunId) : Prop where
  nodup : l.Nodup
  known : ∀ id ∈ l, ∃ run, table.lookup id = some run ∧ run.namespace_ = ns

section Lineages
variable {table table' : ProcessTable} {ns : String} {l : List RunId}

theorem Lineage.evolves (h : Lineage table ns l) (he : Evolves table table') :
    Lineage table' ns l := by
  refine ⟨h.nodup, ?_⟩
  intro id hid
  obtain ⟨run, hrun, hns⟩ := h.known id hid
  obtain ⟨run', hrun', hns', -⟩ := he id run hrun
  exact ⟨run', hrun', hns'.trans hns⟩

theorem Lineage.count_evolves (h : Lineage table ns l) (he : Evolves table table')
    {k : List RunId} (hk : k.Sublist l) :
    k.countP (isRunning table') ≤ k.countP (isRunning table) := by
  apply List.countP_mono_left
  intro id hid hrunning
  obtain ⟨run, hrun, -⟩ := h.known id (hk.subset hid)
  obtain ⟨run', hrun', -, hdown⟩ := he id run hrun
  rw [isRunning, hrun', Option.any_some] at hrunning
  rw [isRunning, hrun, Option.any_some]
  exact hdown hrunning

/-- The running runs of a lineage are among the active runs of its namespace. -/
theorem Lineage.count_le_active (h : Lineage table ns l) :
    l.countP (isRunning table) ≤ table.activeCountInNamespace ns := by
  have hsub : l.filter (isRunning table) ⊆
      (table.entries.filter fun e => ProcessTable.activeIn ns e.2).map Sigma.fst := by
    intro id hid
    obtain ⟨hmem, hrunning⟩ := List.mem_filter.mp hid
    obtain ⟨run, hrun, hns⟩ := h.known id hmem
    rw [isRunning, hrun, Option.any_some] at hrunning
    have hentry : (⟨id, run⟩ : Sigma fun _ : RunId => WorkflowRun) ∈ table.entries :=
      AList.mem_lookup_iff.mp hrun
    have hself : startsWith run.namespace_ ns = true := by
      rw [hns]
      exact startsWith_iff.mpr (List.prefix_refl _)
    refine List.mem_map.mpr ⟨⟨id, run⟩, List.mem_filter.mpr ⟨hentry, ?_⟩, rfl⟩
    simp only [ProcessTable.activeIn, hrunning, hself, Bool.and_self]
  have hnodup : (l.filter (isRunning table)).Nodup := h.nodup.filter _
  have hle := (List.subperm_of_subset hnodup hsub).length_le
  rw [List.length_map] at hle
  rw [ProcessTable.activeCountInNamespace, List.countP_eq_length_filter,
    List.countP_eq_length_filter]
  exact hle

theorem Lineage.extend (h : Lineage table ns l) {run : WorkflowRun} (hfresh : run.id ∉ table)
    (hns : run.namespace_ = ns) : Lineage (table.insertRun run) ns (l ++ [run.id]) := by
  have hold := h.evolves (evolves_insertRun hfresh)
  have hnew : run.id ∉ l := by
    intro hmem
    obtain ⟨r, hr, -⟩ := h.known run.id hmem
    exact hfresh (AList.lookup_isSome.mp (by rw [hr]; rfl))
  refine ⟨?_, ?_⟩
  · rw [List.nodup_append]
    refine ⟨h.nodup, List.nodup_singleton _, ?_⟩
    intro x hx y hy hxy
    rw [List.mem_singleton.mp hy] at hxy
    exact hnew (hxy ▸ hx)
  · intro id hid
    obtain hid | hid := List.mem_append.mp hid
    · exact hold.known id hid
    · rw [List.mem_singleton.mp hid]
      exact ⟨run, AList.lookup_insert _, hns⟩

end Lineages

/-! ## The bound that holds -/

/-- At most twenty runs of a lineage run below its root; one less is allowed while the next one is
admitted. -/
structure WorldInv (root : ExecutionScope) (w : World) : Prop where
  live : ∀ l a, (l, a) ∈ w.live → Lineage w.table root.namespace_ l ∧
    a.inNamespace = root.namespace_ ∧ nestedRunning w.table l ≤ 20
  admitted : ∀ p ∈ w.admitted, Lineage w.table root.namespace_ p.lineage ∧
    p.scope.namespace_ = root.namespace_ ∧ p.lineage.countP (isRunning w.table) ≤ 19

section Bound
variable {sys : System} {root : ExecutionScope} {w : World}

theorem WorldInv.evolves (h : WorldInv root w) {table' : ProcessTable}
    (he : Evolves w.table table') : WorldInv root { w with table := table' } := by
  refine ⟨?_, ?_⟩
  · intro l a hla
    obtain ⟨hline, hns, hcount⟩ := h.live l a hla
    have hdown := hline.count_evolves he (List.drop_sublist 1 l)
    exact ⟨hline.evolves he, hns, hdown.trans hcount⟩
  · intro p hp
    obtain ⟨hline, hns, hcount⟩ := h.admitted p hp
    exact ⟨hline.evolves he, hns, (hline.count_evolves he (List.Sublist.refl _)).trans hcount⟩

theorem WorldInv.register (h : WorldInv root w) {id : RunId} {p : Admission}
    {before after : List Admission} (hsplit : w.admitted = before ++ p :: after)
    (hfresh : id ∉ w.table) :
    WorldInv root
      { table := w.table.insertRun (newRun id p.scope p.wf)
        live := (p.lineage ++ [id], .running p.scope p.ctx p.wf) :: w.live
        admitted := before ++ after } := by
  have he : Evolves w.table (w.table.insertRun (newRun id p.scope p.wf)) := evolves_insertRun hfresh
  have hold := h.evolves he
  have hp : p ∈ w.admitted := by
    rw [hsplit]
    exact List.mem_append_right _ List.mem_cons_self
  obtain ⟨hline, hns, hcount⟩ := h.admitted p hp
  refine ⟨?_, ?_⟩
  · intro l a hla
    obtain heq | hla := List.mem_cons.mp hla
    · cases heq
      refine ⟨hline.extend hfresh hns, hns, ?_⟩
      have hdown := hline.count_evolves he (List.Sublist.refl _)
      have hdrop : ((p.lineage ++ [id]).drop 1).countP
            (isRunning (w.table.insertRun (newRun id p.scope p.wf))) ≤
          (p.lineage ++ [id]).countP (isRunning (w.table.insertRun (newRun id p.scope p.wf))) :=
        (List.drop_sublist 1 _).countP_le
      have hlast : [id].countP (isRunning (w.table.insertRun (newRun id p.scope p.wf))) ≤ 1 :=
        List.countP_le_length
      rw [List.countP_append] at hdrop
      change ((p.lineage ++ [id]).drop 1).countP
        (isRunning (w.table.insertRun (newRun id p.scope p.wf))) ≤ 20
      omega
    · exact hold.live l a hla
  · intro q hq
    refine hold.admitted q ?_
    change q ∈ w.admitted
    rw [hsplit]
    obtain hq | hq := List.mem_append.mp hq
    · exact List.mem_append_left _ hq
    · exact List.mem_append_right _ (List.mem_cons_of_mem _ hq)

theorem WorldInv.step (h : WorldInv root w) {c : Progress} {w' : World}
    (hs : WorldStep sys root w c w') : WorldInv root w' := by
  cases hs with
  | start hstart =>
    refine ⟨h.live, ?_⟩
    intro p hp
    obtain rfl | hp := List.mem_cons.mp hp
    · refine ⟨⟨List.nodup_nil, ?_⟩, rfl, Nat.zero_le _⟩
      intro id hid
      cases hid
    · exact h.admitted p hp
  | @admission lineage a child ctx wf hlive hhand =>
    obtain ⟨hline, hns, -⟩ := h.live lineage a hlive
    have hchild : child.namespace_ = root.namespace_ := hhand.namespace_eq.trans hns
    refine ⟨h.live, ?_⟩
    intro p hp
    obtain rfl | hp := List.mem_cons.mp hp
    · have hactive := hline.count_le_active
      have hroom := hhand.nested_admission
      rw [hchild] at hroom
      have hlimit : ResourceLimits.default.maxActiveRunsPerNamespace = 20 := rfl
      refine ⟨hline, hchild, ?_⟩
      change lineage.countP (isRunning w.table) ≤ 19
      omega
    · exact h.admitted p hp
  | register hsplit hfresh => exact h.register hsplit hfresh
  | @hop lineage a b hlive hhand _ =>
    obtain ⟨hline, hns, hcount⟩ := h.live lineage a hlive
    refine ⟨?_, h.admitted⟩
    intro l x hlx
    obtain heq | hlx := List.mem_cons.mp hlx
    · cases heq
      exact ⟨hline, hhand.namespace_eq.trans hns, hcount⟩
    · exact h.live l x hlx
  | finish hget hstatus => exact h.evolves (evolves_finish hget hstatus)
  | other hfresh => exact h.evolves (evolves_insertRun hfresh)

/-- The worlds of a system in which runs start under `root`. -/
def WorldReaches (sys : System) (root : ExecutionScope) : World → Prop :=
  Reaches (WorldStep sys root) (fun w => w = .empty)

theorem WorldReaches.inv (h : WorldReaches sys root w) : WorldInv root w := by
  refine h.invariant ?_ (fun w c w' _ hi hs => hi.step hs)
  rintro w rfl
  exact ⟨fun l a hla => (List.not_mem_nil hla).elim, fun p hp => (List.not_mem_nil hp).elim⟩

theorem nested_at_most_twenty (h : WorldReaches sys root w) {l : List RunId} {a : Activity}
    (hla : (l, a) ∈ w.live) : nestedRunning w.table l ≤ 20 := (h.inv.live l a hla).2.2

theorem no_live_of_refused (hrefused : ∀ table, root.validateStart table ≠ .ok ())
    (h : WorldReaches sys root w) : w.live = [] ∧ w.admitted = [] := by
  induction h with
  | start h =>
    cases h
    exact ⟨rfl, rfl⟩
  | tail _ _ hs ih =>
    obtain ⟨hlive, hadmitted⟩ := ih
    cases hs with
    | start hstart => exact absurd hstart (hrefused _)
    | admission hmem _ | hop hmem _ _ =>
      rw [hlive] at hmem
      cases hmem
    | register hsplit _ =>
      rw [hadmitted] at hsplit
      cases List.append_eq_nil_iff.mp hsplit.symm |>.2
    | finish | other => exact ⟨hlive, hadmitted⟩

end Bound

/-! ## A chain of twenty -/

section Chains
variable {sys : System} {root : ExecutionScope} {w : World} {l : List RunId} {a b : Activity}

theorem WorldReaches.hop (hw : WorldReaches sys root w) (hlive : (l, a) ∈ w.live)
    (h : Handoff sys w.table a b) (hrun : ∀ scope ctx wf, b ≠ .running scope ctx wf) :
    ∃ w', WorldReaches sys root w' ∧ w'.table = w.table ∧ (l, b) ∈ w'.live :=
  ⟨_, hw.tail trivial (.hop hlive h hrun), rfl, List.mem_cons_self⟩

theorem WorldReaches.nest {child : ExecutionScope} {ctx : ExecutionContext} {wf : Workflow}
    {id : RunId} (hw : WorldReaches sys root w) (hlive : (l, a) ∈ w.live)
    (h : Handoff sys w.table a (.running child ctx wf)) (hfresh : id ∉ w.table) :
    ∃ w', WorldReaches sys root w' ∧ w'.table = w.table.insertRun (newRun id child wf) ∧
      (l ++ [id], .running child ctx wf) ∈ w'.live := by
  have hadmitted := hw.tail trivial (.admission hlive h)
  exact ⟨_, hadmitted.tail trivial (.register (show _ = [] ++ _ :: _ from rfl) hfresh), rfl,
    List.mem_cons_self⟩

theorem WorldReaches.started (ctx : ExecutionContext) (wf : Workflow) {id : RunId}
    (hw : WorldReaches sys root w) (h : root.validateStart w.table = .ok ()) (hfresh : id ∉ w.table) :
    ∃ w', WorldReaches sys root w' ∧ w'.table = w.table.insertRun (newRun id root wf) ∧
      ([id], .running root ctx wf) ∈ w'.live := by
  have hadmitted : WorldReaches sys root
      { w with admitted := ⟨[], root, ctx, wf⟩ :: w.admitted } := hw.tail trivial (.start h)
  exact ⟨_, hadmitted.tail trivial (.register (show _ = [] ++ _ :: _ from rfl) hfresh), rfl,
    List.mem_cons_self⟩

theorem WorldReaches.complete {id : RunId} {run : WorkflowRun} (output : Json)
    (hw : WorldReaches sys root w) (hlive : (l, a) ∈ w.live) (h : w.table.lookup id = some run) :
    ∃ w', WorldReaches sys root w' ∧
      w'.table = w.table.insert id { run with status := .completed output } ∧ (l, a) ∈ w'.live :=
  ⟨_, hw.tail trivial (.finish h rfl), rfl, hlive⟩

theorem WorldReaches.call {scope : ExecutionScope} {ctx : ExecutionContext} {wf : Workflow}
    {base : BaseTool} {env : Envelope} (hsize : 0 < sys.config.finishedChannelSize)
    (hw : WorldReaches sys root w) (hlive : (l, .running scope ctx wf) ∈ w.live)
    (h : sys.firstCall scope ctx wf = some (base, env)) :
    ∃ w', WorldReaches sys root w' ∧ w'.table = w.table ∧ (l, .invoked base env) ∈ w'.live := by
  unfold System.firstCall at h
  obtain ⟨⟨tool, sent⟩, hfirst, h⟩ := Option.bind_eq_some_iff.mp h
  obtain ⟨w₁, hw₁, htable₁, hlive₁⟩ := hw.hop hlive (firstDispatch_handoff hsize hfirst) (by simp)
  obtain ⟨w₂, hw₂, htable₂, hlive₂⟩ := hw₁.hop hlive₁ (.deliver (ok_of_toOption h)) (by simp)
  exact ⟨w₂, hw₂, htable₂.trans htable₁, hlive₂⟩

/-- The table after `n` nested runs, each started by the first call of the one before; the ids count
up from `id`. -/
def System.descend (sys : System) : ℕ → RunId → ProcessTable → Workflow → Envelope →
    Option ProcessTable
  | 0, _, table, _, _ => some table
  | n + 1, id, table, wf, env => do
    let caller := ExecutionScope.fromEnvelope env
    let child ← (caller.childScope caller.capabilities none).toOption
    let _ ← (child.validateStart table).toOption
    match ← sys.firstCall child (ExecutionContext.fromEnvelope env) wf with
    | (.workflow inner, env') =>
      sys.descend n (id + 1) (table.insertRun (newRun id child wf)) inner env'
    | _ => none

theorem fresh_insertRun {table : ProcessTable} {id : RunId} {run : WorkflowRun}
    (hfresh : ∀ j, id ≤ j → j ∉ table) (hid : run.id = id) :
    ∀ j, id + 1 ≤ j → j ∉ table.insertRun run := by
  intro j hj hmem
  obtain heq | hold := (AList.mem_insert table).mp hmem
  · rw [heq, hid] at hj
    exact Nat.not_succ_le_self _ hj
  · exact hfresh j (Nat.le_of_succ_le hj) hold

theorem descend_reaches {n : ℕ} {id : RunId} {wf : Workflow} {env : Envelope} {table : ProcessTable}
    (hsize : 0 < sys.config.finishedChannelSize) (hw : WorldReaches sys root w)
    (hlive : (l, .invoked (.workflow wf) env) ∈ w.live) (hfresh : ∀ j, id ≤ j → j ∉ w.table)
    (h : sys.descend n id w.table wf env = some table) :
    ∃ w' a, WorldReaches sys root w' ∧ w'.table = table ∧ (l ++ List.range' id n, a) ∈ w'.live := by
  induction n generalizing id wf env w l with
  | zero =>
    cases h
    refine ⟨w, .invoked (.workflow wf) env, hw, rfl, ?_⟩
    rw [List.range'_zero, List.append_nil]
    exact hlive
  | succ n ih =>
    unfold System.descend at h
    obtain ⟨child, hchild, h⟩ := Option.bind_eq_some_iff.mp h
    obtain ⟨⟨⟩, hstart, h⟩ := Option.bind_eq_some_iff.mp h
    obtain ⟨⟨base, env'⟩, hcall, h⟩ := Option.bind_eq_some_iff.mp h
    have hnest : Handoff sys w.table (.invoked (.workflow wf) env)
        (.running child (ExecutionContext.fromEnvelope env) wf) :=
      .nest (ok_of_toOption hchild) (ok_of_toOption hstart)
    obtain ⟨w₁, hw₁, htable₁, hlive₁⟩ := hw.nest hlive hnest (hfresh id le_rfl)
    obtain ⟨w₂, hw₂, htable₂, hlive₂⟩ := hw₁.call hsize hlive₁ hcall
    have htable : w₂.table = w.table.insertRun (newRun id child wf) := htable₂.trans htable₁
    cases base with
    | workflow inner =>
      rw [← htable] at h
      have hfresh₂ : ∀ j, id + 1 ≤ j → j ∉ w₂.table := by
        rw [htable]
        exact fresh_insertRun hfresh rfl
      obtain ⟨w', a, hw', htable', hmem⟩ := ih hw₂ hlive₂ hfresh₂ h
      refine ⟨w', a, hw', htable', ?_⟩
      rw [List.range'_succ, ← List.singleton_append, ← List.append_assoc]
      exact hmem
    | _ => cases h

end Chains

def loopWf : Workflow := oneStep "loop" (Step.new "again" "workflow:loop")

def launcherWf : Workflow :=
  oneStep "launcher" { Step.new "spawn" "runner:spawn" with
    input := StrMap.ofList [("workflow", .literal "loop")] (by simp) }

def loopSystem : System := baseSystem [.spawn, .workflow loopWf]

def loopScope (limits : ResourceLimits) : ExecutionScope :=
  { demoScope [.new "*"] with limits := limits }

/-- The call of the workflow tool that the launcher's spawn makes. -/
def System.firstSpawned (sys : System) (scope : ExecutionScope) (ctx : ExecutionContext)
    (wf : Workflow) : Option (Workflow × Envelope) := do
  match ← sys.firstCall scope ctx wf with
  | (.spawn, env) =>
    let spec ← (spawnSpec env).toOption
    match ← sys.registry.get (workflowToolName spec.workflow) with
    | .workflow inner => some (inner, spec.envelope)
    | _ => none
  | _ => none

theorem WorldReaches.spawned {sys : System} {root : ExecutionScope} {w : World} {l : List RunId}
    {scope : ExecutionScope} {ctx : ExecutionContext} {wf inner : Workflow} {env : Envelope}
    (hsize : 0 < sys.config.finishedChannelSize) (hw : WorldReaches sys root w)
    (hlive : (l, .running scope ctx wf) ∈ w.live)
    (h : sys.firstSpawned scope ctx wf = some (inner, env)) :
    ∃ w', WorldReaches sys root w' ∧ w'.table = w.table ∧
      (l, .invoked (.workflow inner) env) ∈ w'.live := by
  unfold System.firstSpawned at h
  obtain ⟨⟨base, called⟩, hcall, h⟩ := Option.bind_eq_some_iff.mp h
  obtain ⟨w₁, hw₁, htable₁, hlive₁⟩ := hw.call hsize hlive hcall
  cases base with
  | spawn =>
    obtain ⟨spec, hspec, h⟩ := Option.bind_eq_some_iff.mp h
    obtain ⟨tool, htool, h⟩ := Option.bind_eq_some_iff.mp h
    obtain ⟨w₂, hw₂, htable₂, hlive₂⟩ := hw₁.hop hlive₁ (.spawn (ok_of_toOption hspec)) (by simp)
    obtain ⟨w₃, hw₃, htable₃, hlive₃⟩ := hw₂.hop hlive₂ (.launch htool) (by simp)
    obtain ⟨w₄, hw₄, htable₄, hlive₄⟩ := hw₃.hop hlive₃ (.deliver rfl) (by simp)
    have htable : w₄.table = w.table := by rw [htable₄, htable₃, htable₂, htable₁]
    cases tool with
    | workflow wf' =>
      cases h
      exact ⟨w₄, hw₄, htable, hlive₄⟩
    | _ => cases h
  | _ => cases h

def launchedTable (limits : ResourceLimits) : ProcessTable :=
  ((∅ : ProcessTable).insertRun (newRun 0 (loopScope limits) launcherWf)).insert 0
    { newRun 0 (loopScope limits) launcherWf with status := .completed .null }

/-- Twenty runs under one root that are running at the same time, whatever limits the root sets, as
soon as they let one run start. -/
theorem twenty_nested (limits : ResourceLimits) (hdepth : limits.maxChildDepth ≠ 0)
    (hactive : limits.maxActiveRunsPerNamespace ≠ 0) :
    ∃ w l a, WorldReaches loopSystem (loopScope limits) w ∧ (l, a) ∈ w.live ∧
      nestedRunning w.table l = 20 := by
  have hsize : 0 < loopSystem.config.finishedChannelSize := by decide
  have hstart : (loopScope limits).validateStart (∅ : ProcessTable) = .ok () := by
    unfold ExecutionScope.validateStart
    rw [if_neg, if_neg]
    · exact fun h => hdepth (Nat.le_zero.mp h)
    · exact fun h => hactive (Nat.le_zero.mp h)
  -- the dispatch of the launcher does not read the limits
  have hscript : ((loopSystem.firstSpawned (demoScope [.new "*"]) demoContext launcherWf).bind
      fun c => loopSystem.descend 20 1 (launchedTable .default) c.1 c.2).any
        (fun table => nestedRunning table (0 :: List.range' 1 20) == 20) = true := by
    decide +kernel
  obtain ⟨table, hscript, hcount⟩ := (Option.any_eq_true ..).mp hscript
  obtain ⟨⟨inner, env⟩, hspawned, hdescend⟩ := Option.bind_eq_some_iff.mp hscript
  have hempty : WorldReaches loopSystem (loopScope limits) .empty := .start rfl
  obtain ⟨w₁, hw₁, htable₁, hlive₁⟩ :=
    hempty.started demoContext launcherWf hstart (AList.notMem_empty 0)
  obtain ⟨w₂, hw₂, htable₂, hlive₂⟩ := hw₁.spawned hsize hlive₁ hspawned
  have hget : w₂.table.lookup 0 = some (newRun 0 (loopScope limits) launcherWf) := by
    rw [htable₂, htable₁]
    exact AList.lookup_insert _
  obtain ⟨w₃, hw₃, htable₃, hlive₃⟩ := hw₂.complete .null hlive₂ hget
  have htable : w₃.table = launchedTable limits := by
    rw [htable₃, htable₂, htable₁]
    rfl
  have hfresh : ∀ j, 1 ≤ j → j ∉ w₃.table := by
    intro j hj hmem
    rw [htable] at hmem
    obtain rfl | hmem := (AList.mem_insert _).mp hmem
    · exact Nat.not_succ_le_zero 0 hj
    · obtain rfl | hmem := (AList.mem_insert _).mp hmem
      · exact Nat.not_succ_le_zero 0 hj
      · exact AList.notMem_empty _ hmem
  have hdescend : loopSystem.descend 20 1 w₃.table inner env = some table := by
    rw [htable]
    exact hdescend
  obtain ⟨w, a, hw, rfl, hlive⟩ := descend_reaches hsize hw₃ hlive₃ hfresh hdescend
  exact ⟨w, _, a, hw, hlive, beq_iff_eq.mp hcount⟩

/-! ## The limit of the root scope -/

/-- The depth limit of the root scope bounds its nested runs exactly when no run can start at all, or
when it is not below the default number of active runs per namespace. -/
theorem nesting_bounded_iff (limits : ResourceLimits) :
    (∀ sys root, root.limits = limits → root.depth = 0 → ∀ w, WorldReaches sys root w →
        ∀ l a, (l, a) ∈ w.live → nestedRunning w.table l ≤ limits.maxChildDepth) ↔
      limits.maxChildDepth = 0 ∨ limits.maxActiveRunsPerNamespace = 0 ∨
        20 ≤ limits.maxChildDepth := by
  constructor
  · intro h
    by_contra hnot
    simp only [not_or, Nat.not_le] at hnot
    obtain ⟨hdepth, hactive, hlow⟩ := hnot
    obtain ⟨w, l, a, hw, hlive, hcount⟩ := twenty_nested limits hdepth hactive
    have hle := h loopSystem (loopScope limits) rfl rfl w hw l a hlive
    omega
  · rintro hlimits sys root rfl hzero w hw l a hlive
    have hrefused : root.limits.maxChildDepth = 0 ∨ root.limits.maxActiveRunsPerNamespace = 0 →
        ∀ table, root.validateStart table ≠ .ok () := by
      intro hnone table
      unfold ExecutionScope.validateStart
      split_ifs with hfull hdeep
      · nofun
      · nofun
      · omega
    have hnothing : root.limits.maxChildDepth = 0 ∨ root.limits.maxActiveRunsPerNamespace = 0 →
        nestedRunning w.table l ≤ root.limits.maxChildDepth := by
      intro hnone
      rw [(no_live_of_refused (hrefused hnone) hw).1] at hlive
      cases hlive
    obtain hdepth | hactive | hhigh := hlimits
    · exact hnothing (.inl hdepth)
    · exact hnothing (.inr hactive)
    · exact (nested_at_most_twenty hw hlive).trans hhigh

/-- With the default limits, more runs are nested than the default depth limit allows. -/
theorem nested_beyond_limit : ∃ sys root w l a, root.limits = ResourceLimits.default ∧
    root.depth = 0 ∧ WorldReaches sys root w ∧ (l, a) ∈ w.live ∧
      root.limits.maxChildDepth < nestedRunning w.table l := by
  obtain ⟨w, l, a, hw, hlive, hcount⟩ := twenty_nested .default (by decide) (by decide)
  refine ⟨loopSystem, loopScope .default, w, l, a, rfl, rfl, hw, hlive, ?_⟩
  rw [hcount]
  decide

end Konf.Runtime
