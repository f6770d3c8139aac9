import Konf.Runner.Inline
import Konf.Scheduler.Timers

/-! # What a namespace sees of the others

The listings of `process.rs`, `scheduler.rs` and `runner_intents.rs`, and the quota of
`validate_start`, all select the entries of a namespace by a textual prefix. Next to the namespace and
its descendants this takes in the namespaces whose name only begins with the same text. Those are the
entries by which other tenants show, and the only ones.

The listings of timers and of intents are those of the entries: that they fail on an entry they select
whose input does not parse again is left out. -/

namespace Konf.Runtime
open Konf.Text Konf.Substrate Konf.Journal Konf.Scheduler Konf.Runner
set_option autoImplicit false

/-! ## Runs -/

/-- A `WorkflowRun` with the fields that the monitor reads. `durationMs` is the one of a terminal
status. -/
structure TrackedRun extends WorkflowRun where
  parentId : Option RunId
  startedAt : Time
  durationMs : Option ℕ
  activeNodeCount : ℕ
  stepsExecuted : ℕ

structure RunSummary where
  id : RunId
  parentId : Option RunId
  workflowId : String
  namespace_ : String
  status : RunStatus
  durationMs : Option ℕ
  actorId : String
  actorRole : ActorRole
  startedAt : Time
  activeNodeCount : ℕ
  stepsExecuted : ℕ

def TrackedRun.toSummary (run : TrackedRun) : RunSummary where
  id := run.id
  parentId := run.parentId
  workflowId := run.workflowId
  namespace_ := run.namespace_
  status := run.status
  durationMs := run.durationMs
  actorId := run.actor.id
  actorRole := run.actor.role
  startedAt := run.startedAt
  activeNodeCount := run.activeNodeCount
  stepsExecuted := run.stepsExecuted

abbrev TrackedTable : Type := AList (fun _ : RunId => TrackedRun)

namespace TrackedTable

/-- `ProcessTable::list`. The order is that of a hash map. -/
def list (table : TrackedTable) (namespacePrefix : Option String) : List RunSummary :=
  (table.entries.filter fun e => namespacePrefix.all (startsWith e.2.namespace_ ·)).map
    fun e => e.2.toSummary

def processTable (table : TrackedTable) : ProcessTable where
  entries := table.entries.map fun e => ⟨e.1, e.2.toWorkflowRun⟩
  nodupKeys := by
    have hkeys : (table.entries.map fun e => (⟨e.1, e.2.toWorkflowRun⟩ : Sigma fun _ : RunId =>
        WorkflowRun)).keys = table.entries.keys := by
      rw [List.keys, List.map_map]
      rfl
    change (List.keys _).Nodup
    rw [hkeys]
    exact table.keys_nodup

end TrackedTable

/-! ## Intents -/

/-- `RunnerIntent` with the fields that only storage and the listings read. -/
structure ListedIntent extends Intent where
  parentId : Option RunId
  spawnedAt : Time

structure StoredIntent extends Intent where
  parentId : Option RunId
  spawnedAtMicros : ℤ

def StoredIntent.intoIntent (stored : StoredIntent) : ListedIntent where
  toIntent := stored.toIntent
  parentId := stored.parentId
  spawnedAt := ofTimestampMicros stored.spawnedAtMicros

/-- The table of intents. A row stands under the run id it carries, and ids are compared as their
texts, which is the order of the naturals they stand for. -/
structure RunnerIntentStore where
  table : Table RunId StoredIntent
  own : ∀ r ∈ table.rows, r.2.runId = r.1

namespace RunnerIntentStore

def empty : RunnerIntentStore := ⟨.empty, by simp [Table.empty]⟩

/-- The rows in key order, then sorted by their time; the sort is stable. -/
def listByNamespace (store : RunnerIntentStore) (namespacePrefix : String) (includeTerminal : Bool) :
    List ListedIntent :=
  ((store.table.rows.filter fun r => startsWith r.2.namespace_ namespacePrefix &&
    (includeTerminal || r.2.terminal.isNone)).map fun r => r.2.intoIntent).insertionSort
      fun a b => a.spawnedAt ≤ b.spawnedAt

end RunnerIntentStore

/-! ## States and their listings -/

/-- The three stores. The timers are those of a scheduler that has kept its tables in step. -/
structure Stores where
  runs : TrackedTable
  timers : Tables
  held : ∃ m, timers.Holds m
  intents : RunnerIntentStore

/-- The namespace itself and its descendants. -/
def inNamespace (n ns : String) : Bool := ns == n || startsWith ns (n ++ ":")

/-- A namespace that only begins with the same text. -/
def lookalike (n ns : String) : Bool := startsWith ns n && !inNamespace n ns

/-- The states have the same entries in the namespaces that `p` selects. -/
structure AgreeOn (p : String → Bool) (a b : Stores) : Prop where
  runs : (a.runs.entries.filter fun e => p e.2.namespace_).Perm
    (b.runs.entries.filter fun e => p e.2.namespace_)
  timers : (a.timers.timers.rows.filter fun r => p r.2.namespace_) =
    b.timers.timers.rows.filter fun r => p r.2.namespace_
  intents : (a.intents.table.rows.filter fun r => p r.2.namespace_) =
    b.intents.table.rows.filter fun r => p r.2.namespace_

/-- The unrestricted listings show the same entries in the namespaces that `p` selects. -/
structure ShownAlike (p : String → Bool) (a b : Stores) : Prop where
  runs : ((a.runs.list none).filter fun r => p r.namespace_).Perm
    ((b.runs.list none).filter fun r => p r.namespace_)
  timers : ((a.timers.jobs none).filter fun j => p j.namespace_).Perm
    ((b.timers.jobs none).filter fun j => p j.namespace_)
  intents : ((a.intents.listByNamespace "" true).filter fun i => p i.namespace_).Perm
    ((b.intents.listByNamespace "" true).filter fun i => p i.namespace_)

/-- What a caller of namespace `n` is told. Runs are listed in the order of a hash map, so only
which of them are listed counts. -/
structure SameListings (n : String) (a b : Stores) : Prop where
  start : ∀ scope : ExecutionScope, scope.namespace_ = n →
    scope.validateStart a.runs.processTable = scope.validateStart b.runs.processTable
  runs : (a.runs.list (some n)).Perm (b.runs.list (some n))
  timers : a.timers.jobs (some n) = b.timers.jobs (some n)
  intents : ∀ includeTerminal,
    a.intents.listByNamespace n includeTerminal = b.intents.listByNamespace n includeTerminal

/-! ## A prefix is the namespace and its lookalikes -/

section Prefixes
variable {n ns : String}

theorem startsWith_of_inNamespace (h : inNamespace n ns = true) : startsWith ns n = true := by
  rw [inNamespace, Bool.or_eq_true, beq_iff_eq] at h
  rw [startsWith_iff]
  obtain rfl | h := h
  · exact List.prefix_refl _
  · rw [startsWith_iff, String.toList_append] at h
    exact (List.prefix_append _ _).trans h

theorem startsWith_eq (n ns : String) : startsWith ns n = (inNamespace n ns || lookalike n ns) := by
  unfold lookalike
  cases hin : inNamespace n ns with
  | true => exact startsWith_of_inNamespace hin
  | false => simp

/-- A selection by prefix is decided by the lookalikes, where the namespace itself agrees. -/
theorem filter_prefix_perm_iff {α : Type} (key : α → String) {l l' : List α}
    (h : (l.filter fun x => inNamespace n (key x)).Perm (l'.filter fun x => inNamespace n (key x))) :
    (l.filter fun x => startsWith (key x) n).Perm (l'.filter fun x => startsWith (key x) n) ↔
      (l.filter fun x => lookalike n (key x)).Perm (l'.filter fun x => lookalike n (key x)) := by
  have hsplit : ∀ m : List α, (m.filter fun x => startsWith (key x) n).Perm
      ((m.filter fun x => inNamespace n (key x)) ++ m.filter fun x => lookalike n (key x)) := by
    intro m
    have hparts := List.filter_append_perm (fun x => inNamespace n (key x))
      (m.filter fun x => startsWith (key x) n)
    rw [List.filter_filter, List.filter_filter] at hparts
    refine hparts.symm.trans (List.Perm.of_eq ?_)
    congr 1
    · refine List.filter_congr ?_
      intro x _
      rw [startsWith_eq]
      cases inNamespace n (key x) <;> simp
    · refine List.filter_congr ?_
      intro x _
      rw [lookalike, Bool.and_comm]
  constructor
  · intro hall
    have hboth := (hsplit l).symm.trans (hall.trans (hsplit l'))
    exact (List.perm_append_left_iff _).mp ((h.symm.append_right _).trans hboth)
  · intro hlook
    exact (hsplit l).trans ((h.append hlook).trans (hsplit l').symm)

end Prefixes

/-! ## The listings -/

/-- Lists sorted by a key of their members are equal when they have the same members. -/
theorem eq_of_perm_of_sorted {α K : Type} [LinearOrder K] (key : α → K) {l l' : List α}
    (h : l.Pairwise fun x y => key x < key y) (h' : l'.Pairwise fun x y => key x < key y)
    (hperm : l.Perm l') : l = l' := by
  refine List.Perm.eq_of_pairwise ?_ h h' hperm
  intro x y _ _ hxy hyx
  exact absurd hxy hyx.asymm

section Listings
variable {a b : Stores} {n : String} {p : String → Bool}

theorem list_runs_some (table : TrackedTable) (n : String) :
    table.list (some n) = (table.list none).filter fun r => startsWith r.namespace_ n := by
  simp only [TrackedTable.list, Option.all_some, Option.all_none, List.filter_true, List.filter_map]
  rfl

theorem list_timers_some (t : Tables) (n : String) :
    t.jobs (some n) = (t.jobs none).filter fun j => startsWith j.namespace_ n := by
  simp only [Tables.jobs, Tables.selected, Option.all_some, Option.all_none, List.filter_true, List.filter_map]
  rfl

theorem activeCount_eq_countP (table : TrackedTable) (n : String) :
    table.processTable.activeCountInNamespace n =
      (table.list (some n)).countP fun r => r.status.isRunning := by
  unfold ProcessTable.activeCountInNamespace TrackedTable.processTable TrackedTable.list
  rw [List.countP_map, List.countP_map, List.countP_filter]
  rfl

def jobKey (j : JobSummary) : TimerKey := toLex ((j.nextFireAt / 1000000).toNat, j.jobId)

theorem list_timers_sorted {t : Tables} (h : ∃ m, t.Holds m) (namespacePrefix : Option String) :
    (t.jobs namespacePrefix).Pairwise fun x y => jobKey x < jobKey y := by
  obtain ⟨m, hm⟩ := h
  rw [Tables.jobs, Tables.selected, List.pairwise_map]
  refine (t.timers.sorted.filter _).imp_of_mem ?_
  intro r r' hr hr' hlt
  have hkey : ∀ x ∈ t.timers.rows, jobKey (Tables.summary (ofLex x.1).1 x.2.timer) = x.1 := by
    intro x hx
    have hrow := (hm.ranks.rows (ofLex x.1).1 (ofLex x.1).2 x.2).mp hx
    have hid : x.2.jobId = (ofLex x.1).2 := hm.own _ _ hrow
    show toLex ((((ofLex x.1).1 * 1000000 : ℤ) / 1000000).toNat, x.2.jobId) = x.1
    rw [Int.mul_ediv_cancel _ (by decide), hid]
    rfl
  rw [hkey r (List.mem_filter.mp hr).1, hkey r' (List.mem_filter.mp hr').1]
  exact hlt

def RunnerIntentStore.all (store : RunnerIntentStore) : List ListedIntent :=
  store.table.rows.map fun r => r.2.intoIntent

theorem all_sorted (store : RunnerIntentStore) : store.all.Pairwise fun x y => x.runId < y.runId := by
  rw [RunnerIntentStore.all, List.pairwise_map]
  refine store.table.sorted.imp_of_mem ?_
  intro r r' hr hr' hlt
  have hid : r.2.intoIntent.runId = r.1 := store.own r hr
  have hid' : r'.2.intoIntent.runId = r'.1 := store.own r' hr'
  rw [hid, hid']
  exact hlt

theorem listByNamespace_eq (store : RunnerIntentStore) (n : String) (includeTerminal : Bool) :
    store.listByNamespace n includeTerminal =
      ((store.all.filter fun i => startsWith i.namespace_ n).filter fun i =>
        includeTerminal || i.terminal.isNone).insertionSort fun x y => x.spawnedAt ≤ y.spawnedAt := by
  simp only [RunnerIntentStore.listByNamespace, RunnerIntentStore.all, List.filter_map,
    List.filter_filter]
  congr 2
  refine List.filter_congr ?_
  intro r _
  exact Bool.and_comm _ _

theorem listByNamespace_perm (store : RunnerIntentStore) (n : String) :
    (store.listByNamespace n true).Perm (store.all.filter fun i => startsWith i.namespace_ n) := by
  rw [listByNamespace_eq]
  refine (List.perm_insertionSort _ _).trans (List.Perm.of_eq ?_)
  simp

theorem listByNamespace_all (store : RunnerIntentStore) :
    (store.listByNamespace "" true).Perm store.all := by
  refine (listByNamespace_perm store "").trans (List.Perm.of_eq ?_)
  rw [List.filter_eq_self]
  intro i _
  exact startsWith_iff.mpr List.nil_prefix

theorem AgreeOn.shownAlike (h : AgreeOn p a b) : ShownAlike p a b := by
  refine ⟨?_, ?_, ?_⟩
  · simp only [TrackedTable.list, Option.all_none, List.filter_true, List.filter_map]
    exact h.runs.map _
  · simp only [Tables.jobs, Tables.selected, Option.all_none, List.filter_true, List.filter_map]
    exact List.Perm.of_eq (congrArg (List.map _) h.timers)
  · have hall : a.intents.all.filter (fun i => p i.namespace_) =
        b.intents.all.filter fun i => p i.namespace_ := by
      simp only [RunnerIntentStore.all, List.filter_map]
      exact congrArg (List.map _) h.intents
    have hleft := (listByNamespace_all a.intents).filter fun i => p i.namespace_
    have hright := (listByNamespace_all b.intents).filter fun i => p i.namespace_
    exact hleft.trans ((List.Perm.of_eq hall).trans hright.symm)

end Listings

/-! ## Isolation -/

section Isolation
variable {a b : Stores} {n : String}

theorem runs_same_iff (h : ShownAlike (inNamespace n) a b) :
    (a.runs.list (some n)).Perm (b.runs.list (some n)) ↔
      ((a.runs.list none).filter fun r => lookalike n r.namespace_).Perm
        ((b.runs.list none).filter fun r => lookalike n r.namespace_) := by
  rw [list_runs_some, list_runs_some]
  exact filter_prefix_perm_iff RunSummary.namespace_ h.runs

theorem timers_same_iff (h : ShownAlike (inNamespace n) a b) :
    a.timers.jobs (some n) = b.timers.jobs (some n) ↔
      ((a.timers.jobs none).filter fun j => lookalike n j.namespace_).Perm
        ((b.timers.jobs none).filter fun j => lookalike n j.namespace_) := by
  rw [← filter_prefix_perm_iff JobSummary.namespace_ h.timers, ← list_timers_some,
    ← list_timers_some]
  constructor
  · exact List.Perm.of_eq
  · exact eq_of_perm_of_sorted jobKey (list_timers_sorted a.held _) (list_timers_sorted b.held _)

theorem intents_same_iff (h : ShownAlike (inNamespace n) a b) :
    (∀ t, a.intents.listByNamespace n t = b.intents.listByNamespace n t) ↔
      ((a.intents.listByNamespace "" true).filter fun i => lookalike n i.namespace_).Perm
        ((b.intents.listByNamespace "" true).filter fun i => lookalike n i.namespace_) := by
  have hall : ∀ p : String → Bool,
      ((a.intents.listByNamespace "" true).filter fun i => p i.namespace_).Perm
          ((b.intents.listByNamespace "" true).filter fun i => p i.namespace_) ↔
        (a.intents.all.filter fun i => p i.namespace_).Perm
          (b.intents.all.filter fun i => p i.namespace_) := by
    intro p
    have hleft := (listByNamespace_all a.intents).filter fun i => p i.namespace_
    have hright := (listByNamespace_all b.intents).filter fun i => p i.namespace_
    exact ⟨fun hp => hleft.symm.trans (hp.trans hright), fun hp => hleft.trans (hp.trans hright.symm)⟩
  have hown := (hall (inNamespace n)).mp h.intents
  rw [hall (lookalike n), ← filter_prefix_perm_iff (fun i : ListedIntent => i.namespace_) hown]
  constructor
  · intro hsame
    have hleft := listByNamespace_perm a.intents n
    have hright := listByNamespace_perm b.intents n
    rw [hsame true] at hleft
    exact hleft.symm.trans hright
  · intro hperm t
    have hrows := eq_of_perm_of_sorted (fun i : ListedIntent => i.runId)
      ((all_sorted a.intents).filter _) ((all_sorted b.intents).filter _) hperm
    rw [listByNamespace_eq, listByNamespace_eq, hrows]

theorem start_same_of_runs (h : (a.runs.list (some n)).Perm (b.runs.list (some n)))
    (scope : ExecutionScope) (hn : scope.namespace_ = n) :
    scope.validateStart a.runs.processTable = scope.validateStart b.runs.processTable := by
  have hcount : a.runs.processTable.activeCountInNamespace n =
      b.runs.processTable.activeCountInNamespace n := by
    rw [activeCount_eq_countP, activeCount_eq_countP]
    exact h.countP_eq _
  unfold ExecutionScope.validateStart
  rw [hn, hcount]

end Isolation

/-- Two states that agree on a namespace and its descendants tell it the same exactly when they also
show the same in the namespaces whose name begins with the same text and goes on without a colon. -/
theorem namespace_isolated_iff (n : String) (a b : Stores) (h : AgreeOn (inNamespace n) a b) :
    SameListings n a b ↔ ShownAlike (lookalike n) a b := by
  have hown := h.shownAlike
  constructor
  · intro hsame
    exact ⟨(runs_same_iff hown).mp hsame.runs, (timers_same_iff hown).mp hsame.timers,
      (intents_same_iff hown).mp hsame.intents⟩
  · intro hshown
    have hruns := (runs_same_iff hown).mpr hshown.runs
    exact ⟨start_same_of_runs hruns, hruns, (timers_same_iff hown).mpr hshown.timers,
      (intents_same_iff hown).mpr hshown.intents⟩

/-! ## Two users -/

def trackedRun (id : RunId) (ns : String) : TrackedRun where
  id := id
  workflowId := "wf"
  namespace_ := ns
  actor := ⟨"alice", .user⟩
  capabilities := []
  status := .running
  parentId := none
  startedAt := 0
  durationMs := none
  activeNodeCount := 0
  stepsExecuted := 0

def oneRun (ns : String) : Stores where
  runs := AList.singleton 1 (trackedRun 1 ns)
  timers := .empty
  held := ⟨_, Tables.holds_empty⟩
  intents := .empty

def noRuns : Stores where
  runs := ∅
  timers := .empty
  held := ⟨_, Tables.holds_empty⟩
  intents := .empty

/-- A run of `user_2` is nothing to `user_1`. -/
theorem other_user_unseen :
    AgreeOn (inNamespace "konf:demo:user_1") noRuns (oneRun "konf:demo:user_2") ∧
      SameListings "konf:demo:user_1" noRuns (oneRun "konf:demo:user_2") := by
  have hagree : AgreeOn (inNamespace "konf:demo:user_1") noRuns (oneRun "konf:demo:user_2") :=
    ⟨.refl _, rfl, rfl⟩
  have hshown : ShownAlike (lookalike "konf:demo:user_1") noRuns (oneRun "konf:demo:user_2") :=
    ⟨.refl _, .refl _, .refl _⟩
  exact ⟨hagree, (namespace_isolated_iff _ _ _ hagree).mpr hshown⟩

/-- A run of `user_12` is listed for `user_1`. -/
theorem lookalike_user_seen :
    AgreeOn (inNamespace "konf:demo:user_1") noRuns (oneRun "konf:demo:user_12") ∧
      ¬ SameListings "konf:demo:user_1" noRuns (oneRun "konf:demo:user_12") := by
  refine ⟨⟨.refl _, rfl, rfl⟩, ?_⟩
  intro h
  have hlen := h.runs.length_eq
  cases hlen

end Konf.Runtime
