import Konf.Runtime.Namespaces

/-! # The tables of the intent store

Model of the transactions of `konf-runtime/src/runner_intents.rs` on its two tables: the intents by run
id, and the run ids by namespace. -/

namespace Konf.Runtime
open Konf.Substrate Konf.Journal Konf.Runner
set_option autoImplicit false

/-- `RunnerIntent::new`. -/
def ListedIntent.new (spec : WorkflowSpec) (id : Uuid) (now : Time) : ListedIntent where
  toIntent := .new spec id
  parentId := none
  spawnedAt := now

/-- What the index has of an intent, and what an intent keeps through all its writes. -/
def ListedIntent.key (i : ListedIntent) : Uuid × String := (i.runId, i.namespace_)

@[simp] theorem ListedIntent.new_runId (spec : WorkflowSpec) (id : Uuid) (now : Time) :
    (ListedIntent.new spec id now).runId = id := rfl

@[simp] theorem ListedIntent.new_terminal (spec : WorkflowSpec) (id : Uuid) (now : Time) :
    (ListedIntent.new spec id now).terminal = none := rfl

def ListedIntent.markTerminal (i : ListedIntent) (status : TerminalStatus) : ListedIntent :=
  { i with terminal := some status }

@[simp] theorem ListedIntent.markTerminal_runId (i : ListedIntent) (status : TerminalStatus) :
    (i.markTerminal status).runId = i.runId := rfl

@[simp] theorem ListedIntent.key_new_replaySpec (i : ListedIntent) (fresh : Uuid) (now : Time) :
    (ListedIntent.new (i.replaySpec fresh) i.runId now).key = i.key := rfl

def StoredIntent.fromIntent (i : ListedIntent) : StoredIntent where
  toIntent := i.toIntent
  parentId := i.parentId
  spawnedAtMicros := timestampMicros i.spawnedAt

end Konf.Runtime

namespace Konf.Runner
open Konf.Substrate Konf.Runtime Konf.Journal
set_option autoImplicit false

/-! ## Tables and transactions -/

structure IntentTables where
  intents : RunnerIntentStore
  byNamespace : Multimap String Uuid

namespace IntentTables

def empty : IntentTables := ⟨.empty, .empty⟩

def insert (t : IntentTables) (i : ListedIntent) : IntentTables where
  intents :=
    { table := t.intents.table.insert i.runId (.fromIntent i)
      own := by
        intro r hr
        obtain rfl | ⟨-, hr⟩ := Table.mem_insert.mp hr
        · rfl
        · exact t.intents.own r hr }
  byNamespace := t.byNamespace.insert i.namespace_ i.runId

def get (t : IntentTables) (id : Uuid) : Option ListedIntent :=
  (t.intents.table.get id).map StoredIntent.intoIntent

def listUnterminated (t : IntentTables) : List ListedIntent :=
  ((t.intents.table.rows.filter fun r => r.2.terminal.isNone).map fun r => r.2.intoIntent).insertionSort
    fun a b => a.spawnedAt ≤ b.spawnedAt

/-- The first pass of `gc`. -/
def victims (t : IntentTables) (olderThan : Time) : List (Uuid × String) :=
  (t.intents.table.rows.filter fun r => r.2.terminal.isSome &&
    decide (r.2.spawnedAtMicros < timestampMicros olderThan)).map fun r => (r.1, r.2.namespace_)

def remove (t : IntentTables) (id : Uuid) (namespace_ : String) : IntentTables where
  intents :=
    { table := t.intents.table.remove id
      own := fun r hr => t.intents.own r (Table.mem_remove.mp hr).2 }
  byNamespace := t.byNamespace.remove namespace_ id

/-- The second pass of `gc`. -/
def removeAll (t : IntentTables) (victims : List (Uuid × String)) : IntentTables :=
  victims.foldl (fun t v => t.remove v.1 v.2) t

/-- The `terminal` field of an intent, where there is one. -/
def status (t : IntentTables) (id : Uuid) : Option (Option TerminalStatus) :=
  (t.get id).map fun i => i.terminal

/-- The pairs of the index are those of the stored intents. -/
def Indexed (t : IntentTables) : Prop :=
  ∀ namespace_ id, (namespace_, id) ∈ t.byNamespace.pairs ↔
    ∃ i, t.get id = some i ∧ i.namespace_ = namespace_

/-! ## Statuses -/

variable {t : IntentTables} {drawn : List (Uuid × String)}

@[simp] theorem status_insert (i : ListedIntent) (id : Uuid) :
    (t.insert i).status id = if id = i.runId then some i.terminal else t.status id := by
  unfold status get insert
  split_ifs with h
  · rw [h, Table.get_insert_self]
    rfl
  · rw [Table.get_insert_ne h]

theorem status_remove (v : Uuid × String) (id : Uuid) :
    (t.remove v.1 v.2).status id = if id = v.1 then none else t.status id := by
  unfold status get remove
  split_ifs with h
  · rw [h, Table.get_remove_self]
    rfl
  · rw [Table.get_remove_ne h]

@[simp] theorem status_removeAll (victims : List (Uuid × String)) (id : Uuid) :
    (t.removeAll victims).status id = if id ∈ victims.map Prod.fst then none else t.status id := by
  induction victims generalizing t with
  | nil => simp [removeAll]
  | cons v victims ih =>
    have hrest := ih (t := t.remove v.1 v.2)
    rw [removeAll] at hrest
    rw [removeAll, List.foldl_cons, hrest, status_remove]
    by_cases hid : id = v.1
    · simp [hid]
    · simp only [hid, List.map_cons, List.mem_cons, false_or, if_false]

theorem mem_rows_of_get {id : Uuid} {i : ListedIntent} (h : t.get id = some i) :
    ∃ row, (id, row) ∈ t.intents.table.rows ∧ i = row.intoIntent := by
  obtain ⟨row, hrow, rfl⟩ := Option.map_eq_some_iff.mp h
  exact ⟨row, Table.get_eq_some_iff.mp hrow, rfl⟩

theorem runId_of_get {id : Uuid} {i : ListedIntent} (h : t.get id = some i) : i.runId = id := by
  obtain ⟨row, hrow, rfl⟩ := mem_rows_of_get h
  exact t.intents.own _ hrow

theorem status_of_row {r : Uuid × StoredIntent} (h : r ∈ t.intents.table.rows) :
    t.status r.1 = some r.2.terminal := by
  rw [status, get, Table.get_eq_some_iff.mpr h]
  rfl

theorem mem_listUnterminated {i : ListedIntent} (h : i ∈ t.listUnterminated) :
    i.terminal = none ∧ t.status i.runId = some none ∧ t.get i.runId = some i := by
  rw [listUnterminated, List.mem_insertionSort, List.mem_map] at h
  obtain ⟨r, hr, rfl⟩ := h
  obtain ⟨hmem, hnone⟩ := List.mem_filter.mp hr
  rw [Option.isNone_iff_eq_none] at hnone
  have hid : r.2.intoIntent.runId = r.1 := t.intents.own r hmem
  have hget : t.get r.2.intoIntent.runId = some r.2.intoIntent := by
    rw [hid, get, Table.get_eq_some_iff.mpr hmem, Option.map_some]
  refine ⟨hnone, ?_, hget⟩
  rw [status, hget, Option.map_some]
  exact congrArg some hnone

theorem listUnterminated_nodup (t : IntentTables) :
    (t.listUnterminated.map fun i => i.runId).Nodup := by
  have hperm := (List.perm_insertionSort (fun a b : ListedIntent => a.spawnedAt ≤ b.spawnedAt)
    ((t.intents.table.rows.filter fun r => r.2.terminal.isNone).map fun r => r.2.intoIntent)).map
    fun i => i.runId
  refine hperm.nodup_iff.mpr ?_
  rw [List.map_map]
  have hkeys : (t.intents.table.rows.filter fun r => r.2.terminal.isNone).map
      ((fun i : ListedIntent => i.runId) ∘ fun r => r.2.intoIntent) =
      (t.intents.table.rows.filter fun r => r.2.terminal.isNone).map Prod.fst := by
    refine List.map_congr_left ?_
    intro r hr
    exact t.intents.own r (List.mem_filter.mp hr).1
  rw [hkeys]
  exact t.intents.table.keys_nodup.sublist (List.filter_sublist.map _)

theorem mem_victims {olderThan : Time} {v : Uuid × String} (h : v ∈ t.victims olderThan) :
    ∃ r ∈ t.intents.table.rows, v = (r.1, r.2.namespace_) ∧ r.2.terminal.isSome = true := by
  obtain ⟨r, hr, rfl⟩ := List.mem_map.mp h
  obtain ⟨hmem, hold⟩ := List.mem_filter.mp hr
  rw [Bool.and_eq_true] at hold
  exact ⟨r, hmem, rfl, hold.1⟩

/-! ## The index -/

/-- Every stored intent has the namespace that its id was drawn for, and the index is exact. -/
structure Fits (t : IntentTables) (drawn : List (Uuid × String)) : Prop where
  rows : ∀ r ∈ t.intents.table.rows, (r.1, r.2.namespace_) ∈ drawn
  indexes : t.byNamespace.Indexes t.intents.table fun r => some r.namespace_

theorem Fits.indexed (h : t.Fits drawn) : t.Indexed := by
  intro namespace_ id
  rw [h.indexes namespace_ id]
  constructor
  · intro hrow
    obtain ⟨row, hmem, hns⟩ := hrow
    refine ⟨row.intoIntent, ?_, Option.some.inj hns⟩
    rw [get, Table.get_eq_some_iff.mpr hmem, Option.map_some]
  · intro hget
    obtain ⟨i, hi, rfl⟩ := hget
    obtain ⟨row, hmem, rfl⟩ := mem_rows_of_get hi
    exact ⟨row, hmem, rfl⟩

/-- An id has been drawn for one namespace. -/
theorem namespace_unique (hd : (drawn.map Prod.fst).Nodup) {id : Uuid} {n n' : String}
    (h : (id, n) ∈ drawn) (h' : (id, n') ∈ drawn) : n = n' :=
  congrArg Prod.snd (List.inj_on_of_nodup_map hd h h' rfl)

theorem Fits.insert (h : t.Fits drawn) (hd : (drawn.map Prod.fst).Nodup) {i : ListedIntent}
    (hi : i.key ∈ drawn) : (t.insert i).Fits drawn where
  rows := by
    intro r hr
    obtain rfl | ⟨-, hr⟩ := Table.mem_insert.mp hr
    · exact hi
    · exact h.rows r hr
  indexes := by
    refine h.indexes.overwrite (v := StoredIntent.fromIntent i) ?_
    intro row hrow
    rw [namespace_unique hd (h.rows _ hrow) hi]
    rfl

theorem Fits.remove (h : t.Fits drawn) (hd : (drawn.map Prod.fst).Nodup) {v : Uuid × String}
    (hv : v ∈ drawn) : (t.remove v.1 v.2).Fits drawn where
  rows := fun r hr => h.rows r (Table.mem_remove.mp hr).2
  indexes := by
    have hsame : ∀ row, (v.1, row) ∈ t.intents.table.rows → some row.namespace_ = some v.2 := by
      intro row hrow
      rw [namespace_unique hd (h.rows _ hrow) hv]
    exact h.indexes.erase hsame

theorem Fits.removeAll (h : t.Fits drawn) (hd : (drawn.map Prod.fst).Nodup)
    {victims : List (Uuid × String)} (hv : ∀ v ∈ victims, v ∈ drawn) :
    (t.removeAll victims).Fits drawn := by
  induction victims generalizing t with
  | nil => exact h
  | cons v victims ih =>
    exact ih (h.remove hd (hv v List.mem_cons_self)) fun w hw => hv w (List.mem_cons_of_mem _ hw)

theorem Fits.key_of_get (h : t.Fits drawn) {id : Uuid} {i : ListedIntent} (hi : t.get id = some i) :
    i.key ∈ drawn := by
  have hid := runId_of_get hi
  obtain ⟨row, hrow, rfl⟩ := mem_rows_of_get hi
  rw [ListedIntent.key, hid]
  exact h.rows _ hrow

theorem Fits.mono (h : t.Fits drawn) (k : Uuid × String) : t.Fits (k :: drawn) :=
  ⟨fun r hr => List.mem_cons_of_mem _ (h.rows r hr), h.indexes⟩

end IntentTables

end Konf.Runner
