import Konf.Memory.Isolation

/-! # What a search hands out

The vector index is searched across all namespaces and its rows follow a link to a node, so that what a
search hands out is a matter of which rows there are. Requests only make embeddings for the node that they
create, in its namespace; hence a reply to the session shows nodes of its namespace only, in every mode. -/

namespace Konf.Memory
open Konf.Substrate Konf.Transition
set_option autoImplicit false

/-- Every embedding belongs to a node of its namespace. -/
def Store.Linked (s : Store) : Prop :=
  ∀ e ∈ s.embeddings, ∃ row, s.nodes.get e.node = some row ∧ row.namespace_ = e.namespace_

/-- The hit shows a node of the namespace. -/
def Shows {F : Type} (n : String) (s : Store) (hit : Hit F) : Prop :=
  ∃ id row, hit.id = some id ∧ s.nodes.get id = some row ∧ row.namespace_ = n ∧
    hit.nodeType = some row.nodeType ∧ hit.content = some row.content ∧
    hit.metadata = some row.metadata

section Searches
variable {F : Type} {eng : Engine F} {cfg : SearchConfig} {s : Store} {params : SearchParams}
  {reply : SearchReply F} {n : String} {hit : Hit F}

theorem textHits_shows {query : String} (h : hit ∈ textHits eng s params query n) : Shows n s hit := by
  obtain ⟨r, hr, rfl⟩ := List.mem_map.mp h
  obtain ⟨hrow, hclauses⟩ := List.mem_filter.mp hr
  simp only [Bool.and_eq_true, decide_eq_true_eq] at hclauses
  exact ⟨r.1, r.2, rfl, Table.get_eq_some_iff.mpr hrow, hclauses.1.1.1, rfl, rfl, rfl⟩

theorem vectorHits_shows (hlinked : s.Linked) {qv : List JsonNumber} {k : ℕ} {ef : ℤ}
    (h : hit ∈ vectorHits eng s qv n k ef) : Shows n s hit := by
  obtain ⟨e, he, hns, rfl⟩ := mem_vectorHits h
  obtain ⟨row, hget, hrow⟩ := hlinked e he
  refine ⟨e.node, row, vectorHit_id_of_get hget, hget, hrow.trans hns, ?_, ?_, ?_⟩
  · simp [vectorHit, hget]
  · simp [vectorHit, hget]
  · simp [vectorHit, hget]

theorem Shows.rescored (h : Shows n s hit) (score : F) : Shows n s { hit with score := score } := h

/-- In every mode a search shows nodes of the namespace that it is for. -/
theorem run_shows (hlinked : s.Linked) (h : run eng cfg s params = .ok reply)
    (hit : Hit F) (hhit : hit ∈ reply.results) : Shows (resolveNamespace params.namespace_) s hit := by
  obtain htext | ⟨qv, -, -, hvector⟩ | ⟨qv, query, -, hquery, -, hfused⟩ := run_ok h
  · obtain ⟨query, -, hresults⟩ := textSearch_ok htext
    rw [hresults] at hhit
    exact textHits_shows (mem_of_mem_orderLimit hhit)
  · rw [vectorSearch_ok hvector] at hhit
    exact vectorHits_shows hlinked (mem_of_mem_orderLimit hhit)
  · obtain ⟨text, vec, -, hrows, -, hcandidates, reply', hreply, hresults⟩ := rrfFuse_eq hquery qv
    rw [hfused] at hreply
    cases hreply
    rw [hresults] at hhit
    obtain ⟨r, hr, rfl⟩ := mem_topFused hhit
    apply Shows.rescored
    obtain hrow | hrow := List.mem_append.mp (fuse_entry hr)
    · rw [hrows] at hrow
      exact textHits_shows (mem_of_mem_orderLimit hrow)
    · rw [hcandidates] at hrow
      exact vectorHits_shows hlinked (mem_of_mem_orderLimit hrow)

end Searches

/-! ## Steps -/

section Steps
variable {F : Type} {db : Backend F} {t : MemoryTables} {p : Pending} {now : Time} {record : RecordId}

theorem step_nodes_kept (hfresh : t.store.nodes.get record = none) {id : RecordId} {row : NodeRow}
    (h : t.store.nodes.get id = some row) :
    (p.step db t now record).1.store.nodes.get id = some row := by
  cases p with
  | request r =>
    cases r with
    | search params => exact h
    | addNodes nodes param =>
      simp only [Pending.step]
      split
      · exact h
      · exact h
    | state call => exact h
  | adding ns nodes createdCount =>
    cases nodes with
    | nil => exact h
    | cons node nodes =>
      simp only [Pending.step, addStep]
      split
      · exact h
      · have hne : id ≠ record := by
          rintro rfl
          cases hfresh.symm.trans h
        exact (Table.get_insert_ne hne).trans h
  | state call begun => exact h

theorem Shows.step (hfresh : t.store.nodes.get record = none) {n : String} {hit : Hit F}
    (h : Shows n t.store hit) : Shows n (p.step db t now record).1.store hit := by
  obtain ⟨id, row, hid, hget, hrest⟩ := h
  exact ⟨id, row, hid, step_nodes_kept hfresh hget, hrest⟩

theorem step_linked (hfresh : t.store.nodes.get record = none) (h : t.store.Linked) :
    (p.step db t now record).1.store.Linked := by
  cases p with
  | request r =>
    cases r with
    | search params => exact h
    | addNodes nodes param =>
      simp only [Pending.step]
      split
      · exact h
      · exact h
    | state call => exact h
  | adding ns nodes createdCount =>
    cases nodes with
    | nil => exact h
    | cons node nodes =>
      simp only [Pending.step, addStep]
      split
      · exact h
      · rename_i new _
        intro e he
        obtain he | he := List.mem_append.mp he
        · obtain ⟨row, hget, hns⟩ := h e he
          have hne : e.node ≠ record := by
            rintro heq
            rw [heq, hfresh] at hget
            cases hget
          exact ⟨row, (Table.get_insert_ne hne).trans hget, hns⟩
        · unfold NewNode.embeddingRows at he
          split at he
          · cases he
          · rw [List.mem_singleton.mp he]
            exact ⟨new.row ns, Table.get_insert_self, rfl⟩
  | state call begun => exact h

/-- A request that finds something is a search. -/
theorem step_found (hlinked : t.store.Linked) {reply : SearchReply F}
    (h : (p.step db t now record).2 = .inr (.ok (.found reply))) (hit : Hit F)
    (hhit : hit ∈ reply.results) : Shows p.namespace_ t.store hit := by
  have hstate : ∀ call begun, (stateStep db t call begun now).2 ≠ .inr (.ok (.found reply)) := by
    intro call begun heq
    simp only [stateStep] at heq
    split at heq
    · cases heq
    · rename_i answer _
      cases answer <;> cases Sum.inr.inj heq
  cases p with
  | request r =>
    cases r with
    | search params =>
      have hmap := Sum.inr.inj h
      cases hrun : run db.engine db.config t.store params with
      | error e =>
        rw [hrun] at hmap
        cases hmap
      | ok found =>
        rw [hrun] at hmap
        cases hmap
        exact run_shows hlinked hrun hit hhit
    | addNodes nodes param =>
      simp only [Pending.step] at h
      split at h
      · cases h
      · cases h
    | state call => exact absurd h (hstate call false)
  | adding ns nodes createdCount =>
    cases nodes with
    | nil => cases h
    | cons node nodes =>
      simp only [Pending.step, addStep] at h
      split at h
      · cases h
      · cases h
  | state call begun => exact absurd h (hstate call begun)

end Steps

/-! ## Replies -/

namespace MemoryService

/-- A memory in order, and nobody has asked for anything yet. -/
structure Fresh {F : Type} (s : MemoryService F) : Prop where
  idle : s.Idle
  replies : s.replies = []
  linked : s.tables.store.Linked

section Replies
variable {F : Type} {db : Backend F} {session : McpSession} {s s' : MemoryService F} {m : MemoryMove}

/-- Embeddings belong to nodes of their namespace, the session asks for its own namespace, and what it
was shown is there. -/
structure Contained (s : MemoryService F) : Prop where
  linked : s.tables.store.Linked
  own : ∀ id p, s.session.get id = some p → p.2.namespace_ = mcpNamespace
  shown : ∀ r ∈ s.replies, ∀ reply, r.2 = .answered (.found reply) →
    ∀ hit ∈ reply.results, Shows mcpNamespace s.tables.store hit

theorem Contained.advance (h : s.Contained) {id : ℕ} {now : Time} {record : RecordId}
    (hs : s.apply db session (.advance id now record) = some s') : s'.Contained := by
  rw [apply, Option.ite_none_left_eq_some] at hs
  obtain ⟨hfresh, hs⟩ := hs
  rw [Bool.not_eq_true, Option.isSome_eq_false_iff, Option.isNone_iff_eq_none] at hfresh
  obtain ⟨p, hp, rfl⟩ := Option.map_eq_some_iff.mp hs
  have hns := h.own id p hp
  have hlinked : (p.2.step db s.tables now record).1.store.Linked := step_linked hfresh h.linked
  have hshown : ∀ r ∈ s.replies, ∀ reply, r.2 = .answered (.found reply) → ∀ hit ∈ reply.results,
      Shows mcpNamespace (p.2.step db s.tables now record).1.store hit :=
    fun r hr reply heq hit hhit => (h.shown r hr reply heq hit hhit).step hfresh
  unfold settle
  cases hprogress : (p.2.step db s.tables now record).2 with
  | inl rest =>
    refine ⟨hlinked, ?_, hshown⟩
    intro j q hq
    by_cases hj : j = id
    · rw [hj, Table.get_insert_self, Option.some.injEq] at hq
      rw [← hq]
      exact (step_rest now record hprogress).1.trans hns
    · rw [Table.get_insert_ne hj] at hq
      exact h.own j q hq
  | inr answer =>
    refine ⟨hlinked, ?_, ?_⟩
    · intro j q hq
      have hmem := (Table.mem_remove.mp (Table.get_eq_some_iff.mp hq)).2
      exact h.own j q (Table.get_eq_some_iff.mpr hmem)
    · intro r hr reply heq hit hhit
      obtain hr | hr := List.mem_append.mp hr
      · exact hshown r hr reply heq hit hhit
      · rw [List.mem_singleton] at hr
        subst hr
        cases answer with
        | error e => cases heq
        | ok found =>
          cases heq
          exact (hns ▸ step_found h.linked hprogress hit hhit : Shows _ _ hit).step hfresh

theorem Contained.step (h : s.Contained) (hs : s.apply db session m = some s') : s'.Contained := by
  cases m with
  | call id c =>
    rw [apply, Option.ite_none_left_eq_some] at hs
    obtain ⟨r, hr, rfl⟩ := Option.map_eq_some_iff.mp hs.2
    cases r with
    | inl early =>
      refine ⟨h.linked, h.own, ?_⟩
      intro r hmem reply heq hit hhit
      obtain hmem | hmem := List.mem_append.mp hmem
      · exact h.shown r hmem reply heq hit hhit
      · rw [List.mem_singleton] at hmem
        subst hmem
        exact absurd hr (McpSession.request_early heq)
    | inr p =>
      refine ⟨h.linked, ?_, h.shown⟩
      intro j q hq
      by_cases hj : j = id
      · rw [hj, Table.get_insert_self, Option.some.injEq] at hq
        rw [← hq]
        exact McpSession.request_namespace hr
      · rw [Table.get_insert_ne hj] at hq
        exact h.own j q hq
  | advance id now record => exact h.advance hs
  | otherCall id request =>
    rw [apply, Option.ite_none_left_eq_some, Option.some.injEq] at hs
    exact hs.2 ▸ ⟨h.linked, h.own, h.shown⟩
  | otherAdvance id now record =>
    rw [apply, Option.ite_none_left_eq_some] at hs
    obtain ⟨hfresh, hs⟩ := hs
    rw [Bool.not_eq_true, Option.isSome_eq_false_iff, Option.isNone_iff_eq_none] at hfresh
    obtain ⟨p, hp, rfl⟩ := Option.map_eq_some_iff.mp hs
    exact ⟨step_linked hfresh h.linked, h.own,
      fun r hr reply heq hit hhit => (h.shown r hr reply heq hit hhit).step hfresh⟩

end Replies

/-- In every run, whatever the other users of the memory do, a search of the session only ever shows it
nodes of its own namespace, in every search mode and for every payload. -/
theorem session_sees_own {F : Type} (db : Backend F) (session : McpSession) {s : MemoryService F}
    (h : Reaches (fun s m s' => s.apply db session m = some s') Fresh s) :
    ∀ r ∈ s.replies, ∀ reply, r.2 = .answered (.found reply) →
      ∀ hit ∈ reply.results, Shows mcpNamespace s.tables.store hit := by
  have hinit : ∀ s : MemoryService F, s.Fresh → s.Contained := by
    intro s hs
    refine ⟨hs.linked, ?_, ?_⟩
    · intro id p hp
      rw [hs.idle.session] at hp
      cases hp
    · rw [hs.replies]
      intro r hr
      cases hr
  have hcontained : s.Contained := Reaches.invariant hinit (fun s m s' _ hi hs => hi.step hs) h
  exact hcontained.shown

theorem session_sees_own_shared : ∃ s : MemoryService ℕ, sharedRun = some s ∧ s.replies.length = 2 ∧
    ∀ r ∈ s.replies, ∀ reply, r.2 = .answered (.found reply) →
      ∀ hit ∈ reply.results, Shows mcpNamespace s.tables.store hit := by
  obtain ⟨s, hs⟩ := sharedRun_ends
  have hreplies : ∀ s ∈ sharedRun, s.replies.length = 2 := by decide +kernel
  have hfresh : emptyService.Fresh := by
    refine ⟨⟨rfl, rfl⟩, rfl, ?_⟩
    intro e he
    cases he
  exact ⟨s, hs, hreplies s hs, session_sees_own sampleBackend sampleSession
    (exec_reaches (fun _ _ _ h => h) (.start hfresh) hs)⟩

end MemoryService
end Konf.Memory
