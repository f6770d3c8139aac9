import Mathlib.Data.List.AList
import Mathlib.Data.List.Sort
import Konf.Memory.Nodes

/-! # Searching

Model of `konf-tool-memory-surreal/src/search.rs`. The clauses of the `SELECT`s are those of the code; how
SurrealDB matches, scores and finds the nearest vectors, and the arithmetic of the scores, are
parameters. -/

namespace Konf.Memory
set_option autoImplicit false

structure SearchParams where
  query : Option String
  mode : Option String
  limit : Option ℤ
  namespace_ : Option String
  nodeType : Option String
  metadataFilter : Option Json

structure SearchConfig where
  vectorDimension : ℕ
  rrfK : ℤ
  hybridCandidatePool : ℤ
  defaultLimit : ℤ

/-- A row of the results. The fields are missing when an embedding refers to no node. -/
structure Hit (F : Type) where
  id : Option RecordId
  nodeType : Option String
  content : Option String
  metadata : Option Json
  score : F

/-- What the code takes from SurrealDB and the standard library. `nearest k ef q` are the rows that the
operator `<|k,ef|>` selects; `intoValues` is the order of a hash map. There is one text index for all
namespaces, and `textScore` depends on all the texts in it. -/
structure Engine (F : Type) where
  toLowercase : String → String
  isMatch : String → String → Bool
  textScore : List String → String → String → F
  similarity : List JsonNumber → List JsonNumber → F
  le : F → F → Bool
  contribution : ℤ → ℕ → F
  add : F → F → F
  nearest : ℕ → ℤ → List JsonNumber → List EmbeddingRow → List EmbeddingRow
  nearest_subperm : ∀ k ef q rows, (nearest k ef q rows).Subperm rows
  nearest_length : ∀ k ef q rows, (nearest k ef q rows).length = min k rows.length
  nearest_mono : ∀ k k' ef q rows, k ≤ k' → nearest k ef q rows ⊆ nearest k' ef q rows
  intoValues : List (F × Hit F) → List (F × Hit F)
  intoValues_perm : ∀ l, (intoValues l).Perm l

structure SearchReply (F : Type) where
  results : List (Hit F)
  mode : String
  namespace_ : String
  count : ℕ
  fusion : Option (ℤ × ℤ)

section Queries
variable {F : Type} (eng : Engine F) (cfg : SearchConfig) (s : Store) (params : SearchParams)

/-- `limit.unwrap_or(default_limit).max(1)` -/
def SearchParams.effectiveLimit : ℤ := max (params.limit.getD cfg.defaultLimit) 1

/-- `hybrid_candidate_pool.max(limit)` -/
def SearchParams.pool : ℤ := max cfg.hybridCandidatePool (params.effectiveLimit cfg)

def extractQueryVector : Except MemoryError (Option (List JsonNumber)) :=
  match (params.metadataFilter.bind (·.get "query_vector")).bind Json.asArray with
  | none => .ok none
  | some arr =>
    let vec := arr.filterMap Json.asNumber
    if vec.length ≠ arr.length then
      .error (.validation "metadata_filter.query_vector must be an array of numbers")
    else if vec.length ≠ cfg.vectorDimension then
      .error (.validation ("query_vector has " ++ toString vec.length ++ " dims, expected " ++
        toString cfg.vectorDimension))
    else .ok (some vec)

/-- `ORDER BY score DESC LIMIT n` -/
def orderLimit (n : ℤ) (rows : List (Hit F)) : List (Hit F) :=
  (rows.insertionSort fun a b => eng.le b.score a.score = true).take n.toNat

/-- What the full-text index holds. -/
def Store.texts : List String := s.nodes.rows.map fun r => r.2.content

def textHits (query ns : String) : List (Hit F) :=
  (s.nodes.rows.filter fun r => decide (r.2.namespace_ = ns) && !r.2.isRetracted &&
      eng.isMatch query r.2.content && params.nodeType.all (r.2.nodeType = ·)).map fun r =>
    ⟨some r.1, some r.2.nodeType, some r.2.content, some r.2.metadata,
      eng.textScore s.texts query r.2.content⟩

def textSearch : Except MemoryError (SearchReply F) :=
  match params.query with
  | none => .error (.validation "text search requires `query`")
  | some query =>
    let ns := resolveNamespace params.namespace_
    let rows := orderLimit eng (params.effectiveLimit cfg) (textHits eng s params query ns)
    .ok ⟨rows, "text", ns, rows.length, none⟩

/-- The row of an embedding: its `node` link is followed. -/
def vectorHit (qv : List JsonNumber) (e : EmbeddingRow) : Hit F :=
  let node := s.nodes.get e.node
  ⟨node.map fun _ => e.node, node.map NodeRow.nodeType, node.map NodeRow.content,
    node.map NodeRow.metadata, eng.similarity e.embedding qv⟩

def vectorHits (qv : List JsonNumber) (ns : String) (k : ℕ) (ef : ℤ) : List (Hit F) :=
  ((eng.nearest k ef qv s.embeddings).filter fun e => e.namespace_ = ns).map (vectorHit eng s qv)

def vectorSearch (queryVector : Option (List JsonNumber)) : Except MemoryError (SearchReply F) :=
  match queryVector with
  | none => .error (.validation
      "vector search requires `metadata_filter.query_vector` (pre-embedded query)")
  | some qv =>
    let ns := resolveNamespace params.namespace_
    let limit := params.effectiveLimit cfg
    let rows := orderLimit eng limit (vectorHits eng s qv ns limit.toNat (params.pool cfg))
    .ok ⟨rows, "vector", ns, rows.length, none⟩

abbrev Fused (F : Type) : Type := AList (fun _ : Option RecordId => F × Hit F)

/-- `fused.entry(id).and_modify(..).or_insert(..)` -/
def Fused.enter (fused : Fused F) (contribution : F) (row : Hit F) : Fused F :=
  match fused.lookup row.id with
  | some (score, old) => fused.insert row.id (eng.add score contribution, old)
  | none => fused.insert row.id (contribution, row)

def Fused.enterAll (fused : Fused F) (rows : List (Hit F)) : Fused F :=
  rows.zipIdx.foldl (fun fused r => fused.enter eng (eng.contribution cfg.rrfK r.2) r.1) fused

def fuse (textRows vecRows : List (Hit F)) : Fused F :=
  ((∅ : Fused F).enterAll eng cfg textRows).enterAll eng cfg vecRows

/-- The entries in the order of their scores, which take the place of the rows' own. -/
def topFused (n : ℤ) (fused : Fused F) : List (Hit F) :=
  let ranked := (eng.intoValues (fused.entries.map Sigma.snd)).insertionSort fun a b =>
    eng.le b.1 a.1 = true
  (ranked.take n.toNat).map fun r => { r.2 with score := r.1 }

def rrfFuse (qv : List JsonNumber) : Except MemoryError (SearchReply F) := do
  let ns := resolveNamespace params.namespace_
  let limit := params.effectiveLimit cfg
  let pool := params.pool cfg
  let text ← textSearch eng cfg s { params with limit := some pool }
  let vec ← vectorSearch eng cfg s { params with limit := some pool } (some qv)
  let results := topFused eng limit (fuse eng cfg text.results vec.results)
  .ok ⟨results, "hybrid", ns, results.length, some (cfg.rrfK, pool)⟩

def hybridSearch (queryVector : Option (List JsonNumber)) : Except MemoryError (SearchReply F) :=
  match params.query, queryVector with
  | none, none => .error (.validation
      "hybrid search requires either `query` or `metadata_filter.query_vector` or both")
  | some _, none => textSearch eng cfg s params
  | none, some qv => vectorSearch eng cfg s params (some qv)
  | some _, some qv => rrfFuse eng cfg s params qv

def run : Except MemoryError (SearchReply F) := do
  let mode := eng.toLowercase (params.mode.getD "text")
  let queryVector ← extractQueryVector cfg params
  if mode = "text" then textSearch eng cfg s params
  else if mode = "vector" then vectorSearch eng cfg s params queryVector
  else if mode = "hybrid" then hybridSearch eng cfg s params queryVector
  else .error (.unsupported
    ("unknown search mode `" ++ mode ++ "` — supported: text, vector, hybrid"))

/-! ## What every mode is to honour -/

/-- A node of the namespace that is not retracted and has the type that is asked for. -/
def Admitted (ns : String) (id : Option RecordId) : Prop :=
  ∃ i ∈ id, ∃ node ∈ s.nodes.get i, node.namespace_ = ns ∧ node.isRetracted = false ∧
    ∀ t ∈ params.nodeType, node.nodeType = t

/-- The row is a result of the text query or of the vector query for the candidate pool, but for its
score. -/
def FromPool (hit : Hit F) : Prop :=
  ∃ reply row, (textSearch eng cfg s { params with limit := some (params.pool cfg) } = .ok reply ∨
      ∃ qv, extractQueryVector cfg params = .ok (some qv) ∧
        vectorSearch eng cfg s { params with limit := some (params.pool cfg) } (some qv) = .ok reply) ∧
    row ∈ reply.results ∧ hit = { row with score := hit.score }

structure Honours (reply : SearchReply F) : Prop where
  admitted : ∀ hit ∈ reply.results, Admitted s params (resolveNamespace params.namespace_) hit.id
  distinct : (reply.results.map Hit.id).Nodup
  limited : (reply.results.length : ℤ) ≤ max 1 (params.limit.getD cfg.defaultLimit)
  pooled : eng.toLowercase (params.mode.getD "text") = "hybrid" →
    ∀ hit ∈ reply.results, FromPool eng cfg s params hit

/-- Every reply honours the filters, whatever the limit. -/
def FiltersHonoured : Prop :=
  ∀ limit reply, run eng cfg s { params with limit := limit } = .ok reply →
    Honours eng cfg s { params with limit := limit } reply

/-- The vector query is made, and is the only one. -/
def VectorAlone : Prop :=
  (∃ qv, extractQueryVector cfg params = .ok (some qv)) ∧
    (eng.toLowercase (params.mode.getD "text") = "vector" ∨
      eng.toLowercase (params.mode.getD "text") = "hybrid" ∧ params.query = none)

/-- Both queries are made. -/
def BothQueries : Prop :=
  (∃ qv, extractQueryVector cfg params = .ok (some qv)) ∧
    eng.toLowercase (params.mode.getD "text") = "hybrid" ∧ params.query ≠ none

/-- The embeddings of the namespace belong to nodes that the filters let through. -/
def EmbeddingsAdmitted : Prop :=
  ∀ e ∈ s.embeddings, e.namespace_ = resolveNamespace params.namespace_ →
    Admitted s params (resolveNamespace params.namespace_) (some e.node)

/-- No node has two embeddings in the namespace. -/
def EmbeddingsDistinct : Prop :=
  ((s.embeddings.filter fun e => e.namespace_ = resolveNamespace params.namespace_).map
    EmbeddingRow.node).Nodup

end Queries
section Lists
variable {F : Type} {eng : Engine F} {n n' : ℤ} {rows rows' : List (Hit F)}

theorem mem_of_mem_orderLimit {hit : Hit F} (h : hit ∈ orderLimit eng n rows) : hit ∈ rows :=
  (List.mem_insertionSort _).mp (List.mem_of_mem_take h)

theorem orderLimit_length (hn : 1 ≤ n) : ((orderLimit eng n rows).length : ℤ) ≤ n := by
  have hle : (orderLimit eng n rows).length ≤ n.toNat := List.length_take_le _ _
  omega

theorem orderLimit_length_le : (orderLimit eng n rows).length ≤ rows.length := by
  rw [orderLimit, List.length_take, List.length_insertionSort]
  exact min_le_right _ _

theorem orderLimit_distinct (h : (rows.map Hit.id).Nodup) :
    ((orderLimit eng n rows).map Hit.id).Nodup := by
  have hsorted := ((List.perm_insertionSort (fun a b : Hit F => eng.le b.score a.score = true) rows).map
    Hit.id).nodup_iff.mpr h
  exact hsorted.sublist ((List.take_sublist _ _).map _)

/-- A limit that is large enough cuts nothing off. -/
theorem orderLimit_perm (h : (rows.length : ℤ) ≤ n) : (orderLimit eng n rows).Perm rows := by
  unfold orderLimit
  rw [List.take_of_length_le]
  · exact List.perm_insertionSort _ _
  · rw [List.length_insertionSort]
    omega

theorem orderLimit_mono (h : n ≤ n') : orderLimit eng n rows ⊆ orderLimit eng n' rows :=
  List.take_subset_take_left _ (Int.toNat_le_toNat h)

end Lists

section Texts
variable {F : Type} {eng : Engine F} {cfg : SearchConfig} {s : Store} {params : SearchParams}
  {query ns : String}

theorem textHits_admitted {hit : Hit F} (h : hit ∈ textHits eng s params query ns) :
    Admitted s params ns hit.id := by
  obtain ⟨r, hr, rfl⟩ := List.mem_map.mp h
  obtain ⟨hrow, hclauses⟩ := List.mem_filter.mp hr
  simp only [Bool.and_eq_true, decide_eq_true_eq, Bool.not_eq_true'] at hclauses
  obtain ⟨⟨⟨hns, hretracted⟩, -⟩, htype⟩ := hclauses
  refine ⟨r.1, rfl, r.2, Table.get_eq_some_iff.mpr hrow, hns, hretracted, ?_⟩
  intro t ht
  rw [Option.mem_def.mp ht] at htype
  exact of_decide_eq_true htype

theorem textHits_distinct : ((textHits eng s params query ns).map Hit.id).Nodup := by
  have hkeys : (s.nodes.rows.map fun r => (some r.1 : Option RecordId)).Nodup := by
    have hmap := s.nodes.keys_nodup.map (Option.some_injective RecordId)
    rwa [List.map_map] at hmap
  unfold textHits
  rw [List.map_map]
  exact hkeys.sublist (List.filter_sublist.map _)

end Texts

section Vectors
variable {F : Type} {eng : Engine F} {cfg : SearchConfig} {s : Store} {params : SearchParams}
  {qv : List JsonNumber} {ns : String} {k k' : ℕ} {ef : ℤ}

theorem vectorHit_id_of_get {e : EmbeddingRow} {node : NodeRow} (h : s.nodes.get e.node = some node) :
    (vectorHit eng s qv e).id = some e.node := by
  simp [vectorHit, h]

theorem vectorHit_admitted {e : EmbeddingRow} :
    Admitted s params ns (vectorHit eng s qv e).id ↔ Admitted s params ns (some e.node) := by
  cases hnode : s.nodes.get e.node with
  | none =>
    have hid : (vectorHit eng s qv e).id = none := by simp [vectorHit, hnode]
    rw [hid]
    constructor
    · rintro ⟨i, hi, -⟩
      cases hi
    · rintro ⟨i, hi, node, hget, -⟩
      cases hi
      rw [hnode] at hget
      cases hget
  | some node => rw [vectorHit_id_of_get hnode]

theorem mem_vectorHits {hit : Hit F} (h : hit ∈ vectorHits eng s qv ns k ef) :
    ∃ e ∈ s.embeddings, e.namespace_ = ns ∧ hit = vectorHit eng s qv e := by
  obtain ⟨e, he, rfl⟩ := List.mem_map.mp h
  obtain ⟨hnear, hns⟩ := List.mem_filter.mp he
  exact ⟨e, (eng.nearest_subperm _ _ _ _).subset hnear, of_decide_eq_true hns, rfl⟩

theorem vectorHits_of_le (h : s.embeddings.length ≤ k) : (vectorHits eng s qv ns k ef).Perm
    ((s.embeddings.filter fun e => e.namespace_ = ns).map (vectorHit eng s qv)) := by
  have hlength : s.embeddings.length ≤ (eng.nearest k ef qv s.embeddings).length := by
    rw [eng.nearest_length]
    omega
  exact (((eng.nearest_subperm _ _ _ _).perm_of_length_le hlength).filter _).map _

theorem vectorHits_length_le : (vectorHits eng s qv ns k ef).length ≤ min k s.embeddings.length := by
  rw [vectorHits, List.length_map, ← eng.nearest_length k ef qv]
  exact List.length_filter_le _ _

theorem vectorHits_mono (h : k ≤ k') : vectorHits eng s qv ns k ef ⊆ vectorHits eng s qv ns k' ef := by
  intro hit hhit
  obtain ⟨e, he, rfl⟩ := List.mem_map.mp hhit
  obtain ⟨hnear, hns⟩ := List.mem_filter.mp he
  exact List.mem_map_of_mem (List.mem_filter.mpr ⟨eng.nearest_mono k k' ef qv _ h hnear, hns⟩)

/-- Where the embeddings are those of admitted nodes, their rows have their nodes' ids. -/
theorem vectorHits_ids (h : EmbeddingsAdmitted s params) {es : List EmbeddingRow}
    (hsub : es ⊆ s.embeddings) :
    ((es.filter fun e => e.namespace_ = resolveNamespace params.namespace_).map
      (vectorHit eng s qv)).map Hit.id =
    ((es.filter fun e => e.namespace_ = resolveNamespace params.namespace_).map EmbeddingRow.node).map
      some := by
  rw [List.map_map, List.map_map]
  refine List.map_congr_left ?_
  intro e he
  obtain ⟨hmem, hns⟩ := List.mem_filter.mp he
  obtain ⟨i, hi, node, hnode, -⟩ := h e (hsub hmem) (of_decide_eq_true hns)
  cases hi
  exact vectorHit_id_of_get hnode

end Vectors

section Fusion
variable {F : Type} {eng : Engine F} {cfg : SearchConfig} {rows : List (Hit F)} {fused : Fused F}

/-- Every entry is one of the rows, under its own id. -/
def Fused.Holds (fused : Fused F) (rows : List (Hit F)) : Prop :=
  ∀ k v, fused.lookup k = some v → v.2.id = k ∧ v.2 ∈ rows

theorem Fused.Holds.enter (h : fused.Holds rows) {row : Hit F} (hrow : row ∈ rows) (c : F) :
    (fused.enter eng c row).Holds rows := by
  have hinsert : ∀ score old, old.id = row.id → old ∈ rows →
      Fused.Holds (fused.insert row.id (score, old)) rows := by
    intro score old hid hold k v hv
    by_cases hk : k = row.id
    · rw [hk, AList.lookup_insert] at hv
      cases hv
      exact ⟨hid.trans hk.symm, hold⟩
    · rw [AList.lookup_insert_ne hk] at hv
      exact h k v hv
  unfold Fused.enter
  split
  · rename_i score old hold
    obtain ⟨hid, hmem⟩ := h _ _ hold
    exact hinsert _ old hid hmem
  · exact hinsert c row rfl hrow

theorem Fused.mem_enter {row : Hit F} {c : F} {k : Option RecordId} :
    k ∈ fused.enter eng c row ↔ k = row.id ∨ k ∈ fused := by
  unfold Fused.enter
  split <;> exact AList.mem_insert _

theorem Fused.Holds.foldl (h : fused.Holds rows) (ps : List (Hit F × ℕ)) (hps : ∀ p ∈ ps, p.1 ∈ rows) :
    Fused.Holds (ps.foldl (fun fused r => fused.enter eng (eng.contribution cfg.rrfK r.2) r.1) fused)
      rows := by
  induction ps generalizing fused with
  | nil => exact h
  | cons p ps ih =>
    exact ih (h.enter (hps p List.mem_cons_self) _) fun p hp => hps p (List.mem_cons_of_mem _ hp)

theorem Fused.mem_foldl {k : Option RecordId} (ps : List (Hit F × ℕ)) :
    k ∈ ps.foldl (fun fused r => fused.enter eng (eng.contribution cfg.rrfK r.2) r.1) fused ↔
      k ∈ fused ∨ ∃ p ∈ ps, p.1.id = k := by
  induction ps generalizing fused with
  | nil => simp
  | cons p ps ih =>
    rw [List.foldl_cons, ih, Fused.mem_enter]
    simp only [List.exists_mem_cons_iff]
    rw [eq_comm (a := k), or_comm (a := p.1.id = k), or_assoc]

variable {textRows vecRows : List (Hit F)}

theorem fuse_holds : (fuse eng cfg textRows vecRows).Holds (textRows ++ vecRows) := by
  have hempty : Fused.Holds (∅ : Fused F) (textRows ++ vecRows) := by
    intro k v hv
    cases hv
  refine (hempty.foldl _ ?_).foldl _ ?_
  · intro p hp
    exact List.mem_append_left _ (List.fst_mem_of_mem_zipIdx hp)
  · intro p hp
    exact List.mem_append_right _ (List.fst_mem_of_mem_zipIdx hp)

theorem exists_mem_zipIdx {k : Option RecordId} :
    (∃ p ∈ rows.zipIdx, p.1.id = k) ↔ ∃ row ∈ rows, row.id = k := by
  constructor
  · rintro ⟨p, hp, hid⟩
    exact ⟨p.1, List.fst_mem_of_mem_zipIdx hp, hid⟩
  · rintro ⟨row, hrow, hid⟩
    rw [← List.zipIdx_map_fst 0 rows] at hrow
    obtain ⟨p, hp, rfl⟩ := List.mem_map.mp hrow
    exact ⟨p, hp, hid⟩

/-- Every row has its id among the entries. -/
theorem mem_fuse {k : Option RecordId} : k ∈ fuse eng cfg textRows vecRows ↔
    ∃ row ∈ textRows ++ vecRows, row.id = k := by
  unfold fuse Fused.enterAll
  rw [Fused.mem_foldl, Fused.mem_foldl, exists_mem_zipIdx, exists_mem_zipIdx]
  simp only [AList.notMem_empty, false_or, List.mem_append, or_and_right, exists_or]

theorem fuse_entry {r : F × Hit F}
    (h : r ∈ (fuse eng cfg textRows vecRows).entries.map Sigma.snd) : r.2 ∈ textRows ++ vecRows := by
  obtain ⟨⟨k, v⟩, hkv, rfl⟩ := List.mem_map.mp h
  exact (fuse_holds k v (AList.mem_lookup_iff.mpr hkv)).2

/-- The ids of the entries are their keys. -/
theorem fuse_ids : ((fuse eng cfg textRows vecRows).entries.map Sigma.snd).map (fun r => r.2.id) =
    (fuse eng cfg textRows vecRows).keys := by
  rw [List.map_map]
  refine List.map_congr_left ?_
  rintro ⟨k, v⟩ hkv
  exact (fuse_holds k v (AList.mem_lookup_iff.mpr hkv)).1

theorem mem_topFused {n : ℤ} {hit : Hit F} (h : hit ∈ topFused eng n fused) :
    ∃ r ∈ fused.entries.map Sigma.snd, hit = { r.2 with score := r.1 } := by
  obtain ⟨r, hr, rfl⟩ := List.mem_map.mp h
  have hvalues := (List.mem_insertionSort _).mp (List.mem_of_mem_take hr)
  exact ⟨r, (eng.intoValues_perm _).mem_iff.mp hvalues, rfl⟩

theorem topFused_length {n : ℤ} (hn : 1 ≤ n) : ((topFused eng n fused).length : ℤ) ≤ n := by
  have hle : (topFused eng n fused).length ≤ n.toNat := by
    rw [topFused, List.length_map]
    exact List.length_take_le _ _
  omega

theorem topFused_distinct (n : ℤ) :
    ((topFused eng n (fuse eng cfg textRows vecRows)).map Hit.id).Nodup := by
  have hkeys : (((fuse eng cfg textRows vecRows).entries.map Sigma.snd).map fun r => r.2.id).Nodup := by
    rw [fuse_ids]
    exact AList.keys_nodup _
  have hperm := ((List.perm_insertionSort (fun a b : F × Hit F => eng.le b.1 a.1 = true) _).trans
    (eng.intoValues_perm ((fuse eng cfg textRows vecRows).entries.map Sigma.snd))).map fun r => r.2.id
  unfold topFused
  rw [List.map_map]
  exact (hperm.nodup_iff.mpr hkeys).sublist ((List.take_sublist _ _).map _)

/-- There are no more entries than rows. -/
theorem fuse_length_le :
    (fuse eng cfg textRows vecRows).entries.length ≤ (textRows ++ vecRows).length := by
  have hsubset : (fuse eng cfg textRows vecRows).keys ⊆ (textRows ++ vecRows).map Hit.id := by
    intro k hk
    obtain ⟨row, hrow, hid⟩ := mem_fuse.mp (AList.mem_keys.mpr hk)
    exact List.mem_map.mpr ⟨row, hrow, hid⟩
  have hle := (List.subperm_of_subset (AList.keys_nodup _) hsubset).length_le
  rwa [AList.keys, List.keys, List.length_map, List.length_map] at hle

/-- A limit that is large enough leaves every id in. -/
theorem topFused_all {n : ℤ} (hn : ((textRows ++ vecRows).length : ℤ) ≤ n) {row : Hit F}
    (hrow : row ∈ textRows ++ vecRows) :
    ∃ hit ∈ topFused eng n (fuse eng cfg textRows vecRows), hit.id = row.id := by
  have hkey : row.id ∈ fuse eng cfg textRows vecRows := mem_fuse.mpr ⟨row, hrow, rfl⟩
  obtain ⟨v, hv⟩ := Option.isSome_iff_exists.mp (AList.lookup_isSome.mpr hkey)
  have hvalue : v ∈ (fuse eng cfg textRows vecRows).entries.map Sigma.snd :=
    List.mem_map.mpr ⟨⟨row.id, v⟩, AList.mem_lookup_iff.mp hv, rfl⟩
  have hlength : (fuse eng cfg textRows vecRows).entries.length ≤ (textRows ++ vecRows).length :=
    fuse_length_le
  have hperm := eng.intoValues_perm ((fuse eng cfg textRows vecRows).entries.map Sigma.snd)
  refine ⟨{ v.2 with score := v.1 }, List.mem_map.mpr ⟨v, ?_, rfl⟩, (fuse_holds _ v hv).1⟩
  rw [List.take_of_length_le]
  · exact (List.mem_insertionSort _).mpr (hperm.mem_iff.mpr hvalue)
  · rw [List.length_insertionSort, hperm.length_eq, List.length_map]
    omega

end Fusion

section Replies
variable {F : Type} {eng : Engine F} {cfg : SearchConfig} {s : Store} {params : SearchParams}
  {reply : SearchReply F} {qv : List JsonNumber}

theorem one_le_effectiveLimit : 1 ≤ params.effectiveLimit cfg := le_max_right _ _

theorem effectiveLimit_le_pool : params.effectiveLimit cfg ≤ params.pool cfg := le_max_right _ _

theorem effectiveLimit_some {n : ℤ} (h : 1 ≤ n) :
    { params with limit := some n }.effectiveLimit cfg = n := max_eq_left h

/-- Asking for the pool asks for exactly as many. -/
theorem effectiveLimit_pool : { params with limit := some (params.pool cfg) }.effectiveLimit cfg =
    params.pool cfg := by
  have hlimit : 1 ≤ params.effectiveLimit cfg := one_le_effectiveLimit
  have hpool : params.effectiveLimit cfg ≤ params.pool cfg := effectiveLimit_le_pool
  exact effectiveLimit_some (hlimit.trans hpool)

theorem pool_pool : { params with limit := some (params.pool cfg) }.pool cfg = params.pool cfg := by
  unfold SearchParams.pool
  rw [show ({ params with limit := some (max cfg.hybridCandidatePool (params.effectiveLimit cfg)) } :
    SearchParams).effectiveLimit cfg = params.pool cfg from effectiveLimit_pool]
  exact max_eq_right (le_max_left _ _)

theorem textSearch_query {query : String} (h : params.query = some query) :
    ∃ reply, textSearch eng cfg s params = .ok reply ∧
      reply.results = orderLimit eng (params.effectiveLimit cfg)
        (textHits eng s params query (resolveNamespace params.namespace_)) := by
  unfold textSearch
  rw [h]
  exact ⟨_, rfl, rfl⟩

theorem textSearch_ok (h : textSearch eng cfg s params = .ok reply) : ∃ query,
    params.query = some query ∧ reply.results = orderLimit eng (params.effectiveLimit cfg)
      (textHits eng s params query (resolveNamespace params.namespace_)) := by
  cases hquery : params.query with
  | none => simp [textSearch, hquery] at h
  | some query =>
    obtain ⟨reply', hreply, hresults⟩ : ∃ reply', textSearch eng cfg s params = .ok reply' ∧
      reply'.results = _ := textSearch_query hquery
    rw [hreply] at h
    cases h
    exact ⟨query, rfl, hresults⟩

theorem vectorSearch_ok (h : vectorSearch eng cfg s params (some qv) = .ok reply) :
    reply.results = orderLimit eng (params.effectiveLimit cfg) (vectorHits eng s qv
      (resolveNamespace params.namespace_) (params.effectiveLimit cfg).toNat (params.pool cfg)) := by
  cases h
  rfl

/-- The text query for the candidate pool. -/
theorem textSearch_pool {query : String} (h : params.query = some query) :
    ∃ reply, textSearch eng cfg s { params with limit := some (params.pool cfg) } = .ok reply ∧
      reply.results = orderLimit eng (params.pool cfg)
        (textHits eng s params query (resolveNamespace params.namespace_)) := by
  have hpool : ∃ reply, textSearch eng cfg s { params with limit := some (params.pool cfg) } =
      .ok reply ∧ reply.results = orderLimit eng _ _ := textSearch_query h
  rw [effectiveLimit_pool] at hpool
  exact hpool

/-- The vector query for the candidate pool. -/
theorem vectorSearch_pool (qv : List JsonNumber) :
    ∃ reply, vectorSearch eng cfg s { params with limit := some (params.pool cfg) } (some qv) =
        .ok reply ∧
      reply.results = orderLimit eng (params.pool cfg) (vectorHits eng s qv
        (resolveNamespace params.namespace_) (params.pool cfg).toNat (params.pool cfg)) := by
  refine ⟨_, rfl, ?_⟩
  simp only [effectiveLimit_pool, pool_pool]

/-- The text query honours the filters. -/
theorem honours_text (h : textSearch eng cfg s params = .ok reply) :
    Honours eng cfg s params reply := by
  obtain ⟨query, hquery, hresults⟩ := textSearch_ok h
  refine ⟨?_, ?_, ?_, ?_⟩
  · intro hit hhit
    rw [hresults] at hhit
    exact textHits_admitted (mem_of_mem_orderLimit hhit)
  · rw [hresults]
    exact orderLimit_distinct textHits_distinct
  · rw [hresults, max_comm]
    exact orderLimit_length one_le_effectiveLimit
  · intro _ hit hhit
    rw [hresults] at hhit
    obtain ⟨pool, hpool, hcandidates⟩ := textSearch_pool hquery
    refine ⟨pool, hit, .inl hpool, ?_, rfl⟩
    rw [hcandidates]
    exact orderLimit_mono effectiveLimit_le_pool hhit

theorem mem_vectorPool {hit : Hit F} {n : ℕ} (hn : n ≤ (params.pool cfg).toNat)
    (h : hit ∈ vectorHits eng s qv (resolveNamespace params.namespace_) n (params.pool cfg)) :
    hit ∈ orderLimit eng (params.pool cfg) (vectorHits eng s qv
        (resolveNamespace params.namespace_) (params.pool cfg).toNat (params.pool cfg)) := by
  have hlength : (vectorHits eng s qv (resolveNamespace params.namespace_) (params.pool cfg).toNat
      (params.pool cfg)).length ≤ min (params.pool cfg).toNat s.embeddings.length :=
    vectorHits_length_le
  have hlimit : 1 ≤ params.effectiveLimit cfg := one_le_effectiveLimit
  have hpool : params.effectiveLimit cfg ≤ params.pool cfg := effectiveLimit_le_pool
  exact (orderLimit_perm (by omega)).mem_iff.mpr (vectorHits_mono hn h)

/-- The vector query alone honours the filters where all it can find does. -/
theorem honours_vector (hqv : extractQueryVector cfg params = .ok (some qv))
    (h : vectorSearch eng cfg s params (some qv) = .ok reply) (hadmitted : EmbeddingsAdmitted s params)
    (hdistinct : EmbeddingsDistinct s params) : Honours eng cfg s params reply := by
  have hresults := vectorSearch_ok h
  refine ⟨?_, ?_, ?_, ?_⟩
  · intro hit hhit
    rw [hresults] at hhit
    obtain ⟨e, he, hns, rfl⟩ := mem_vectorHits (mem_of_mem_orderLimit hhit)
    exact vectorHit_admitted.mpr (hadmitted e he hns)
  · rw [hresults]
    refine orderLimit_distinct ?_
    unfold vectorHits
    rw [vectorHits_ids hadmitted (eng.nearest_subperm _ _ _ _).subset]
    refine List.Nodup.map (Option.some_injective _) ?_
    obtain ⟨es, hperm, hsub⟩ := (eng.nearest_subperm (params.effectiveLimit cfg).toNat
      (params.pool cfg) qv s.embeddings).filter fun e => e.namespace_ = resolveNamespace params.namespace_
    exact (hperm.map EmbeddingRow.node).nodup_iff.mp (hdistinct.sublist (hsub.map EmbeddingRow.node))
  · rw [hresults, max_comm]
    exact orderLimit_length one_le_effectiveLimit
  · intro _ hit hhit
    rw [hresults] at hhit
    obtain ⟨pool, hpool, hcandidates⟩ := vectorSearch_pool qv
    refine ⟨pool, hit, .inr ⟨qv, hqv, hpool⟩, ?_, rfl⟩
    rw [hcandidates]
    exact mem_vectorPool (Int.toNat_le_toNat effectiveLimit_le_pool) (mem_of_mem_orderLimit hhit)

/-- The fused query has the two lists of candidates to choose from. -/
theorem rrfFuse_eq {query : String} (h : params.query = some query) (qv : List JsonNumber) :
    ∃ text vec, textSearch eng cfg s { params with limit := some (params.pool cfg) } = .ok text ∧
      text.results = orderLimit eng (params.pool cfg)
        (textHits eng s params query (resolveNamespace params.namespace_)) ∧
      vectorSearch eng cfg s { params with limit := some (params.pool cfg) } (some qv) = .ok vec ∧
      vec.results = orderLimit eng (params.pool cfg) (vectorHits eng s qv
        (resolveNamespace params.namespace_) (params.pool cfg).toNat (params.pool cfg)) ∧
      ∃ reply, rrfFuse eng cfg s params qv = .ok reply ∧
        reply.results = topFused eng (params.effectiveLimit cfg)
          (fuse eng cfg text.results vec.results) := by
  obtain ⟨text, htext, hrows⟩ := textSearch_pool h
  obtain ⟨vec, hvec, hcandidates⟩ := vectorSearch_pool qv
  refine ⟨text, vec, htext, hrows, hvec, hcandidates, ?_⟩
  unfold rrfFuse
  simp only [htext, hvec, bind, Except.bind]
  exact ⟨_, rfl, rfl⟩

/-- The fused query honours the filters where the embeddings do. -/
theorem honours_fused (hqv : extractQueryVector cfg params = .ok (some qv)) {query : String}
    (hquery : params.query = some query) (h : rrfFuse eng cfg s params qv = .ok reply)
    (hadmitted : EmbeddingsAdmitted s params) : Honours eng cfg s params reply := by
  obtain ⟨text, vec, htext, hrows, hvec, hcandidates, reply', hreply, hresults⟩ :=
    rrfFuse_eq hquery qv
  rw [h] at hreply
  cases hreply
  have hfrom : ∀ hit ∈ reply.results, ∃ row ∈ text.results ++ vec.results,
      hit = { row with score := hit.score } := by
    intro hit hhit
    rw [hresults] at hhit
    obtain ⟨r, hr, rfl⟩ := mem_topFused hhit
    exact ⟨r.2, fuse_entry hr, rfl⟩
  refine ⟨?_, ?_, ?_, ?_⟩
  · intro hit hhit
    obtain ⟨row, hrow, heq⟩ := hfrom hit hhit
    have hid : hit.id = row.id := by rw [heq]
    rw [hid]
    rcases List.mem_append.mp hrow with hrow | hrow
    · rw [hrows] at hrow
      exact textHits_admitted (mem_of_mem_orderLimit hrow)
    · rw [hcandidates] at hrow
      obtain ⟨e, he, hns, rfl⟩ := mem_vectorHits (mem_of_mem_orderLimit hrow)
      exact vectorHit_admitted.mpr (hadmitted e he hns)
  · rw [hresults]
    exact topFused_distinct _
  · rw [hresults, max_comm]
    exact topFused_length one_le_effectiveLimit
  · intro _ hit hhit
    obtain ⟨row, hrow, heq⟩ := hfrom hit hhit
    rcases List.mem_append.mp hrow with hrow | hrow
    · exact ⟨text, row, .inl htext, hrow, heq⟩
    · exact ⟨vec, row, .inr ⟨qv, hqv, hvec⟩, hrow, heq⟩

/-- The query that a reply comes from. -/
theorem run_ok (h : run eng cfg s params = .ok reply) :
    textSearch eng cfg s params = .ok reply ∨
    (∃ qv, extractQueryVector cfg params = .ok (some qv) ∧ VectorAlone eng cfg params ∧
      vectorSearch eng cfg s params (some qv) = .ok reply) ∨
    ∃ qv query, extractQueryVector cfg params = .ok (some qv) ∧ params.query = some query ∧
      BothQueries eng cfg params ∧ rrfFuse eng cfg s params qv = .ok reply := by
  unfold run at h
  cases hqv : extractQueryVector cfg params with
  | error e =>
    rw [hqv] at h
    cases h
  | ok queryVector =>
    simp only [hqv, bind, Except.bind] at h
    split at h
    · exact .inl h
    split at h
    · rename_i hmode
      cases queryVector with
      | none => cases h
      | some qv => exact .inr (.inl ⟨qv, rfl, ⟨⟨qv, hqv⟩, .inl hmode⟩, h⟩)
    split at h
    · rename_i hmode
      unfold hybridSearch at h
      split at h
      · cases h
      · exact .inl h
      · rename_i qv hnone
        exact .inr (.inl ⟨qv, rfl, ⟨⟨qv, hqv⟩, .inr ⟨hmode, hnone⟩⟩, h⟩)
      · rename_i query qv hquery
        refine .inr (.inr ⟨qv, query, rfl, hquery, ⟨⟨qv, hqv⟩, hmode, ?_⟩, h⟩)
        rw [hquery]
        exact Option.some_ne_none query
    · cases h

theorem run_vector (h : VectorAlone eng cfg params)
    (hqv : extractQueryVector cfg params = .ok (some qv)) :
    run eng cfg s params = vectorSearch eng cfg s params (some qv) := by
  unfold run
  simp only [hqv, bind, Except.bind]
  obtain ⟨-, hmode | ⟨hmode, hquery⟩⟩ := h
  · simp [hmode]
  · simp [hmode, hybridSearch, hquery]

theorem run_both (h : BothQueries eng cfg params)
    (hqv : extractQueryVector cfg params = .ok (some qv)) :
    run eng cfg s params = rrfFuse eng cfg s params qv := by
  obtain ⟨-, hmode, hquery⟩ := h
  obtain ⟨query, hquery⟩ := Option.ne_none_iff_exists'.mp hquery
  unfold run
  simp [hqv, bind, Except.bind, hmode, hybridSearch, hquery]

end Replies

section Exactly
variable {F : Type} (eng : Engine F) (cfg : SearchConfig) (s : Store) (params : SearchParams)
  {qv : List JsonNumber}

/-- Asked for more rows than there are embeddings, the vector query returns those of the namespace. -/
theorem vector_returns_all (h : VectorAlone eng cfg params)
    (hqv : extractQueryVector cfg params = .ok (some qv)) :
    ∃ limit reply, run eng cfg s { params with limit := limit } = .ok reply ∧
      reply.results.Perm ((s.embeddings.filter fun e =>
        e.namespace_ = resolveNamespace params.namespace_).map (vectorHit eng s qv)) := by
  let wide : SearchParams := { params with limit := some (s.embeddings.length + 1) }
  have hlimit : wide.effectiveLimit cfg = s.embeddings.length + 1 := effectiveLimit_some (by omega)
  obtain ⟨reply, hreply⟩ : ∃ reply, vectorSearch eng cfg s wide (some qv) = .ok reply := ⟨_, rfl⟩
  have hrun : run eng cfg s wide = vectorSearch eng cfg s wide (some qv) := run_vector h hqv
  refine ⟨some (s.embeddings.length + 1), reply, hrun.trans hreply, ?_⟩
  have hlength : (vectorHits eng s qv (resolveNamespace wide.namespace_)
      (wide.effectiveLimit cfg).toNat (wide.pool cfg)).length ≤
        min (wide.effectiveLimit cfg).toNat s.embeddings.length := vectorHits_length_le
  rw [vectorSearch_ok hreply]
  exact (orderLimit_perm (by omega)).trans (vectorHits_of_le (by omega))

/-- Asked for more rows than both queries can find, the fused query returns the id of every embedding of
the namespace. -/
theorem fused_returns_all (h : BothQueries eng cfg params)
    (hqv : extractQueryVector cfg params = .ok (some qv)) :
    ∃ limit reply, run eng cfg s { params with limit := limit } = .ok reply ∧
      ∀ e ∈ s.embeddings, e.namespace_ = resolveNamespace params.namespace_ →
        ∃ hit ∈ reply.results, hit.id = (vectorHit eng s qv e).id := by
  obtain ⟨query, hquery⟩ := Option.ne_none_iff_exists'.mp h.2.2
  let texts := textHits eng s params query (resolveNamespace params.namespace_)
  let wide : SearchParams := { params with limit := some (texts.length + s.embeddings.length + 1) }
  have hlimit : wide.effectiveLimit cfg = texts.length + s.embeddings.length + 1 :=
    effectiveLimit_some (by omega)
  have hpool : wide.effectiveLimit cfg ≤ wide.pool cfg := effectiveLimit_le_pool
  have hrun : run eng cfg s wide = rrfFuse eng cfg s wide qv := run_both h hqv
  have hwide : wide.query = some query := hquery
  obtain ⟨text, vec, -, hrows, -, hcandidates, reply, hreply, hresults⟩ :
    ∃ text vec, textSearch eng cfg s _ = .ok text ∧ _ ∧ _ := rrfFuse_eq hwide qv
  have htext : text.results.length ≤ texts.length := by
    rw [hrows]
    exact orderLimit_length_le
  have hfound : (vectorHits eng s qv (resolveNamespace wide.namespace_) (wide.pool cfg).toNat
      (wide.pool cfg)).length ≤ min (wide.pool cfg).toNat s.embeddings.length := vectorHits_length_le
  have hvec : vec.results.length ≤ s.embeddings.length := by
    rw [hcandidates]
    exact orderLimit_length_le.trans (hfound.trans (min_le_right _ _))
  refine ⟨some (texts.length + s.embeddings.length + 1), reply, hrun.trans hreply, ?_⟩
  intro e he hns
  have hrow : vectorHit eng s qv e ∈ vec.results := by
    rw [hcandidates, (orderLimit_perm (by omega)).mem_iff, (vectorHits_of_le (by omega)).mem_iff]
    exact List.mem_map_of_mem (List.mem_filter.mpr ⟨he, decide_eq_true hns⟩)
  rw [hresults]
  refine topFused_all ?_ (List.mem_append_right _ hrow)
  rw [List.length_append]
  omega

/-- Where the vector query answers alone, the filters are honoured only if its embeddings do. -/
theorem needed_alone (h : FiltersHonoured eng cfg s params) (halone : VectorAlone eng cfg params) :
    EmbeddingsAdmitted s params ∧ EmbeddingsDistinct s params := by
  obtain ⟨qv, hqv⟩ := halone.1
  obtain ⟨limit, reply, hreply, hperm⟩ : ∃ limit reply, run eng cfg s _ = .ok reply ∧
    reply.results.Perm _ := vector_returns_all eng cfg s params halone hqv
  have hhonours := h limit reply hreply
  have hadmitted : EmbeddingsAdmitted s params := by
    intro e he hns
    have hrow : vectorHit eng s qv e ∈ reply.results := hperm.mem_iff.mpr
      (List.mem_map_of_mem (List.mem_filter.mpr ⟨he, decide_eq_true hns⟩))
    exact vectorHit_admitted.mp (hhonours.admitted _ hrow)
  refine ⟨hadmitted, ?_⟩
  have hids := (hperm.map Hit.id).nodup_iff.mp hhonours.distinct
  rw [vectorHits_ids hadmitted (List.Subset.refl _)] at hids
  exact hids.of_map some

/-- Where the fused query answers, the filters are honoured only if the embeddings are admitted. -/
theorem needed_both (h : FiltersHonoured eng cfg s params) (hboth : BothQueries eng cfg params) :
    EmbeddingsAdmitted s params := by
  obtain ⟨qv, hqv⟩ := hboth.1
  obtain ⟨limit, reply, hreply, hall⟩ : ∃ limit reply, run eng cfg s _ = .ok reply ∧ _ :=
    fused_returns_all eng cfg s params hboth hqv
  intro e he hns
  obtain ⟨hit, hhit, hid⟩ := hall e he hns
  have hadmitted := (h limit reply hreply).admitted hit hhit
  rw [hid] at hadmitted
  exact vectorHit_admitted.mp hadmitted

/-- Every reply of a search honours the filters exactly when the vector query is not made, or each
embedding of the namespace belongs to a node that the filters let through and, where the vector query
answers alone, no node has two. -/
theorem filters_honoured_iff : FiltersHonoured eng cfg s params ↔
    (VectorAlone eng cfg params ∨ BothQueries eng cfg params → EmbeddingsAdmitted s params) ∧
    (VectorAlone eng cfg params → EmbeddingsDistinct s params) := by
  constructor
  · intro h
    refine ⟨?_, fun halone => (needed_alone eng cfg s params h halone).2⟩
    rintro (halone | hboth)
    · exact (needed_alone eng cfg s params h halone).1
    · exact needed_both eng cfg s params h hboth
  · rintro ⟨hadmitted, hdistinct⟩ limit reply hreply
    obtain htext | ⟨qv, hqv, halone, hvec⟩ | ⟨qv, query, hqv, hquery, hboth, hfused⟩ := run_ok hreply
    · exact honours_text htext
    · exact honours_vector hqv hvec (hadmitted (.inl halone)) (hdistinct halone)
    · exact honours_fused hqv hquery hfused (hadmitted (.inr hboth))

end Exactly

section Leaks

/-- An engine for stores of a few rows. -/
def plainEngine : Engine ℕ where
  toLowercase mode := mode
  isMatch query content := decide (query = content)
  textScore texts _ _ := texts.length
  similarity _ _ := 1
  le a b := decide (a ≤ b)
  contribution _ _ := 1
  add a b := a + b
  nearest k _ _ rows := rows.take k
  nearest_subperm _ _ _ _ := (List.take_sublist _ _).subperm
  nearest_length _ _ _ _ := List.length_take
  nearest_mono _ _ _ _ _ h := List.take_subset_take_left _ h
  intoValues l := l
  intoValues_perm _ := .refl _

/-- One node of type "note", with an embedding. -/
def noteStore : Store :=
  (addNodes 1 (nextIds .empty) .empty [.obj [("content", .str "a"), ("embedding", .arr [.num (.int 1)]),
    ("node_type", .str "note")]] none).2

def seekParams (mode : String) (nodeType : Option String) : SearchParams where
  query := some "a"
  mode := some mode
  limit := none
  namespace_ := none
  nodeType := nodeType
  metadataFilter := some (.obj [("query_vector", .arr [.num (.int 1)])])

def foundIds (s : Store) (mode : String) (nodeType : Option String) :
    Except MemoryError (List (Option RecordId)) :=
  (run plainEngine ⟨1, 60, 100, 10⟩ s (seekParams mode nodeType)).map fun reply =>
    reply.results.map Hit.id

/-- A search for nodes of type "fact" returns the note when it makes the vector query. A node with
embeddings of two models is returned twice. -/
theorem vector_query_leaks :
    foundIds noteStore "text" (some "fact") = .ok [] ∧
      foundIds noteStore "vector" (some "fact") = .ok [some 1] ∧
      foundIds noteStore "hybrid" (some "fact") = .ok [some 1] ∧
      foundIds { noteStore with embeddings := noteStore.embeddings ++ [⟨1, "default", "nomic", [.int 1]⟩] }
        "vector" none = .ok [some 1, some 1] ∧
      ¬ FiltersHonoured plainEngine ⟨1, 60, 100, 10⟩ noteStore (seekParams "vector" (some "fact")) := by
  refine ⟨by decide +kernel, by decide +kernel, by decide +kernel, by decide +kernel, ?_⟩
  intro h
  have hfound : foundIds noteStore "vector" (some "fact") = .ok [some 1] := by decide +kernel
  have hnote : (noteStore.nodes.get 1).map NodeRow.nodeType = some "note" := by decide +kernel
  unfold foundIds at hfound
  cases hrun : run plainEngine ⟨1, 60, 100, 10⟩ noteStore (seekParams "vector" (some "fact")) with
  | error e =>
    rw [hrun] at hfound
    cases hfound
  | ok reply =>
    rw [hrun] at hfound
    have hids : reply.results.map Hit.id = [some 1] := Except.ok.inj hfound
    have hone : some 1 ∈ reply.results.map Hit.id := by simp [hids]
    obtain ⟨hit, hhit, hid⟩ := List.mem_map.mp hone
    obtain ⟨i, hi, node, hnode, -, -, htype⟩ := (h none reply hrun).admitted hit hhit
    rw [hid] at hi
    cases hi
    rw [Option.mem_def.mp hnode, Option.map_some, htype "fact" rfl] at hnote
    simp at hnote

end Leaks

end Konf.Memory
