import Konf.Memory.Store

/-! # Adding nodes

Model of `add_nodes` (`konf-tool-memory-surreal/src/backend.rs`). Every query succeeds. The record ids
that SurrealDB draws are a parameter: the one for each node of the call, by its position. -/

namespace Konf.Memory
set_option autoImplicit false

/-! ## The code -/

/-- What is created for an element of the array. -/
structure NewNode where
  content : String
  nodeType : String
  metadata : Json
  embedding : List JsonNumber
  modelName : String

/-- No array is as good as an empty one. -/
def embeddingItems (node : Json) : List Json := ((node.get "embedding").bind Json.asArray).getD []

def parseNode (vectorDimension : ℕ) (node : Json) : Except MemoryError NewNode :=
  match (node.get "content").bind Json.asStr with
  | none => .error (.validation "add_nodes: every node must have a `content` string")
  | some content =>
    let embedding := (embeddingItems node).filterMap Json.asNumber
    if embedding ≠ [] ∧ embedding.length ≠ vectorDimension then
      .error (.validation ("add_nodes: embedding has " ++ toString embedding.length ++
        " dims, expected " ++ toString vectorDimension))
    else .ok {
      content := content
      nodeType := ((node.get "node_type").bind Json.asStr).getD "memory"
      metadata := (node.get "metadata").getD (.obj [])
      embedding := embedding
      modelName := ((node.get "model_name").bind Json.asStr).getD "default" }

def NewNode.row (new : NewNode) (ns : String) : NodeRow where
  namespace_ := ns
  nodeType := new.nodeType
  content := new.content
  metadata := new.metadata
  isRetracted := false

/-- A second row, when there are numbers to store. -/
def NewNode.embeddingRows (new : NewNode) (ns : String) (id : RecordId) : List EmbeddingRow :=
  if new.embedding = [] then [] else [⟨id, ns, new.modelName, new.embedding⟩]

/-- One block of SurrealQL. -/
def Store.create (s : Store) (ns : String) (id : RecordId) (new : NewNode) : Store where
  nodes := s.nodes.insert id (new.row ns)
  embeddings := s.embeddings ++ new.embeddingRows ns id
  events := s.events

def Store.recordEvent (s : Store) (ns eventType : String) (payload : Json) : Store :=
  { s with events := s.events ++ [⟨ns, eventType, payload⟩] }

section Adding
variable (vectorDimension : ℕ) (ids : ℕ → RecordId)

/-- The loop over the nodes, with the number of those that are created. -/
def addEach (ns : String) (s : Store) (createdCount : ℕ) : List Json → Except MemoryError ℕ × Store
  | [] => (.ok createdCount, s)
  | node :: rest => match parseNode vectorDimension node with
    | .error e => (.error e, s)
    | .ok new => addEach ns (s.create ns (ids createdCount) new) (createdCount + 1) rest

def addNodes (s : Store) (nodes : List Json) (param : Option String) :
    Except MemoryError Json × Store :=
  if nodes = [] then (.error (.validation "add_nodes: nodes array is empty"), s)
  else
    let ns := resolveNamespace param
    let added := addEach vectorDimension ids ns s 0 nodes
    match added.1 with
    | .error e => (.error e, added.2)
    | .ok createdCount =>
      (.ok (.obj [("_meta", .obj [("namespace", .str ns)]), ("added", .ofNat createdCount)]),
        added.2.recordEvent ns "nodes_added" (.obj [("count", .ofNat createdCount)]))

end Adding

/-! ## All or nothing -/

/-- The drawn ids are new and different. -/
structure FreshIds (s : Store) (ids : ℕ → RecordId) (n : ℕ) : Prop where
  new : ∀ i < n, s.nodes.get (ids i) = none
  distinct : ∀ i < n, ∀ j < n, ids i = ids j → i = j

/-- The element carries an embedding. -/
def HasEmbedding (node : Json) : Prop := embeddingItems node ≠ []

/-- An embedding that the element carries has a number in it. -/
def EmbeddingHasNumber (node : Json) : Prop :=
  HasEmbedding node → (embeddingItems node).filterMap Json.asNumber ≠ []

def Valid (vectorDimension : ℕ) (node : Json) : Prop := ∃ new, parseNode vectorDimension node = .ok new

instance (node : Json) : Decidable (HasEmbedding node) :=
  inferInstanceAs (Decidable (embeddingItems node ≠ []))

/-- The ids of the elements with an embedding, from position `i` on. -/
def embeddedIds (ids : ℕ → RecordId) (i : ℕ) : List Json → List RecordId
  | [] => []
  | node :: rest => (if HasEmbedding node then [ids i] else []) ++ embeddedIds ids (i + 1) rest

/-- One node for each element, one embedding row for each element that carries an embedding, and the
event. -/
structure AddedAll (vectorDimension : ℕ) (ids : ℕ → RecordId) (s : Store) (nodes : List Json)
    (ns : String) (s' : Store) : Prop where
  created : ∀ i node, nodes[i]? = some node → ∃ new, parseNode vectorDimension node = .ok new ∧
    s'.nodes.get (ids i) = some (new.row ns)
  others : ∀ id, (∀ i < nodes.length, ids i ≠ id) → s'.nodes.get id = s.nodes.get id
  embeddings : ∃ rows, s'.embeddings = s.embeddings ++ rows ∧
    rows.map EmbeddingRow.node = embeddedIds ids 0 nodes
  events : s'.events = s.events ++ [⟨ns, "nodes_added", .obj [("count", .ofNat nodes.length)]⟩]

def AllOrNothing (vectorDimension : ℕ) (s : Store) (nodes : List Json) (param : Option String) : Prop :=
  ∀ ids, FreshIds s ids nodes.length →
    (∀ e, (addNodes vectorDimension ids s nodes param).1 = .error e →
      (addNodes vectorDimension ids s nodes param).2.nodes = s.nodes ∧
        (addNodes vectorDimension ids s nodes param).2.embeddings = s.embeddings) ∧
    ∀ v, (addNodes vectorDimension ids s nodes param).1 = .ok v →
      AddedAll vectorDimension ids s nodes (resolveNamespace param)
        (addNodes vectorDimension ids s nodes param).2

/-! ## The loop -/

section Loop
variable {vectorDimension : ℕ} {ids : ℕ → RecordId} {ns : String} {node : Json} {nodes : List Json}

theorem addEach_valid {new : NewNode} (h : parseNode vectorDimension node = .ok new) (s : Store)
    (c : ℕ) : addEach vectorDimension ids ns s c (node :: nodes) =
      addEach vectorDimension ids ns (s.create ns (ids c) new) (c + 1) nodes := by
  rw [addEach, h]

theorem addEach_invalid {e : MemoryError} (h : parseNode vectorDimension node = .error e) (s : Store)
    (c : ℕ) : addEach vectorDimension ids ns s c (node :: nodes) = (.error e, s) := by
  rw [addEach, h]

theorem valid_or_error (vectorDimension : ℕ) (node : Json) :
    (∃ new, parseNode vectorDimension node = .ok new) ∨
      ∃ e, parseNode vectorDimension node = .error e := by
  cases parseNode vectorDimension node with
  | error e => exact .inr ⟨e, rfl⟩
  | ok new => exact .inl ⟨new, rfl⟩

/-- The rows of a list of elements, from position `i` on. -/
def newEmbeddings (vectorDimension : ℕ) (ids : ℕ → RecordId) (ns : String) (i : ℕ) :
    List Json → List EmbeddingRow
  | [] => []
  | node :: rest => (match parseNode vectorDimension node with
      | .ok new => new.embeddingRows ns (ids i)
      | .error _ => []) ++ newEmbeddings vectorDimension ids ns (i + 1) rest

theorem addEach_events (s : Store) (c : ℕ) :
    (addEach vectorDimension ids ns s c nodes).2.events = s.events := by
  induction nodes generalizing s c with
  | nil => rfl
  | cons node nodes ih =>
    obtain ⟨new, hnew⟩ | ⟨e, he⟩ := valid_or_error vectorDimension node
    · rw [addEach_valid hnew, ih]
      rfl
    · rw [addEach_invalid he]

theorem addEach_others (s : Store) (c : ℕ) {id : RecordId}
    (hid : ∀ i < nodes.length, ids (c + i) ≠ id) :
    (addEach vectorDimension ids ns s c nodes).2.nodes.get id = s.nodes.get id := by
  induction nodes generalizing s c with
  | nil => rfl
  | cons node nodes ih =>
    obtain ⟨new, hnew⟩ | ⟨e, he⟩ := valid_or_error vectorDimension node
    · rw [addEach_valid hnew, ih]
      · exact Table.get_insert_ne (Ne.symm (hid 0 (Nat.succ_pos _)))
      · intro i hi
        rw [Nat.add_assoc, Nat.add_comm 1 i]
        exact hid (i + 1) (Nat.succ_lt_succ hi)
    · rw [addEach_invalid he]

/-- Nothing undoes the first node. -/
theorem addEach_first {new : NewNode} (h : parseNode vectorDimension node = .ok new) (s : Store) (c : ℕ)
    (hdistinct : ∀ i < nodes.length, ids (c + 1 + i) ≠ ids c) :
    (addEach vectorDimension ids ns s c (node :: nodes)).2.nodes.get (ids c) = some (new.row ns) := by
  rw [addEach_valid h, addEach_others _ _ hdistinct]
  exact Table.get_insert_self

theorem addEach_reply (s : Store) (c : ℕ) (h : ∀ node ∈ nodes, Valid vectorDimension node) :
    (addEach vectorDimension ids ns s c nodes).1 = .ok (c + nodes.length) := by
  induction nodes generalizing s c with
  | nil => rfl
  | cons node nodes ih =>
    obtain ⟨new, hnew⟩ := h node List.mem_cons_self
    rw [addEach_valid hnew, ih _ _ fun node hnode => h node (List.mem_cons_of_mem _ hnode),
      List.length_cons, Nat.add_assoc, Nat.add_comm 1]

theorem addEach_error (s : Store) (c : ℕ) (h : ∃ node ∈ nodes, ¬ Valid vectorDimension node) :
    ∃ e, (addEach vectorDimension ids ns s c nodes).1 = .error e := by
  induction nodes generalizing s c with
  | nil => simp at h
  | cons node nodes ih =>
    obtain ⟨new, hnew⟩ | ⟨e, he⟩ := valid_or_error vectorDimension node
    · rw [addEach_valid hnew]
      refine ih _ _ ?_
      obtain ⟨bad, hbad, hinvalid⟩ := h
      obtain rfl | hbad := List.mem_cons.mp hbad
      · exact absurd ⟨new, hnew⟩ hinvalid
      · exact ⟨bad, hbad, hinvalid⟩
    · rw [addEach_invalid he]
      exact ⟨e, rfl⟩

theorem addEach_created (s : Store) (c : ℕ) (h : ∀ node ∈ nodes, Valid vectorDimension node)
    (hdistinct : ∀ i < nodes.length, ∀ j < nodes.length, ids (c + i) = ids (c + j) → i = j) {i : ℕ}
    (hi : nodes[i]? = some node) : ∃ new, parseNode vectorDimension node = .ok new ∧
      (addEach vectorDimension ids ns s c nodes).2.nodes.get (ids (c + i)) = some (new.row ns) := by
  induction nodes generalizing s c i with
  | nil => simp at hi
  | cons first nodes ih =>
    obtain ⟨new, hnew⟩ := h first List.mem_cons_self
    cases i with
    | zero =>
      obtain rfl : first = node := by simpa using hi
      refine ⟨new, hnew, addEach_first hnew s c ?_⟩
      intro j hj heq
      have hzero := hdistinct (j + 1) (Nat.succ_lt_succ hj) 0 (Nat.succ_pos _)
        (by rw [Nat.add_comm j 1, ← Nat.add_assoc]; exact heq)
      omega
    | succ i =>
      rw [addEach_valid hnew, Nat.add_comm i 1, ← Nat.add_assoc]
      refine ih _ _ (fun node hnode => h node (List.mem_cons_of_mem _ hnode)) ?_ (by simpa using hi)
      intro j hj k hk heq
      rw [Nat.add_assoc, Nat.add_assoc, Nat.add_comm 1 j, Nat.add_comm 1 k] at heq
      have hsucc := hdistinct (j + 1) (Nat.succ_lt_succ hj) (k + 1) (Nat.succ_lt_succ hk) heq
      omega

theorem addEach_embeddings (s : Store) (c : ℕ) (h : ∀ node ∈ nodes, Valid vectorDimension node) :
    (addEach vectorDimension ids ns s c nodes).2.embeddings =
      s.embeddings ++ newEmbeddings vectorDimension ids ns c nodes := by
  induction nodes generalizing s c with
  | nil => simp [addEach, newEmbeddings]
  | cons node nodes ih =>
    obtain ⟨new, hnew⟩ := h node List.mem_cons_self
    rw [addEach_valid hnew, ih _ _ fun node hnode => h node (List.mem_cons_of_mem _ hnode),
      newEmbeddings, hnew]
    exact List.append_assoc _ _ _

theorem parseNode_embedding {new : NewNode} (h : parseNode vectorDimension node = .ok new) :
    new.embedding = (embeddingItems node).filterMap Json.asNumber := by
  unfold parseNode at h
  split at h
  · cases h
  · dsimp only at h
    split_ifs at h
    cases h
    rfl

/-- An element has at most one embedding row, and only if it carries an embedding. -/
theorem embeddingRows_node {new : NewNode} (h : parseNode vectorDimension node = .ok new)
    (hnumber : EmbeddingHasNumber node) (id : RecordId) :
    (new.embeddingRows ns id).map EmbeddingRow.node = if HasEmbedding node then [id] else [] := by
  unfold NewNode.embeddingRows
  rw [parseNode_embedding h]
  by_cases hhas : HasEmbedding node
  · rw [if_pos hhas, if_neg (hnumber hhas)]
    rfl
  · have hnone : embeddingItems node = [] := not_not.mp hhas
    rw [if_neg hhas, hnone]
    rfl

theorem embeddingRows_length_le {new : NewNode} (h : parseNode vectorDimension node = .ok new)
    (id : RecordId) : (new.embeddingRows ns id).length ≤ (if HasEmbedding node then [id] else []).length := by
  unfold NewNode.embeddingRows
  rw [parseNode_embedding h]
  by_cases hhas : HasEmbedding node
  · rw [if_pos hhas]
    split_ifs <;> simp
  · have hnone : embeddingItems node = [] := not_not.mp hhas
    simp [hnone]

theorem newEmbeddings_length_le (c : ℕ) (h : ∀ node ∈ nodes, Valid vectorDimension node) :
    (newEmbeddings vectorDimension ids ns c nodes).length ≤ (embeddedIds ids c nodes).length := by
  induction nodes generalizing c with
  | nil => exact le_rfl
  | cons node nodes ih =>
    obtain ⟨new, hnew⟩ := h node List.mem_cons_self
    have hrest := ih (c + 1) fun node hnode => h node (List.mem_cons_of_mem _ hnode)
    rw [newEmbeddings, embeddedIds, hnew, List.length_append, List.length_append]
    exact Nat.add_le_add (embeddingRows_length_le hnew (ids c)) hrest

/-- The rows are those of the elements with an embedding exactly when each of these has a number. -/
theorem newEmbeddings_node_iff (c : ℕ) (h : ∀ node ∈ nodes, Valid vectorDimension node) :
    (newEmbeddings vectorDimension ids ns c nodes).map EmbeddingRow.node = embeddedIds ids c nodes ↔
      ∀ node ∈ nodes, EmbeddingHasNumber node := by
  induction nodes generalizing c with
  | nil => simp [newEmbeddings, embeddedIds]
  | cons node nodes ih =>
    obtain ⟨new, hnew⟩ := h node List.mem_cons_self
    have hvalid : ∀ node ∈ nodes, Valid vectorDimension node :=
      fun node hnode => h node (List.mem_cons_of_mem _ hnode)
    simp only [newEmbeddings, embeddedIds, hnew, List.map_append, List.forall_mem_cons]
    constructor
    · intro heq
      have hlength := congrArg List.length heq
      have hfirst : (new.embeddingRows ns (ids c)).length ≤ _ := embeddingRows_length_le hnew (ids c)
      have hrest : (newEmbeddings vectorDimension ids ns (c + 1) nodes).length ≤
        (embeddedIds ids (c + 1) nodes).length := newEmbeddings_length_le (c + 1) hvalid
      simp only [List.length_append, List.length_map] at hlength
      have hnumber : EmbeddingHasNumber node := by
        intro hhas hnone
        rw [if_pos hhas] at hlength
        have hzero : new.embeddingRows ns (ids c) = [] := if_pos ((parseNode_embedding hnew).trans hnone)
        rw [hzero] at hlength
        simp only [List.length_nil, List.length_singleton] at hlength
        omega
      refine ⟨hnumber, (ih (c + 1) hvalid).mp ?_⟩
      rw [embeddingRows_node hnew hnumber] at heq
      exact List.append_cancel_left heq
    · rintro ⟨hnumber, hall⟩
      rw [embeddingRows_node hnew hnumber, (ih (c + 1) hvalid).mpr hall]

end Loop

/-! ## The result -/

/-- Ids past the last one. -/
def nextIds (s : Store) (i : ℕ) : RecordId := s.nodes.lastKey.getD 0 + 1 + i

theorem fresh_nextIds (s : Store) (n : ℕ) : FreshIds s (nextIds s) n := by
  refine ⟨?_, ?_⟩
  · intro i _
    rw [Table.get_eq_none_iff]
    intro r hr heq
    cases hlast : s.nodes.lastKey with
    | none =>
      rw [Table.lastKey_eq_none_iff.mp hlast] at hr
      cases hr
    | some k =>
      have hle : r.1 ≤ k := Table.le_lastKey hlast hr
      rw [heq, nextIds, hlast, Option.getD_some] at hle
      exact absurd hle (Nat.not_le.mpr (Nat.lt_add_right i (Nat.lt_succ_self k)))
  · intro i _ j _ heq
    exact Nat.add_left_cancel heq

/-- The elements are all valid with numbers in their embeddings, or none is looked at or the first one
is not valid. -/
def Uniform (vectorDimension : ℕ) (nodes : List Json) : Prop :=
  (∀ node ∈ nodes, Valid vectorDimension node ∧ EmbeddingHasNumber node) ∨
    ∀ node ∈ nodes.head?, ¬ Valid vectorDimension node

section Results
variable {vectorDimension : ℕ} {ids : ℕ → RecordId} {s : Store} {nodes : List Json}
  {param : Option String}

theorem addNodes_error {e : MemoryError} (hne : nodes ≠ [])
    (h : (addEach vectorDimension ids (resolveNamespace param) s 0 nodes).1 = .error e) :
    addNodes vectorDimension ids s nodes param =
      (.error e, (addEach vectorDimension ids (resolveNamespace param) s 0 nodes).2) := by
  unfold addNodes
  rw [if_neg hne]
  simp only [h]

theorem addNodes_ok (hne : nodes ≠ []) (h : ∀ node ∈ nodes, Valid vectorDimension node) :
    addNodes vectorDimension ids s nodes param =
      (.ok (.obj [("_meta", .obj [("namespace", .str (resolveNamespace param))]),
        ("added", .ofNat nodes.length)]),
        (addEach vectorDimension ids (resolveNamespace param) s 0 nodes).2.recordEvent
          (resolveNamespace param) "nodes_added" (.obj [("count", .ofNat nodes.length)])) := by
  unfold addNodes
  rw [if_neg hne]
  simp only [addEach_reply s 0 h, Nat.zero_add]

/-- A call whose elements are all valid adds them all, but for the embeddings without a number. -/
theorem addedAll_iff (hne : nodes ≠ []) (h : ∀ node ∈ nodes, Valid vectorDimension node)
    (hfresh : FreshIds s ids nodes.length) :
    AddedAll vectorDimension ids s nodes (resolveNamespace param)
        (addNodes vectorDimension ids s nodes param).2 ↔
      ∀ node ∈ nodes, EmbeddingHasNumber node := by
  rw [addNodes_ok hne h]
  constructor
  · intro hadded
    obtain ⟨rows, hrows, hids⟩ := hadded.embeddings
    have hnew := (addEach_embeddings s 0 h).symm.trans hrows
    rw [← List.append_cancel_left hnew] at hids
    exact (newEmbeddings_node_iff 0 h).mp hids
  · intro hnumbers
    refine ⟨?_, ?_, ⟨_, addEach_embeddings s 0 h, (newEmbeddings_node_iff 0 h).mpr hnumbers⟩, ?_⟩
    · intro i node hi
      have hdistinct : ∀ i < nodes.length, ∀ j < nodes.length, ids (0 + i) = ids (0 + j) → i = j := by
        simpa using hfresh.distinct
      have hcreated : ∃ new, parseNode vectorDimension node = .ok new ∧
          (addEach vectorDimension ids (resolveNamespace param) s 0 nodes).2.nodes.get (ids (0 + i)) =
            some (new.row (resolveNamespace param)) := addEach_created s 0 h hdistinct hi
      rw [Nat.zero_add] at hcreated
      exact hcreated
    · intro id hid
      exact addEach_others s 0 (by simpa using hid)
    · simp only [Store.recordEvent]
      rw [addEach_events]

/-- A call with an element that is not valid leaves the store as it is only if that element is the
first. -/
theorem unchanged_iff (h : ∃ node ∈ nodes, ¬ Valid vectorDimension node)
    (hfresh : FreshIds s ids nodes.length) :
    ((addEach vectorDimension ids (resolveNamespace param) s 0 nodes).2.nodes = s.nodes ∧
        (addEach vectorDimension ids (resolveNamespace param) s 0 nodes).2.embeddings = s.embeddings) ↔
      ∀ node ∈ nodes.head?, ¬ Valid vectorDimension node := by
  cases nodes with
  | nil => simp at h
  | cons node nodes =>
    simp only [List.head?_cons, Option.mem_some, forall_eq']
    constructor
    · rintro ⟨hsame, -⟩ ⟨new, hnew⟩
      have hdistinct : ∀ i < nodes.length, ids (0 + 1 + i) ≠ ids 0 := by
        intro i hi heq
        have hzero := hfresh.distinct (0 + 1 + i) (by simp only [List.length_cons]; omega) 0
          (Nat.succ_pos _) heq
        omega
      have hfirst : (addEach vectorDimension ids (resolveNamespace param) s 0
          (node :: nodes)).2.nodes.get (ids 0) = some (new.row (resolveNamespace param)) :=
        addEach_first hnew s 0 hdistinct
      rw [hsame, hfresh.new 0 (Nat.succ_pos _)] at hfirst
      cases hfirst
    · intro hinvalid
      obtain ⟨new, hnew⟩ | ⟨e, he⟩ := valid_or_error vectorDimension node
      · exact absurd ⟨new, hnew⟩ hinvalid
      · rw [addEach_invalid he]
        exact ⟨rfl, rfl⟩

theorem uniform_of_valid (hne : nodes ≠ []) (h : ∀ node ∈ nodes, Valid vectorDimension node) :
    Uniform vectorDimension nodes ↔ ∀ node ∈ nodes, EmbeddingHasNumber node := by
  constructor
  · rintro (hall | hfirst)
    · exact fun node hnode => (hall node hnode).2
    · obtain ⟨node, rest, rfl⟩ := List.exists_cons_of_ne_nil hne
      exact absurd (h node List.mem_cons_self) (hfirst node rfl)
  · exact fun hnumbers => .inl fun node hnode => ⟨h node hnode, hnumbers node hnode⟩

theorem uniform_of_not_valid (h : ∃ node ∈ nodes, ¬ Valid vectorDimension node) :
    Uniform vectorDimension nodes ↔ ∀ node ∈ nodes.head?, ¬ Valid vectorDimension node := by
  refine or_iff_right fun hall => ?_
  obtain ⟨node, hnode, hinvalid⟩ := h
  exact hinvalid (hall node hnode).1

/-- `add_nodes` creates all of a call or nothing exactly when an element that is not valid comes first,
if at all, and every embedding has a number in it. -/
theorem all_or_nothing_iff (vectorDimension : ℕ) (s : Store) (nodes : List Json)
    (param : Option String) :
    AllOrNothing vectorDimension s nodes param ↔ Uniform vectorDimension nodes := by
  by_cases hne : nodes = []
  · subst hne
    exact iff_of_true (fun ids _ => ⟨fun e _ => ⟨rfl, rfl⟩, fun v hv => by cases hv⟩)
      (.inl (by simp))
  by_cases hvalid : ∀ node ∈ nodes, Valid vectorDimension node
  · rw [uniform_of_valid hne hvalid]
    constructor
    · intro hall
      have hfresh := fresh_nextIds s nodes.length
      have hok := (hall _ hfresh).2 _ (by rw [addNodes_ok hne hvalid])
      exact (addedAll_iff hne hvalid hfresh).mp hok
    · intro hnumbers ids hfresh
      refine ⟨?_, fun v _ => (addedAll_iff hne hvalid hfresh).mpr hnumbers⟩
      intro e he
      rw [addNodes_ok hne hvalid] at he
      cases he
  · have hbad : ∃ node ∈ nodes, ¬ Valid vectorDimension node := by simpa using hvalid
    rw [uniform_of_not_valid hbad]
    constructor
    · intro hall
      have hfresh := fresh_nextIds s nodes.length
      obtain ⟨e, he⟩ : ∃ e, (addEach vectorDimension (nextIds s) (resolveNamespace param) s 0 nodes).1 =
        .error e := addEach_error s 0 hbad
      have hsame := (hall _ hfresh).1 e (by rw [addNodes_error hne he])
      rw [addNodes_error hne he] at hsame
      exact (unchanged_iff hbad hfresh).mp hsame
    · intro hfirst ids hfresh
      obtain ⟨e, he⟩ : ∃ e, (addEach vectorDimension ids (resolveNamespace param) s 0 nodes).1 =
        .error e := addEach_error s 0 hbad
      rw [addNodes_error hne he]
      exact ⟨fun _ _ => (unchanged_iff hbad hfresh).mpr hfirst, fun v hv => by cases hv⟩

end Results

/-- Of two elements the second has no content: the first one stays behind. An embedding without a
number leaves no row. -/
theorem addNodes_leaves_first :
    (addNodes 4 (nextIds .empty) .empty [.obj [("content", .str "a")], .obj []] none).1 =
        .error (.validation "add_nodes: every node must have a `content` string") ∧
      (addNodes 4 (nextIds .empty) .empty [.obj [("content", .str "a")], .obj []] none).2.nodes.rows =
        [(1, ⟨"default", "memory", "a", .obj [], false⟩)] ∧
      (addNodes 4 (nextIds .empty) .empty
        [.obj [("content", .str "a"), ("embedding", .arr [.str "x"])]] none).2.embeddings = [] ∧
      ¬ AllOrNothing 4 .empty [.obj [("content", .str "a")], .obj []] none := by
  refine ⟨by decide +kernel, by decide +kernel, by decide +kernel, ?_⟩
  intro hall
  have hsame := (hall _ (fresh_nextIds _ _)).1
    (.validation "add_nodes: every node must have a `content` string") (by decide +kernel)
  have hrows := congrArg Table.rows hsame.1
  revert hrows
  decide +kernel

end Konf.Memory
