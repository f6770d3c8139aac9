import Konf.Mcp.Names
import Konf.Memory.SessionOrder
import Konf.Memory.Tools

/-! # An MCP session and the rest of the memory

The memory tools behind an MCP session (`konf-mcp/src/lib.rs`): the scope of the session binds the
namespace `konf:mcp:http` over whatever the client sends. Other requests, for other namespaces, come from
anywhere, and the statements of all of them interleave. -/

namespace Konf.Memory
open Konf.Substrate Konf.Fallible Konf.Transition Konf.Runtime Konf.Mcp
set_option autoImplicit false

/-! ## Calls of the session -/

/-- What the client sends, with what the server adds. `order` is the order in which the registry lists
its tools. -/
structure SessionCall where
  mcpName : String
  arguments : Option (List (String × Json))
  order : List String
  traceId : Uuid
  at_ : ℕ

inductive SessionReply (F : Type)
  | refused (e : McpError)
  | failed (e : RuntimeError)
  | answered (reply : MemoryReply F)

/-- The session that the server builds a scope for. -/
structure McpSession where
  system : System
  capabilities : List String

def toolFailed {F : Type} (name : String) (e : ToolError) : SessionReply F :=
  .failed (.tool name e.display)

/-- What a call comes to before the backend is asked, if its tool is one of the memory tools: a reply, or
the tool and its request. -/
def McpSession.request {F : Type} (session : McpSession) (c : SessionCall) :
    Option (SessionReply F ⊕ String × MemoryRequest) :=
  match callTool session.system session.capabilities c.order c.traceId c.at_ c.mcpName c.arguments with
  | .error e => some (.inl (.refused e))
  | .ok (.error e) => some (.inl (.failed e))
  | .ok (.ok (tool, env)) => match tool.deliver env with
    | .error e => some (.inl (toolFailed tool.name e))
    | .ok (base, env) => (memoryTool base.name).map fun parse => match parse env.payload with
      | .error e => .inl (toolFailed base.name e)
      | .ok request => .inr (base.name, request)

def mcpNamespace : String := "konf:mcp:http"

section Binding
variable {F : Type} {session : McpSession} {c : SessionCall} {name : String} {request : MemoryRequest}

theorem mcpSessionScope_bindings {capabilities : List String} {t : String} {bindings : StrMap Json}
    (h : (mcpSessionScope capabilities).checkTool t = .ok bindings) :
    bindings.lookup "namespace" = some (.str mcpNamespace) := by
  unfold ExecutionScope.checkTool at h
  split at h
  · rename_i found hfound
    cases h
    obtain ⟨grant, hgrant, hmatch⟩ := List.exists_of_findSome?_eq_some hfound
    obtain ⟨pattern, -, rfl⟩ := List.mem_map.mp hgrant
    unfold CapabilityGrant.matches at hmatch
    split_ifs at hmatch
    cases hmatch
    rfl
  · cases h

/-- The tool that a call goes to is the registered one behind the bindings of the session and the guard. -/
theorem callTool_wrapped {sys : System} {capabilities order : List String} {traceId : Uuid} {now : ℕ}
    {m : String} {arguments : Option (List (String × Json))} {tool : Tool} {env : Envelope}
    (h : callTool sys capabilities order traceId now m arguments = .ok (.ok (tool, env))) :
    ∃ t bindings raw, (mcpSessionScope capabilities).checkTool t = .ok bindings ∧
      tool = sys.guard t (System.virtualize bindings raw) := by
  unfold callTool at h
  simp only at h
  split at h
  · rw [Except.ok.injEq] at h
    unfold System.dispatchTool at h
    obtain ⟨bindings, hcheck, h⟩ := bind_ok h
    split at h
    · cases h
    · rename_i raw hraw
      split at h
      · cases h
      · rw [Except.ok.injEq, Prod.mk.injEq] at h
        exact ⟨_, bindings, raw, hcheck, h.1.symm⟩
  · cases h

/-- No payload escapes the binding: the request of a call is for the namespace of the session. -/
theorem McpSession.request_namespace (h : session.request (F := F) c = some (.inr (name, request))) :
    resolveNamespace request.namespace_ = mcpNamespace := by
  unfold McpSession.request at h
  split at h
  · cases h
  · cases h
  · rename_i tool env hcall
    split at h
    · cases h
    · rename_i base delivered hdeliver
      obtain ⟨parse, hparse, h⟩ := Option.map_eq_some_iff.mp h
      split at h
      · cases h
      · rename_i r hrequest
        obtain ⟨-, rfl⟩ := Prod.mk.inj (Sum.inr.inj h)
        obtain ⟨t, bindings, raw, hcheck, rfl⟩ := callTool_wrapped hcall
        obtain ⟨-, hpayload⟩ := deliver_virtualize (deliver_guard hdeliver).1
        have hfield : strField delivered.payload "namespace" = some mcpNamespace := by
          rw [strField, hpayload, mcpSessionScope_bindings hcheck]
          rfl
        rw [memoryTool_namespace hparse hrequest, hfield]
        rfl

/-- A call that is answered before the backend is asked fails. -/
theorem McpSession.request_early {early : SessionReply F} {reply : MemoryReply F}
    (heq : early = .answered reply) : session.request c ≠ some (.inl early) := by
  subst heq
  intro h
  unfold McpSession.request at h
  split at h
  · cases h
  · cases h
  · split at h
    · cases h
    · obtain ⟨parse, -, h⟩ := Option.map_eq_some_iff.mp h
      split at h
      · cases h
      · cases h

end Binding

/-! ## What a namespace sees of the tables -/

def ofNamespace (n : String) (_ : RecordId) (row : NodeRow) : Bool := row.namespace_ = n

def inNamespace (n : String) (k : Slot) (_ : SessionRow) : Bool := k.session.1 = n

/-- The rows of the namespace are the same in every table. -/
structure MemoryTables.Agree (n : String) (t u : MemoryTables) : Prop where
  nodes : t.store.nodes.filter (ofNamespace n) = u.store.nodes.filter (ofNamespace n)
  embeddings : t.store.embeddings.filter (fun e => e.namespace_ = n) =
    u.store.embeddings.filter fun e => e.namespace_ = n
  events : t.store.events.filter (fun e => e.namespace_ = n) =
    u.store.events.filter fun e => e.namespace_ = n
  sessions : t.sessions.filter (inNamespace n) = u.sessions.filter (inNamespace n)

/-- The request asks for the nearest vectors, which are looked for among the rows of all namespaces. -/
def MemoryRequest.ranks {F : Type} (db : Backend F) : MemoryRequest → Bool
  | .search params =>
    let mode := db.engine.toLowercase (params.mode.getD "text")
    (mode = "vector" || mode = "hybrid") && match extractQueryVector db.config params with
      | .ok (some _) => true
      | _ => false
  | .addNodes _ _ | .state _ => false

def Pending.ranks {F : Type} (db : Backend F) : Pending → Bool
  | .request r => r.ranks db
  | .adding _ _ _ | .state _ _ => false

/-- A search is for so many rows or more. -/
def MemoryRequest.AsksFor {F : Type} (db : Backend F) (least : ℤ) : MemoryRequest → Prop
  | .search params => least ≤ params.effectiveLimit db.config
  | .addNodes _ _ | .state _ => True

def Pending.AsksFor {F : Type} (db : Backend F) (least : ℤ) : Pending → Prop
  | .request r => r.AsksFor db least
  | .adding _ _ _ | .state _ _ => True

instance {F : Type} (db : Backend F) (least : ℤ) : (r : MemoryRequest) → Decidable (r.AsksFor db least)
  | .search params => inferInstanceAs (Decidable (least ≤ params.effectiveLimit db.config))
  | .addNodes _ _ | .state _ => .isTrue trivial

/-- A hit but for its score, which depends on the texts of all namespaces. -/
def Hit.bare {F : Type} (hit : Hit F) : Hit Unit :=
  ⟨hit.id, hit.nodeType, hit.content, hit.metadata, ()⟩

/-- As many rows; and where they are fewer than `least`, the same rows in some order and with some
scores. -/
structure SearchReply.Alike {F : Type} (least : ℤ) (r r' : SearchReply F) : Prop where
  mode : r.mode = r'.mode
  namespace_ : r.namespace_ = r'.namespace_
  count : r.count = r'.count
  length : r.results.length = r'.results.length
  fusion : r.fusion = r'.fusion
  rows : (r.results.length : ℤ) < least → (r.results.map Hit.bare).Perm (r'.results.map Hit.bare)

inductive SessionReply.Alike {F : Type} (least : ℤ) : SessionReply F → SessionReply F → Prop
  | same (reply : SessionReply F) : Alike least reply reply
  | found {r r' : SearchReply F} (h : r.Alike least r') :
    Alike least (.answered (.found r)) (.answered (.found r'))

section Views
variable {F : Type} {db : Backend F} {n : String}

section Sessions
variable {t u : SessionTable} {sid key : String}

theorem get_slot_eq (h : t.filter (inNamespace n) = u.filter (inNamespace n)) :
    t.get (slotOf n sid key) = u.get (slotOf n sid key) := by
  have hget := congrArg (fun v => Table.get v (slotOf n sid key)) h
  simp only [Table.get_filter] at hget
  have hin : inNamespace n (slotOf n sid key) = fun _ => true := by
    funext row
    simp [inNamespace]
  have hall : ∀ o : Option SessionRow, (o.filter fun _ => true) = o := by
    intro o
    cases o <;> rfl
  rw [hin, hall, hall] at hget
  exact hget

theorem session_rows_eq (h : t.filter (inNamespace n) = u.filter (inNamespace n)) :
    (t.rows.filter fun r => r.1.session = (n, sid)) = u.rows.filter fun r => r.1.session = (n, sid) := by
  have hview : ∀ v : SessionTable, (v.rows.filter fun r => r.1.session = (n, sid)) =
      (v.filter (inNamespace n)).rows.filter fun r => r.1.session = (n, sid) := by
    intro v
    simp only [Table.filter, List.filter_filter]
    apply List.filter_congr
    intro r _
    by_cases hr : r.1.session = (n, sid)
    · simp [hr, inNamespace]
    · simp [hr]
  rw [hview t, hview u, h]

/-- A statement of a call for the namespace. -/
theorem statement_agree (surreal : Surreal) {call : StateCall}
    (hcall : resolveNamespace call.namespace_ = n)
    (h : t.filter (inNamespace n) = u.filter (inNamespace n)) (begun : Bool) (now : Time) :
    (call.statement surreal t begun now).2 = (call.statement surreal u begun now).2 ∧
      (call.statement surreal t begun now).1.filter (inNamespace n) =
        (call.statement surreal u begun now).1.filter (inNamespace n) := by
  cases call with
  | set key value sid param ttl =>
    rw [StateCall.namespace_] at hcall
    simp only [StateCall.statement, hcall]
    cases begun with
    | true =>
      simp only [if_true, get_slot_eq h]
      cases surreal.row now value ttl with
      | none => exact ⟨rfl, h⟩
      | some row =>
        cases hget : u.get (slotOf n sid key) with
        | some old => exact ⟨rfl, h⟩
        | none =>
          have hin : inNamespace n (slotOf n sid key) row = true := by simp [inNamespace]
          refine ⟨rfl, ?_⟩
          rw [Table.filter_insert_pos _ hin, Table.filter_insert_pos _ hin, h]
    | false =>
      by_cases hkey : key = ""
      · simp only [hkey, if_true, Bool.false_eq_true, if_false]
        exact ⟨trivial, h⟩
      · simp only [hkey, Bool.false_eq_true, if_false]
        rw [Table.filter_remove, Table.filter_remove, h]
        exact ⟨trivial, rfl⟩
  | get key sid param =>
    rw [StateCall.namespace_] at hcall
    simp only [StateCall.statement, hcall]
    cases begun with
    | true =>
      simp only [if_true, get_slot_eq h]
      exact ⟨trivial, h⟩
    | false =>
      simp only [Bool.false_eq_true, if_false, pruneExpired]
      rw [Table.filter_comm, h, Table.filter_comm]
      exact ⟨trivial, rfl⟩
  | delete key sid param =>
    rw [StateCall.namespace_] at hcall
    simp only [StateCall.statement, hcall, get_slot_eq h]
    rw [Table.filter_remove, Table.filter_remove, h]
    exact ⟨trivial, rfl⟩
  | list sid param =>
    rw [StateCall.namespace_] at hcall
    simp only [StateCall.statement, hcall]
    cases begun with
    | true =>
      simp only [if_true, session_rows_eq h]
      exact ⟨trivial, h⟩
    | false =>
      simp only [Bool.false_eq_true, if_false, pruneExpired]
      rw [Table.filter_comm, h, Table.filter_comm]
      exact ⟨trivial, rfl⟩
  | clear sid param =>
    rw [StateCall.namespace_] at hcall
    simp only [StateCall.statement, hcall, session_rows_eq h, deleteSession]
    rw [Table.filter_comm, h, Table.filter_comm]
    exact ⟨trivial, rfl⟩

/-- A statement of a call for another namespace. -/
theorem statement_foreign (surreal : Surreal) {call : StateCall}
    (hcall : resolveNamespace call.namespace_ ≠ n) (t : SessionTable) (begun : Bool) (now : Time) :
    (call.statement surreal t begun now).1.filter (inNamespace n) = t.filter (inNamespace n) := by
  have hslot : ∀ param, resolveNamespace param ≠ n → ∀ sid key (row : SessionRow),
      inNamespace n (slotOf (resolveNamespace param) sid key) row = false := by
    intro param hne sid key row
    exact decide_eq_false hne
  have hremove : ∀ param, resolveNamespace param ≠ n → ∀ sid key,
      (t.remove (slotOf (resolveNamespace param) sid key)).filter (inNamespace n) =
        t.filter (inNamespace n) := by
    intro param hne sid key
    rw [Table.filter_remove, Table.remove_eq_self]
    rw [Table.get_filter, Option.filter_eq_none_iff]
    intro row _
    simp [hslot param hne sid key row]
  have hkeep : ∀ q : Slot → SessionRow → Bool,
      (∀ k row, inNamespace n k row = true → q k row = true) →
        (t.filter q).filter (inNamespace n) = t.filter (inNamespace n) := by
    intro q hq
    rw [Table.filter_comm, Table.filter_eq_self]
    intro r hr
    exact hq r.1 r.2 (Table.mem_filter.mp hr).2
  have houtside : ∀ param, resolveNamespace param ≠ n → ∀ sid (k : Slot) (row : SessionRow),
      inNamespace n k row = true → k.session ≠ (resolveNamespace param, sid) := by
    intro param hne sid k row hk heq
    rw [inNamespace, heq] at hk
    exact hne (of_decide_eq_true hk)
  cases call with
  | set key value sid param ttl =>
    simp only [StateCall.statement]
    cases begun with
    | true =>
      rw [if_pos rfl]
      cases surreal.row now value ttl with
      | none => rfl
      | some row =>
        cases hget : t.get (slotOf (resolveNamespace param) sid key) with
        | some old => rfl
        | none => exact Table.filter_insert_neg _ (hslot param hcall sid key row) hget
    | false =>
      rw [if_neg Bool.false_ne_true]
      by_cases hkey : key = ""
      · rw [if_pos hkey]
      · rw [if_neg hkey]
        exact hremove param hcall sid key
  | get key sid param | list sid param =>
    simp only [StateCall.statement]
    cases begun with
    | true => rfl
    | false =>
      apply hkeep
      intro k row hk
      simp [houtside param hcall sid k row hk]
  | delete key sid param => exact hremove param hcall sid key
  | clear sid param =>
    apply hkeep
    intro k row hk
    simp [houtside param hcall sid k row hk]

end Sessions

section Searches
variable {s s' : Store} {params : SearchParams}

theorem textHits_bare (h : s.nodes.filter (ofNamespace n) = s'.nodes.filter (ofNamespace n))
    (query : String) : (textHits db.engine s params query n).map Hit.bare =
      (textHits db.engine s' params query n).map Hit.bare := by
  have hview : ∀ v : Store, (textHits db.engine v params query n).map Hit.bare =
      ((v.nodes.filter (ofNamespace n)).rows.filter fun r => !r.2.isRetracted &&
        db.engine.isMatch query r.2.content && params.nodeType.all (r.2.nodeType = ·)).map fun r =>
      ⟨some r.1, some r.2.nodeType, some r.2.content, some r.2.metadata, ()⟩ := by
    intro v
    rw [textHits, List.map_map, Table.filter, List.filter_filter]
    congr 1
    apply List.filter_congr
    intro r _
    simp [ofNamespace, Bool.and_comm, Bool.and_left_comm, Bool.and_assoc]
  rw [hview s, hview s', h]

theorem orderLimit_alike (eng : Engine F) {rows rows' : List (Hit F)} {limit least : ℤ}
    (h : rows.map Hit.bare = rows'.map Hit.bare) (hlimit : least ≤ limit) :
    (orderLimit eng limit rows).length = (orderLimit eng limit rows').length ∧
      (((orderLimit eng limit rows).length : ℤ) < least →
        ((orderLimit eng limit rows).map Hit.bare).Perm
          ((orderLimit eng limit rows').map Hit.bare)) := by
  have hlength : ∀ l : List (Hit F),
      (orderLimit eng limit l).length = min limit.toNat l.length := by
    intro l
    rw [orderLimit, List.length_take, List.length_insertionSort]
  have hsame : rows.length = rows'.length := by
    rw [← List.length_map Hit.bare, h, List.length_map]
  refine ⟨by rw [hlength, hlength, hsame], ?_⟩
  -- where there are fewer rows than the limit, nothing is cut off
  intro hfew
  rw [hlength] at hfew
  have hperm : (rows.map Hit.bare).Perm (rows'.map Hit.bare) := .of_eq h
  exact ((orderLimit_perm (by omega)).map _).trans
    (hperm.trans ((orderLimit_perm (by omega)).map _).symm)

theorem textSearch_alike (hns : resolveNamespace params.namespace_ = n)
    (h : s.nodes.filter (ofNamespace n) = s'.nodes.filter (ofNamespace n)) {least : ℤ}
    (hleast : least ≤ params.effectiveLimit db.config) :
    textSearch db.engine db.config s params = textSearch db.engine db.config s' params ∨
      ∃ r r', textSearch db.engine db.config s params = .ok r ∧
        textSearch db.engine db.config s' params = .ok r' ∧ r.Alike least r' := by
  unfold textSearch
  cases params.query with
  | none => exact .inl rfl
  | some query =>
    simp only [hns]
    obtain ⟨hcount, hrows⟩ := orderLimit_alike db.engine (textHits_bare h query) hleast
    exact .inr ⟨_, _, rfl, rfl, rfl, rfl, hcount, hcount, rfl, hrows⟩

/-- A search that does not rank vectors is the text query, or does not look at the store. -/
theorem run_unranked (hranks : MemoryRequest.ranks db (.search params) = false) :
    (∀ s, run db.engine db.config s params = textSearch db.engine db.config s params) ∨
      ∀ s s', run db.engine db.config s params = run db.engine db.config s' params := by
  unfold run
  cases hvector : extractQueryVector db.config params with
  | error e => exact .inr fun _ _ => rfl
  | ok vector =>
    simp only [bind, Except.bind]
    by_cases htext : db.engine.toLowercase (params.mode.getD "text") = "text"
    · simp only [if_pos htext]
      exact .inl fun _ => trivial
    · simp only [if_neg htext]
      cases vector with
      | none =>
        by_cases hhybrid : db.engine.toLowercase (params.mode.getD "text") = "hybrid"
        · have hmode : "hybrid" ≠ "vector" := by decide
          simp only [hhybrid, if_neg hmode, if_true]
          unfold hybridSearch
          cases params.query with
          | none => exact .inr fun _ _ => rfl
          | some query => exact .inl fun _ => rfl
        · simp only [if_neg hhybrid]
          exact .inr fun _ _ => rfl
      | some qv =>
        simp only [MemoryRequest.ranks, hvector, Bool.and_true, Bool.or_eq_false_iff,
          decide_eq_false_iff_not] at hranks
        simp only [if_neg hranks.1, if_neg hranks.2]
        exact .inr fun _ _ => trivial

/-- A search that does not rank vectors finds the nodes of its namespace only. -/
theorem run_alike (hranks : MemoryRequest.ranks db (.search params) = false)
    (hns : resolveNamespace params.namespace_ = n)
    (h : s.nodes.filter (ofNamespace n) = s'.nodes.filter (ofNamespace n)) {least : ℤ}
    (hleast : least ≤ params.effectiveLimit db.config) :
    run db.engine db.config s params = run db.engine db.config s' params ∨
      ∃ r r', run db.engine db.config s params = .ok r ∧
        run db.engine db.config s' params = .ok r' ∧ r.Alike least r' := by
  obtain htext | hconst := run_unranked hranks
  · rw [htext s, htext s']
    exact textSearch_alike hns h hleast
  · exact .inl (hconst s s')

end Searches

section Steps
variable {t u : MemoryTables} {p : Pending} (now : Time) (record : RecordId)

theorem MemoryTables.Agree.refl (n : String) (t : MemoryTables) : t.Agree n t := ⟨rfl, rfl, rfl, rfl⟩

theorem MemoryTables.Agree.symm (h : t.Agree n u) : u.Agree n t :=
  ⟨h.nodes.symm, h.embeddings.symm, h.events.symm, h.sessions.symm⟩

theorem MemoryTables.Agree.trans {v : MemoryTables} (h : t.Agree n u) (h' : u.Agree n v) : t.Agree n v :=
  ⟨h.nodes.trans h'.nodes, h.embeddings.trans h'.embeddings, h.events.trans h'.events,
    h.sessions.trans h'.sessions⟩

theorem addStep_agree (h : t.Agree n u) (createdCount : ℕ) (nodes : List Json) :
    (addStep db t n createdCount record nodes).2 = (addStep db u n createdCount record nodes).2 ∧
      (addStep db t n createdCount record nodes).1.Agree n
        (addStep db u n createdCount record nodes).1 := by
  cases nodes with
  | nil =>
    refine ⟨rfl, h.nodes, h.embeddings, ?_, h.sessions⟩
    simp only [addStep, Store.recordEvent, List.filter_append, h.events]
  | cons node rest =>
    simp only [addStep]
    cases parseNode db.config.vectorDimension node with
    | error e => exact ⟨rfl, h⟩
    | ok new =>
      have hown : ofNamespace n record (new.row n) = true := by simp [ofNamespace, NewNode.row]
      refine ⟨rfl, ?_, ?_, h.events, h.sessions⟩
      · simp only [Store.create]
        rw [Table.filter_insert_pos _ hown, Table.filter_insert_pos _ hown, h.nodes]
      · simp only [Store.create, List.filter_append, h.embeddings]

theorem stateStep_agree {call : StateCall} (hcall : resolveNamespace call.namespace_ = n)
    (h : t.Agree n u) (begun : Bool) :
    (stateStep db t call begun now).2 = (stateStep db u call begun now).2 ∧
      (stateStep db t call begun now).1.Agree n (stateStep db u call begun now).1 := by
  obtain ⟨hreply, htable⟩ := statement_agree db.surreal hcall h.sessions begun now
  refine ⟨?_, h.nodes, h.embeddings, h.events, htable⟩
  simp only [stateStep, hreply]

/-- Whether a request goes on does not depend on what is found, nor does what it stores. -/
theorem step_left_agree (hp : p.namespace_ = n) (h : t.Agree n u) :
    (p.step db t now record).2.getLeft? = (p.step db u now record).2.getLeft? ∧
      (p.step db t now record).1.Agree n (p.step db u now record).1 := by
  cases p with
  | request r =>
    cases r with
    | search params => exact ⟨rfl, h⟩
    | addNodes nodes param =>
      by_cases hempty : nodes = []
      · simp only [Pending.step, if_pos hempty]
        exact ⟨trivial, h⟩
      · simp only [Pending.step, if_neg hempty]
        exact ⟨trivial, h⟩
    | state call => exact (stateStep_agree now hp h false).imp (congrArg Sum.getLeft?) id
  | adding ns nodes createdCount =>
    rw [Pending.namespace_] at hp
    subst hp
    exact (addStep_agree record h createdCount nodes).imp (congrArg Sum.getLeft?) id
  | state call begun => exact (stateStep_agree now hp h begun).imp (congrArg Sum.getLeft?) id

/-- A step for the namespace is answered alike. -/
theorem step_alike (hp : p.namespace_ = n) (hranks : p.ranks db = false) {least : ℤ}
    (hleast : p.AsksFor db least) (h : t.Agree n u) :
    (p.step db t now record).2 = (p.step db u now record).2 ∨
      ∃ r r', (p.step db t now record).2 = .inr (.ok (.found r)) ∧
        (p.step db u now record).2 = .inr (.ok (.found r')) ∧ r.Alike least r' := by
  cases p with
  | request r =>
    cases r with
    | search params =>
      simp only [Pending.step]
      obtain heq | ⟨r, r', hr, hr', halike⟩ := run_alike hranks hp h.nodes hleast
      · exact .inl (by rw [heq])
      · exact .inr ⟨r, r', by rw [hr]; rfl, by rw [hr']; rfl, halike⟩
    | addNodes nodes param =>
      refine .inl ?_
      by_cases hempty : nodes = []
      · simp only [Pending.step, if_pos hempty]
      · simp only [Pending.step, if_neg hempty]
    | state call => exact .inl (stateStep_agree now hp h false).1
  | adding ns nodes createdCount =>
    rw [Pending.namespace_] at hp
    subst hp
    exact .inl (addStep_agree record h createdCount nodes).1
  | state call begun => exact .inl (stateStep_agree now hp h begun).1

/-- A step for another namespace leaves what the namespace sees. -/
theorem step_foreign (hp : p.namespace_ ≠ n) (hfresh : t.store.nodes.get record = none) :
    (p.step db t now record).1.Agree n t := by
  cases p with
  | request r =>
    cases r with
    | search params => exact .refl n t
    | addNodes nodes param =>
      simp only [Pending.step]
      split
      · exact .refl n t
      · exact .refl n t
    | state call => exact ⟨rfl, rfl, rfl, statement_foreign db.surreal hp t.sessions false now⟩
  | adding ns nodes createdCount =>
    have hns : ns ≠ n := hp
    cases nodes with
    | nil =>
      refine ⟨rfl, rfl, ?_, rfl⟩
      simp [Pending.step, addStep, Store.recordEvent, hns]
    | cons node nodes =>
      simp only [Pending.step, addStep]
      cases parseNode db.config.vectorDimension node with
      | error e => exact .refl n t
      | ok new =>
        have hother : ofNamespace n record (new.row ns) = false := decide_eq_false hns
        have hembedding : (new.embeddingRows ns record).filter (fun e => e.namespace_ = n) = [] := by
          unfold NewNode.embeddingRows
          split
          · rfl
          · simp [hns]
        refine ⟨Table.filter_insert_neg _ hother hfresh, ?_, rfl, rfl⟩
        simp only [Store.create, List.filter_append, hembedding, List.append_nil]
  | state call begun => exact ⟨rfl, rfl, rfl, statement_foreign db.surreal hp t.sessions begun now⟩

/-- What is left of a request is for the same namespace, and is no search. -/
theorem step_rest {rest : Pending} (h : (p.step db t now record).2 = .inl rest) :
    rest.namespace_ = p.namespace_ ∧ rest.ranks db = false ∧ ∀ least, rest.AsksFor db least := by
  have hstate : ∀ (call : StateCall) (begun : Bool),
      (stateStep db t call begun now).2 = .inl rest → rest = .state call true := by
    intro call begun hrest
    simp only [stateStep] at hrest
    split at hrest
    · exact (Sum.inl.inj hrest).symm
    · cases hrest
  cases p with
  | request r =>
    cases r with
    | search params => cases h
    | addNodes nodes param =>
      simp only [Pending.step] at h
      split at h
      · cases h
      · cases h
        exact ⟨rfl, rfl, fun _ => trivial⟩
    | state call =>
      rw [hstate call false h]
      exact ⟨rfl, rfl, fun _ => trivial⟩
  | adding ns nodes createdCount =>
    cases nodes with
    | nil => cases h
    | cons node nodes =>
      simp only [Pending.step, addStep] at h
      split at h
      · cases h
      · cases h
        exact ⟨rfl, rfl, fun _ => trivial⟩
  | state call begun =>
    rw [hstate call begun h]
    exact ⟨rfl, rfl, fun _ => trivial⟩

/-- New nodes are new rows. -/
theorem step_absent {id : RecordId} (h : (p.step db t now record).1.store.nodes.get id = none) :
    t.store.nodes.get id = none := by
  cases p with
  | request r =>
    cases r with
    | search params => exact h
    | addNodes nodes param =>
      simp only [Pending.step] at h
      split at h
      · exact h
      · exact h
    | state call => exact h
  | adding ns nodes createdCount =>
    cases nodes with
    | nil => exact h
    | cons node nodes =>
      simp only [Pending.step, addStep] at h
      split at h
      · exact h
      · by_cases hid : id = record
        · rw [hid, Store.create, Table.get_insert_self] at h
          cases h
        · rw [Store.create, Table.get_insert_ne hid] at h
          exact h
  | state call begun => exact h

/-- A step that adds a row to one table adds it to another one that had no row there either. -/
theorem step_absent_agree (hnodes : ∀ id, t.store.nodes.get id = none → u.store.nodes.get id = none)
    {id : RecordId} (h : (p.step db t now record).1.store.nodes.get id = none) :
    (p.step db u now record).1.store.nodes.get id = none := by
  cases p with
  | request r =>
    cases r with
    | search params => exact hnodes id h
    | addNodes nodes param =>
      by_cases hempty : nodes = []
      · simp only [Pending.step, if_pos hempty] at h ⊢
        exact hnodes id h
      · simp only [Pending.step, if_neg hempty] at h ⊢
        exact hnodes id h
    | state call => exact hnodes id h
  | adding ns nodes createdCount =>
    cases nodes with
    | nil => exact hnodes id h
    | cons node nodes =>
      simp only [Pending.step, addStep] at h ⊢
      split at h
      · exact hnodes id h
      · by_cases hid : id = record
        · rw [hid, Store.create, Table.get_insert_self] at h
          cases h
        · rw [Store.create, Table.get_insert_ne hid] at h ⊢
          exact hnodes id h
  | state call begun => exact hnodes id h

end Steps
end Views

/-! ## The service -/

/-- The tables, the requests that are being answered, and the replies to the session so far, each under
the number of its call. -/
structure MemoryService (F : Type) where
  tables : MemoryTables
  session : Table ℕ (String × Pending)
  others : Table ℕ Pending
  replies : List (ℕ × SessionReply F)

inductive MemoryMove
  | call (id : ℕ) (c : SessionCall)
  | advance (id : ℕ) (now : Time) (record : RecordId)
  | otherCall (id : ℕ) (request : MemoryRequest)
  | otherAdvance (id : ℕ) (now : Time) (record : RecordId)

def MemoryMove.ofSession : MemoryMove → Bool
  | .call _ _ | .advance _ _ _ => true
  | .otherCall _ _ | .otherAdvance _ _ _ => false

namespace MemoryService
variable {F : Type} (db : Backend F) (session : McpSession)

def sessionReply (name : String) : Except MemoryError (MemoryReply F) → SessionReply F
  | .ok reply => .answered reply
  | .error e => toolFailed name (memErr e)

def settle (s : MemoryService F) (id : ℕ) (name : String) (after : MemoryTables × Progress F) :
    MemoryService F :=
  match after.2 with
  | .inl rest => { s with tables := after.1, session := s.session.insert id (name, rest) }
  | .inr reply => { s with
      tables := after.1
      session := s.session.remove id
      replies := s.replies ++ [(id, sessionReply name reply)] }

def settleOther (s : MemoryService F) (id : ℕ) (after : MemoryTables × Progress F) : MemoryService F :=
  { s with
    tables := after.1
    others := match after.2.getLeft? with
      | some rest => s.others.insert id rest
      | none => s.others.remove id }

/-- The record ids that SurrealDB draws are new. -/
def apply (s : MemoryService F) : MemoryMove → Option (MemoryService F)
  | .call id c =>
    if (s.session.get id).isSome then none
    else (session.request c).map fun
      | .inl reply => { s with replies := s.replies ++ [(id, reply)] }
      | .inr (name, request) => { s with session := s.session.insert id (name, .request request) }
  | .advance id now record =>
    if (s.tables.store.nodes.get record).isSome then none
    else (s.session.get id).map fun p => s.settle id p.1 (p.2.step db s.tables now record)
  | .otherCall id request =>
    if (s.others.get id).isSome then none
    else some { s with others := s.others.insert id (.request request) }
  | .otherAdvance id now record =>
    if (s.tables.store.nodes.get record).isSome then none
    else (s.others.get id).map fun p => s.settleOther id (p.step db s.tables now record)

/-- Nothing is being answered. -/
structure Idle (s : MemoryService F) : Prop where
  session : s.session = .empty
  others : s.others = .empty

/-! ## A memory that is shared -/

def sampleBackend : Backend ℕ := ⟨plainEngine, ⟨1, 60, 100, 10⟩, sampleDb⟩

def sampleSession : McpSession :=
  ⟨baseSystem [.plain "memory:search", .plain "memory:store"], ["memory:*"]⟩

/-- The client asks for a namespace that it does not get. -/
def sampleCall (mcpName key : String) (value : Json) : SessionCall :=
  ⟨mcpName, some [(key, value), ("namespace", .str "konf:other")], sampleSession.system.registry.names, 0, 0⟩

def emptyService : MemoryService ℕ := ⟨⟨.empty, .empty⟩, .empty, .empty, []⟩

def note : Json := .obj [("content", .str "a")]

/-- The session and another user store a note each, and then the session looks for its own. -/
def sharedMoves : List MemoryMove :=
  [.call 0 (sampleCall "memory_store" "nodes" (.arr [note])),
    .otherCall 0 (.addNodes [note] (some "konf:other")), .advance 0 0 1, .otherAdvance 0 0 1,
    .otherAdvance 0 0 1, .advance 0 0 2, .advance 0 0 3,
    .call 1 (sampleCall "memory_search" "query" (.str "a")), .otherAdvance 0 0 3, .advance 1 0 3]

def sharedRun : Option (MemoryService ℕ) :=
  exec (apply sampleBackend sampleSession) emptyService sharedMoves

theorem sharedRun_ends : ∃ s, sharedRun = some s := by
  apply Option.isSome_iff_exists.mp
  decide +kernel

/-! ## The session alone -/

/-- The replies to the same calls, alike one by one. -/
def RepliesAlike (least : ℕ → ℤ) : List (ℕ × SessionReply F) → List (ℕ × SessionReply F) → Prop :=
  List.Forall₂ fun a b => a.1 = b.1 ∧ a.2.Alike (least a.1) b.2

/-- A run, and the run of the session alone. -/
structure Alone (least : ℕ → ℤ) (s t : MemoryService F) : Prop where
  session : s.session = t.session
  replies : RepliesAlike least s.replies t.replies
  agree : s.tables.Agree mcpNamespace t.tables
  absent : ∀ id, s.tables.store.nodes.get id = none → t.tables.store.nodes.get id = none
  own : ∀ id p, s.session.get id = some p →
    p.2.namespace_ = mcpNamespace ∧ p.2.ranks db = false ∧ p.2.AsksFor db (least id)
  foreign : ∀ id p, s.others.get id = some p → p.namespace_ ≠ mcpNamespace

/-- What the run is to respect: the others stay out of the namespace of the session, and the session
does not rank vectors. Its searches are for at least as many rows as `least` has under their calls. -/
def Respects (least : ℕ → ℤ) : MemoryMove → Prop
  | .call id c => ∀ r ∈ session.request (F := F) c, ∀ p ∈ r.getRight?,
    p.2.ranks db = false ∧ p.2.AsksFor db (least id)
  | .otherCall _ request => resolveNamespace request.namespace_ ≠ mcpNamespace
  | .advance _ _ _ | .otherAdvance _ _ _ => True

instance (least : ℕ → ℤ) : (m : MemoryMove) → Decidable (Respects (F := F) db session least m)
  | .call id c => inferInstanceAs (Decidable (∀ r ∈ session.request (F := F) c, ∀ p ∈ r.getRight?,
      p.2.ranks db = false ∧ p.2.AsksFor db (least id)))
  | .otherCall _ request => inferInstanceAs (Decidable (resolveNamespace request.namespace_ ≠ mcpNamespace))
  | .advance _ _ _ | .otherAdvance _ _ _ => .isTrue trivial

def ownView (m : MemoryMove) : Option MemoryMove := if m.ofSession then some m else none

section Alone
variable {db} {session} {least : ℕ → ℤ} {s s' t : MemoryService F} {m : MemoryMove}

theorem RepliesAlike.concat {l l' : List (ℕ × SessionReply F)} (h : RepliesAlike least l l') (id : ℕ)
    {reply reply' : SessionReply F} (hreply : reply.Alike (least id) reply') :
    RepliesAlike least (l ++ [(id, reply)]) (l' ++ [(id, reply')]) :=
  List.rel_append h (.cons ⟨rfl, hreply⟩ .nil)

theorem Alone.call (h : s.Alone db least t) {id : ℕ} {c : SessionCall}
    (hm : Respects (F := F) db session least (.call id c)) (hs : s.apply db session (.call id c) = some s') :
    ∃ t', t.apply db session (.call id c) = some t' ∧ s'.Alone db least t' := by
  rw [apply, Option.ite_none_left_eq_some] at hs
  obtain ⟨hnew, hs⟩ := hs
  obtain ⟨r, hr, rfl⟩ := Option.map_eq_some_iff.mp hs
  rw [apply, ← h.session, if_neg hnew, hr, Option.map_some]
  refine ⟨_, rfl, ?_⟩
  cases r with
  | inl reply => exact ⟨rfl, h.replies.concat id (.same reply), h.agree, h.absent, h.own, h.foreign⟩
  | inr p =>
    refine ⟨rfl, h.replies, h.agree, h.absent, ?_, h.foreign⟩
    intro j q hq
    by_cases hj : j = id
    · rw [hj, Table.get_insert_self, Option.some.injEq] at hq
      rw [← hq, hj]
      exact ⟨McpSession.request_namespace hr, hm (.inr p) hr p rfl⟩
    · rw [Table.get_insert_ne hj] at hq
      exact h.own j q hq

theorem Alone.advance (h : s.Alone db least t) {id : ℕ} {now : Time} {record : RecordId}
    (hs : s.apply db session (.advance id now record) = some s') :
    ∃ t', t.apply db session (.advance id now record) = some t' ∧ s'.Alone db least t' := by
  rw [apply, Option.ite_none_left_eq_some] at hs
  obtain ⟨hfresh, hs⟩ := hs
  rw [Bool.not_eq_true, Option.isSome_eq_false_iff, Option.isNone_iff_eq_none] at hfresh
  obtain ⟨p, hp, rfl⟩ := Option.map_eq_some_iff.mp hs
  have hfresh' := h.absent record hfresh
  rw [apply, if_neg (by rw [hfresh']; exact Bool.false_ne_true), ← h.session, hp, Option.map_some]
  refine ⟨_, rfl, ?_⟩
  obtain ⟨hns, hranks, hleast⟩ := h.own id p hp
  have hboth : (p.2.step db s.tables now record).2.getLeft? =
        (p.2.step db t.tables now record).2.getLeft? ∧
      (p.2.step db s.tables now record).1.Agree mcpNamespace (p.2.step db t.tables now record).1 :=
    step_left_agree now record hns h.agree
  obtain ⟨hleft, hagree⟩ := hboth
  have habsent : ∀ j, (p.2.step db s.tables now record).1.store.nodes.get j = none →
      (p.2.step db t.tables now record).1.store.nodes.get j = none :=
    fun j => step_absent_agree now record h.absent
  have hdone : ∀ reply reply', (p.2.step db s.tables now record).2 = .inr reply →
      (p.2.step db t.tables now record).2 = .inr reply' →
      (sessionReply p.1 reply).Alike (least id) (sessionReply p.1 reply') := by
    intro reply reply' hreply hreply'
    obtain heq | ⟨r, r', hr, hr', halike⟩ := step_alike now record hns hranks hleast h.agree
    · rw [hreply, hreply', Sum.inr.injEq] at heq
      exact heq ▸ .same _
    · rw [hreply, Sum.inr.injEq] at hr
      rw [hreply', Sum.inr.injEq] at hr'
      rw [hr, hr']
      exact .found halike
  unfold settle
  cases hprogress : (p.2.step db s.tables now record).2 with
  | inl rest =>
    rw [hprogress] at hleft
    rw [Sum.getLeft?_eq_some_iff.mp hleft.symm]
    refine ⟨congrArg (·.insert id (p.1, rest)) h.session, h.replies, hagree, habsent, ?_, h.foreign⟩
    intro j q hq
    by_cases hj : j = id
    · rw [hj, Table.get_insert_self, Option.some.injEq] at hq
      obtain ⟨hsame, hplain, hany⟩ := step_rest now record hprogress
      rw [← hq]
      exact ⟨hsame.trans hns, hplain, hany _⟩
    · rw [Table.get_insert_ne hj] at hq
      exact h.own j q hq
  | inr reply =>
    rw [hprogress] at hleft
    obtain ⟨reply', hprogress'⟩ := Sum.isRight_iff.mp (Sum.getLeft?_eq_none_iff.mp hleft.symm)
    rw [hprogress']
    refine ⟨congrArg (·.remove id) h.session, h.replies.concat id (hdone reply reply' hprogress hprogress'),
      hagree, habsent, ?_, h.foreign⟩
    intro j q hq
    exact h.own j q (Table.get_eq_some_iff.mpr (Table.mem_remove.mp (Table.get_eq_some_iff.mp hq)).2)

theorem Alone.otherCall (h : s.Alone db least t) {id : ℕ} {request : MemoryRequest}
    (hm : Respects (F := F) db session least (.otherCall id request))
    (hs : s.apply db session (.otherCall id request) = some s') : s'.Alone db least t := by
  rw [apply, Option.ite_none_left_eq_some, Option.some.injEq] at hs
  obtain ⟨-, rfl⟩ := hs
  refine ⟨h.session, h.replies, h.agree, h.absent, h.own, ?_⟩
  intro j q hq
  by_cases hj : j = id
  · rw [hj, Table.get_insert_self, Option.some.injEq] at hq
    rw [← hq]
    exact hm
  · rw [Table.get_insert_ne hj] at hq
    exact h.foreign j q hq

theorem Alone.otherAdvance (h : s.Alone db least t) {id : ℕ} {now : Time} {record : RecordId}
    (hs : s.apply db session (.otherAdvance id now record) = some s') : s'.Alone db least t := by
  rw [apply, Option.ite_none_left_eq_some] at hs
  obtain ⟨hfresh, hs⟩ := hs
  rw [Bool.not_eq_true, Option.isSome_eq_false_iff, Option.isNone_iff_eq_none] at hfresh
  obtain ⟨p, hp, rfl⟩ := Option.map_eq_some_iff.mp hs
  have hns := h.foreign id p hp
  have hview : (p.step db s.tables now record).1.Agree mcpNamespace s.tables :=
    step_foreign now record hns hfresh
  refine ⟨h.session, h.replies, hview.trans h.agree, fun j hj => h.absent j (step_absent now record hj), h.own, ?_⟩
  intro j q hq
  simp only [settleOther] at hq
  split at hq
  · rename_i rest hrest
    by_cases hj : j = id
    · rw [hj, Table.get_insert_self, Option.some.injEq] at hq
      rw [← hq, (step_rest now record (Sum.getLeft?_eq_some_iff.mp hrest)).1]
      exact hns
    · rw [Table.get_insert_ne hj] at hq
      exact h.foreign j q hq
  · exact h.foreign j q (Table.get_eq_some_iff.mpr (Table.mem_remove.mp (Table.get_eq_some_iff.mp hq)).2)

/-- The step lemma: the session goes on alone as it does in company. -/
theorem Alone.step (h : s.Alone db least t) (hm : Respects (F := F) db session least m)
    (hs : s.apply db session m = some s') :
    ∃ t', exec (apply db session) t (ownView m).toList = some t' ∧ s'.Alone db least t' := by
  cases m with
  | call id c =>
    obtain ⟨t', ht, halone⟩ := h.call hm hs
    refine ⟨t', ?_, halone⟩
    show (t.apply db session (.call id c)).bind (exec (apply db session) · []) = some t'
    rw [ht]
    rfl
  | advance id now record =>
    obtain ⟨t', ht, halone⟩ := h.advance hs
    refine ⟨t', ?_, halone⟩
    show (t.apply db session (.advance id now record)).bind (exec (apply db session) · []) = some t'
    rw [ht]
    rfl
  | otherCall id request => exact ⟨t, rfl, h.otherCall hm hs⟩
  | otherAdvance id now record => exact ⟨t, rfl, h.otherAdvance hs⟩

end Alone

/-- The replies of the session are what they would be if nobody else used the memory, but for the scores
of a text search and what they lead to, as long as it does not rank vectors and the others keep out of its
namespace; and so are the rows of its namespace. -/
theorem session_hears_nothing {least : ℕ → ℤ} {s s' : MemoryService F} {ms : List MemoryMove}
    (hidle : s.Idle) (hms : ∀ m ∈ ms, Respects (F := F) db session least m)
    (hrun : exec (apply db session) s ms = some s') :
    ∃ t, exec (apply db session) s (ms.filter MemoryMove.ofSession) = some t ∧
      RepliesAlike least s'.replies t.replies ∧ s'.tables.Agree mcpNamespace t.tables := by
  have halone : s.Alone db least s := by
    refine ⟨rfl, List.forall₂_same.mpr fun a _ => ⟨rfl, .same a.2⟩, .refl _ _, fun _ h => h, ?_, ?_⟩
    · intro id p hp
      rw [hidle.session] at hp
      cases hp
    · intro id p hp
      rw [hidle.others] at hp
      cases hp
  obtain ⟨t, ht, h⟩ := exec_project (fun s m s' t hR hm hs => Alone.step hR hm hs) hms halone hrun
  refine ⟨t, ?_, h.replies, h.agree⟩
  rw [← List.filterMap_eq_filter]
  exact ht

theorem session_hears_nothing_shared : ∃ s t : MemoryService ℕ, sharedRun = some s ∧
    exec (apply sampleBackend sampleSession) emptyService (sharedMoves.filter MemoryMove.ofSession) =
      some t ∧ RepliesAlike (fun _ => 10) s.replies t.replies ∧ s.tables.store.nodes.rows.length = 2 ∧
      t.tables.store.nodes.rows.length = 1 := by
  obtain ⟨s, hs⟩ := sharedRun_ends
  have hms : ∀ m ∈ sharedMoves, Respects (F := ℕ) sampleBackend sampleSession (fun _ => 10) m := by
    decide +kernel
  obtain ⟨t, ht, hreplies, -⟩ :=
    session_hears_nothing sampleBackend sampleSession ⟨rfl, rfl⟩ hms hs
  have hkeys : ∀ s ∈ sharedRun, s.tables.store.nodes.rows.length = 2 := by decide +kernel
  have halone : ∀ t ∈ exec (apply sampleBackend sampleSession) emptyService
      (sharedMoves.filter MemoryMove.ofSession), t.tables.store.nodes.rows.length = 1 := by decide +kernel
  exact ⟨s, t, hs, ht, hreplies, hkeys s hs, halone t ht⟩

/-! ## The others alone -/

/-- A run, and the run of the others alone. -/
structure Without (s u : MemoryService F) : Prop where
  others : s.others = u.others
  agree : ∀ n, n ≠ mcpNamespace → s.tables.Agree n u.tables
  absent : ∀ id, s.tables.store.nodes.get id = none → u.tables.store.nodes.get id = none
  own : ∀ id p, s.session.get id = some p → p.2.namespace_ = mcpNamespace
  foreign : ∀ id p, s.others.get id = some p → p.namespace_ ≠ mcpNamespace

/-- The others stay out of the namespace of the session. -/
def KeepsOut : MemoryMove → Prop
  | .otherCall _ request => resolveNamespace request.namespace_ ≠ mcpNamespace
  | .call _ _ | .advance _ _ _ | .otherAdvance _ _ _ => True

instance : (m : MemoryMove) → Decidable (KeepsOut m)
  | .otherCall _ request => inferInstanceAs (Decidable (resolveNamespace request.namespace_ ≠ mcpNamespace))
  | .call _ _ | .advance _ _ _ | .otherAdvance _ _ _ => .isTrue trivial

def otherView (m : MemoryMove) : Option MemoryMove := if m.ofSession then none else some m

section Without
variable {db} {session} {s s' u : MemoryService F} {m : MemoryMove}

theorem Without.call (h : s.Without u) {id : ℕ} {c : SessionCall}
    (hs : s.apply db session (.call id c) = some s') : s'.Without u := by
  rw [apply, Option.ite_none_left_eq_some] at hs
  obtain ⟨r, hr, rfl⟩ := Option.map_eq_some_iff.mp hs.2
  cases r with
  | inl reply => exact ⟨h.others, h.agree, h.absent, h.own, h.foreign⟩
  | inr p =>
    refine ⟨h.others, h.agree, h.absent, ?_, h.foreign⟩
    intro j q hq
    by_cases hj : j = id
    · rw [hj, Table.get_insert_self, Option.some.injEq] at hq
      rw [← hq]
      exact McpSession.request_namespace hr
    · rw [Table.get_insert_ne hj] at hq
      exact h.own j q hq

theorem Without.advance (h : s.Without u) {id : ℕ} {now : Time} {record : RecordId}
    (hs : s.apply db session (.advance id now record) = some s') : s'.Without u := by
  rw [apply, Option.ite_none_left_eq_some] at hs
  obtain ⟨hfresh, hs⟩ := hs
  rw [Bool.not_eq_true, Option.isSome_eq_false_iff, Option.isNone_iff_eq_none] at hfresh
  obtain ⟨p, hp, rfl⟩ := Option.map_eq_some_iff.mp hs
  have hns := h.own id p hp
  have hview : ∀ n, n ≠ mcpNamespace → (p.2.step db s.tables now record).1.Agree n u.tables := by
    intro n hn
    exact (step_foreign now record (hns.trans_ne (Ne.symm hn)) hfresh).trans (h.agree n hn)
  have habsent : ∀ j, (p.2.step db s.tables now record).1.store.nodes.get j = none →
      u.tables.store.nodes.get j = none := fun j hj => h.absent j (step_absent now record hj)
  unfold settle
  cases hprogress : (p.2.step db s.tables now record).2 with
  | inl rest =>
    refine ⟨h.others, hview, habsent, ?_, h.foreign⟩
    intro j q hq
    by_cases hj : j = id
    · rw [hj, Table.get_insert_self, Option.some.injEq] at hq
      rw [← hq]
      exact (step_rest now record hprogress).1.trans hns
    · rw [Table.get_insert_ne hj] at hq
      exact h.own j q hq
  | inr reply =>
    refine ⟨h.others, hview, habsent, ?_, h.foreign⟩
    intro j q hq
    exact h.own j q (Table.get_eq_some_iff.mpr (Table.mem_remove.mp (Table.get_eq_some_iff.mp hq)).2)

theorem Without.otherCall (h : s.Without u) {id : ℕ} {request : MemoryRequest}
    (hm : KeepsOut (.otherCall id request))
    (hs : s.apply db session (.otherCall id request) = some s') :
    ∃ u', u.apply db session (.otherCall id request) = some u' ∧ s'.Without u' := by
  rw [apply, Option.ite_none_left_eq_some, Option.some.injEq] at hs
  obtain ⟨hnew, rfl⟩ := hs
  rw [apply, ← h.others, if_neg hnew]
  refine ⟨_, rfl, rfl, h.agree, h.absent, h.own, ?_⟩
  intro j q hq
  by_cases hj : j = id
  · rw [hj, Table.get_insert_self, Option.some.injEq] at hq
    rw [← hq]
    exact hm
  · rw [Table.get_insert_ne hj] at hq
    exact h.foreign j q hq

theorem Without.otherAdvance (h : s.Without u) {id : ℕ} {now : Time} {record : RecordId}
    (hs : s.apply db session (.otherAdvance id now record) = some s') :
    ∃ u', u.apply db session (.otherAdvance id now record) = some u' ∧ s'.Without u' := by
  rw [apply, Option.ite_none_left_eq_some] at hs
  obtain ⟨hfresh, hs⟩ := hs
  rw [Bool.not_eq_true, Option.isSome_eq_false_iff, Option.isNone_iff_eq_none] at hfresh
  obtain ⟨p, hp, rfl⟩ := Option.map_eq_some_iff.mp hs
  have hfresh' := h.absent record hfresh
  rw [apply, if_neg (by rw [hfresh']; exact Bool.false_ne_true), ← h.others, hp, Option.map_some]
  have hns := h.foreign id p hp
  have hboth : (p.step db s.tables now record).2.getLeft? = (p.step db u.tables now record).2.getLeft? ∧
      (p.step db s.tables now record).1.Agree p.namespace_ (p.step db u.tables now record).1 :=
    step_left_agree now record rfl (h.agree p.namespace_ hns)
  obtain ⟨hleft, hown⟩ := hboth
  refine ⟨_, rfl, ?_, ?_, ?_, h.own, ?_⟩
  · simp only [settleOther]
    rw [hleft, h.others]
  · intro n hn
    by_cases hpn : p.namespace_ = n
    · exact hpn ▸ hown
    · exact (step_foreign now record hpn hfresh).trans
        ((h.agree n hn).trans (step_foreign now record hpn hfresh').symm)
  · intro j hj
    exact step_absent_agree now record h.absent hj
  · intro j q hq
    simp only [settleOther] at hq
    split at hq
    · rename_i rest hrest
      by_cases hj : j = id
      · rw [hj, Table.get_insert_self, Option.some.injEq] at hq
        rw [← hq, (step_rest now record (Sum.getLeft?_eq_some_iff.mp hrest)).1]
        exact hns
      · rw [Table.get_insert_ne hj] at hq
        exact h.foreign j q hq
    · exact h.foreign j q
        (Table.get_eq_some_iff.mpr (Table.mem_remove.mp (Table.get_eq_some_iff.mp hq)).2)

theorem Without.step (h : s.Without u) (hm : KeepsOut m) (hs : s.apply db session m = some s') :
    ∃ u', exec (apply db session) u (otherView m).toList = some u' ∧ s'.Without u' := by
  cases m with
  | call id c => exact ⟨u, rfl, h.call hs⟩
  | advance id now record => exact ⟨u, rfl, h.advance hs⟩
  | otherCall id request =>
    obtain ⟨u', hu, hwithout⟩ := h.otherCall hm hs
    refine ⟨u', ?_, hwithout⟩
    show (u.apply db session (.otherCall id request)).bind (exec (apply db session) · []) = some u'
    rw [hu]
    rfl
  | otherAdvance id now record =>
    obtain ⟨u', hu, hwithout⟩ := h.otherAdvance hs
    refine ⟨u', ?_, hwithout⟩
    show (u.apply db session (.otherAdvance id now record)).bind (exec (apply db session) · []) = some u'
    rw [hu]
    rfl

end Without

/-- Whatever the session sends, the tables of all other namespaces are what the others alone make of
them. -/
theorem session_changes_nothing {s s' : MemoryService F} {ms : List MemoryMove} (hidle : s.Idle)
    (hms : ∀ m ∈ ms, KeepsOut m) (hrun : exec (apply db session) s ms = some s') :
    ∃ u, exec (apply db session) s (ms.filter fun m => !m.ofSession) = some u ∧
      s'.others = u.others ∧ ∀ n, n ≠ mcpNamespace → s'.tables.Agree n u.tables := by
  have hwithout : s.Without s := by
    refine ⟨rfl, fun n _ => .refl n _, fun _ h => h, ?_, ?_⟩
    · intro id p hp
      rw [hidle.session] at hp
      cases hp
    · intro id p hp
      rw [hidle.others] at hp
      cases hp
  obtain ⟨u, hu, h⟩ := exec_project (fun s m s' t hR hm hs => Without.step hR hm hs) hms hwithout hrun
  refine ⟨u, ?_, h.others, h.agree⟩
  have hview : ms.filter (fun m => !m.ofSession) = ms.filterMap otherView := by
    rw [← List.filterMap_eq_filter]
    congr 1
    funext m
    cases m <;> rfl
  rw [hview]
  exact hu

theorem session_changes_nothing_shared : ∃ s u : MemoryService ℕ, sharedRun = some s ∧
    exec (apply sampleBackend sampleSession) emptyService
      (sharedMoves.filter fun m => !m.ofSession) = some u ∧
    s.tables.Agree "konf:other" u.tables ∧ s.replies.length = 2 ∧ u.replies = [] := by
  obtain ⟨s, hs⟩ := sharedRun_ends
  obtain ⟨u, hu, -, hagree⟩ :=
    session_changes_nothing sampleBackend sampleSession ⟨rfl, rfl⟩ (by decide +kernel) hs
  have hreplies : ∀ s ∈ sharedRun, s.replies.length = 2 := by decide +kernel
  have hsilent : ∀ u ∈ exec (apply sampleBackend sampleSession) emptyService
      (sharedMoves.filter fun m => !m.ofSession), u.replies.length = 0 := by decide +kernel
  exact ⟨s, u, hs, hu, hagree "konf:other" (by decide +kernel), hreplies s hs,
    List.length_eq_zero_iff.mp (hsilent u hu)⟩

end MemoryService
end Konf.Memory
