import Konf.Journal.Queries
import Konf.Runtime.Bindings
import Konf.Runtime.Hooks

/-! # Dispatches and the journal

Model of `Dispatcher::dispatch_tool` (`konf-runtime/src/dispatcher.rs`) with a journal: the lookup
of the idempotency key, the call of the tool, and the interaction that is appended after it. Each of
these awaits, so calls interleave there with each other and with the other users of the journal. What
the tool answers is up to the tool. A lookup that fails finds nothing, and an append that fails is
dropped with a warning; a dispatcher without a journal is one that drops all its entries.

`invocations`, the calls that have reached the raw tool, `written`, the calls with the ids that their
entries have got, and `dropped`, the calls whose entries were dropped, are ghosts. The event bus is left
out. -/

namespace Konf.Runtime
open Konf.Substrate Konf.Executor Konf.Transition Konf.Journal
set_option autoImplicit false

/-! ## A call -/

/-- The arguments of a call, with the tools and guards that it finds. -/
structure Request where
  sys : System
  toolName : String
  input : Json
  scope : ExecutionScope
  ctx : ExecutionContext
  -- a field of the context that only the interaction has
  parentInteractionId : Option Uuid

/-- What an interaction takes from outside, with the hashes of the tool's state. -/
structure DispatchStamp extends Stamp where
  stateBeforeHash : Option (List UInt8)
  stateAfterHash : Option (List UInt8)

def hashJson : Option (List UInt8) → Json
  | none => .null
  | some bytes => .arr (bytes.map fun b => Json.ofNat b.toNat)

def scopedKey (toolName key : String) : String := toolName ++ ":" ++ key

namespace Request
variable (r : Request)

def scopedIdempotencyKey : Option String := r.ctx.idempotencyKey.map (scopedKey r.toolName)

/-- What comes before the lookup. -/
def check (now : ℕ) : Except RuntimeError (Tool × Envelope) :=
  r.sys.dispatchTool r.toolName r.input r.scope r.ctx now

/-- The row that the call is answered from. -/
def cached (j : RedbJournal) (now : Time) : Option Journal.JournalRow :=
  r.scopedIdempotencyKey.bind fun key => (j.getByIdempotencyKey now key).toOption.join

def edgeRulesFired : List String :=
  if ((r.scope.bindingsFor r.toolName).lookup "namespace").isSome then
    ["cap_check:" ++ r.toolName, "ns_inject:" ++ r.scope.namespace_]
  else ["cap_check:" ++ r.toolName]

def status : Except ToolError Json → InteractionStatus
  | .ok _ => .ok
  | .error e => .failed e.display

def interaction (stamp : DispatchStamp) (env : Envelope) (result : Except ToolError Json) : Json :=
  .obj
    [("actor", .obj [("id", .str r.scope.actor.id), ("role", .str r.scope.actor.role.name)]),
      ("attributes", .obj [("duration_ms", Json.ofNat stamp.durationMs),
        ("tool_name", .str r.toolName)]),
      ("edge_rules_fired", .arr (r.edgeRulesFired.map .str)),
      ("id", .str (r.sys.lib.formatUuid stamp.id)),
      ("in_reply_to", .null),
      ("kind", .obj [("type", .str "tool_dispatch")]),
      ("namespace", .str r.scope.namespace_),
      ("node_id", .null),
      ("parent_id", match r.parentInteractionId with
        | some id => .str (r.sys.lib.formatUuid id)
        | none => .null),
      ("references", .arr []),
      ("run_id", .null),
      ("state_after_hash", hashJson stamp.stateAfterHash),
      ("state_before_hash", hashJson stamp.stateBeforeHash),
      ("status", (status result).toJson),
      ("step_index", Json.ofNat env.stepIndex),
      ("stream_id", .str env.streamId),
      ("summary", .null),
      ("target", .str ("tool:" ++ r.toolName)),
      ("timestamp", .str stamp.timestamp),
      ("trace_id", .str (r.sys.lib.formatUuid r.ctx.traceId))]

/-- An interaction nests three deep at most, so that the lookup can read it back. -/
theorem interaction_readable (stamp : DispatchStamp) (env : Envelope) (result : Except ToolError Json) :
    (r.interaction stamp env result).Readable := by
  have hhash : ∀ hash, (hashJson hash).depth ≤ 1 := by
    intro hash
    cases hash with
    | none => exact Nat.zero_le 1
    | some bytes =>
      rw [hashJson, Json.depth, Json.depthItems_eq_zero]
      intro v hv
      obtain ⟨b, -, rfl⟩ := List.mem_map.mp hv
      rfl
  have hrules : (Json.arr (r.edgeRulesFired.map .str)).depth = 1 := by
    rw [Json.depth, Json.depthItems_eq_zero]
    intro v hv
    obtain ⟨rule, -, rfl⟩ := List.mem_map.mp hv
    rfl
  have hstatus : ((status result).toJson).depth = 1 := by
    cases result <;> rfl
  have hparent : Json.depth (match r.parentInteractionId with
      | some id => .str (r.sys.lib.formatUuid id)
      | none => .null) = 0 := by
    cases r.parentInteractionId <;> rfl
  have hbefore := hhash stamp.stateBeforeHash
  have hafter := hhash stamp.stateAfterHash
  unfold Json.Readable Json.recursionLimit
  simp only [interaction, Json.ofNat, Json.depth, Json.depthFields, Json.depthItems] at *
  omega

def entry (stamp : DispatchStamp) (env : Envelope) (result : Except ToolError Json) :
    JournalEntry where
  runId := none
  sessionId := r.ctx.sessionId
  namespace_ := r.scope.namespace_
  eventType := "interaction"
  payload := r.interaction stamp env result
  validTo := none
  idempotencyKey := r.scopedIdempotencyKey

/-- What the caller gets of the tool's answer. -/
def reply : Except ToolError Json → Except RuntimeError Json
  | .ok payload => .ok payload
  | .error e => .error (.tool r.toolName e.display)

/-- At some time the call passes its checks, and its wrappers let it through to the tool. -/
def ReachesTool : Prop :=
  ∃ now tool env base received,
    r.check now = .ok (tool, env) ∧ tool.deliver env = .ok (base, received)

end Request

/-! ## Calls side by side -/

inductive CallPc
  | idle
  | looking (tool : Tool) (env : Envelope)
  | invoking (tool : Tool) (env : Envelope)
  | called (env : Envelope)
  | finished (env : Envelope) (result : Except ToolError Json)
  | returned (reply : Except RuntimeError Json)

/-- Where each call of a list of requests stands, by its position there. -/
structure Dispatching where
  journal : RedbJournal
  pc : ℕ → CallPc
  invocations : List ℕ
  written : List (ℕ × ℕ)
  dropped : List ℕ

namespace Dispatching

def start (j : RedbJournal) : Dispatching := ⟨j, fun _ => .idle, [], [], []⟩

def goto (s : Dispatching) (k : ℕ) (pc : CallPc) : Dispatching :=
  { s with pc := Function.update s.pc k pc }

end Dispatching

inductive DispatchMove
  | call (k : ℕ)
  | drop (k : ℕ)
  | others (op : JournalOp)

/-- The appends of the calls succeed. -/
def DispatchMove.appends : DispatchMove → Prop
  | .drop _ => False
  | .call _ | .others _ => True

inductive DispatchStep (requests : List Request) (s : Dispatching) :
    DispatchMove → Dispatching → Prop
  | refuse {k : ℕ} {r : Request} (now : ℕ) {e : RuntimeError} (hr : requests[k]? = some r)
      (hpc : s.pc k = .idle) (hcheck : r.check now = .error e) :
      DispatchStep requests s (.call k) (s.goto k (.returned (.error e)))
  | pass {k : ℕ} {r : Request} (now : ℕ) {tool : Tool} {env : Envelope} (hr : requests[k]? = some r)
      (hpc : s.pc k = .idle) (hcheck : r.check now = .ok (tool, env)) :
      DispatchStep requests s (.call k) (s.goto k (.looking tool env))
  | hit {k : ℕ} {r : Request} (now : Time) {tool : Tool} {env : Envelope} {row : Journal.JournalRow}
      (hr : requests[k]? = some r) (hpc : s.pc k = .looking tool env)
      (hrow : r.cached s.journal now = some row) :
      DispatchStep requests s (.call k) (s.goto k (.returned (.ok row.payload)))
  | miss {k : ℕ} {r : Request} (now : Time) {tool : Tool} {env : Envelope}
      (hr : requests[k]? = some r) (hpc : s.pc k = .looking tool env)
      (hrow : r.cached s.journal now = none) :
      DispatchStep requests s (.call k) (s.goto k (.invoking tool env))
  -- a wrapper refuses the call, and that is the tool's answer
  | deny {k : ℕ} {tool : Tool} {env : Envelope} {e : ToolError} (hpc : s.pc k = .invoking tool env)
      (hcall : tool.deliver env = .error e) :
      DispatchStep requests s (.call k) (s.goto k (.finished env (.error e)))
  | invoke {k : ℕ} {tool : Tool} {env received : Envelope} {base : BaseTool}
      (hpc : s.pc k = .invoking tool env) (hcall : tool.deliver env = .ok (base, received)) :
      DispatchStep requests s (.call k)
        { s.goto k (.called env) with invocations := s.invocations ++ [k] }
  | answer {k : ℕ} {env : Envelope} (result : Except ToolError Json) (hpc : s.pc k = .called env) :
      DispatchStep requests s (.call k) (s.goto k (.finished env result))
  | append {k : ℕ} {r : Request} (now : Time) (stamp : DispatchStamp) {env : Envelope}
      {result : Except ToolError Json} (hr : requests[k]? = some r)
      (hpc : s.pc k = .finished env result) :
      DispatchStep requests s (.call k)
        { s.goto k (.returned (r.reply result)) with
          journal := (s.journal.append now (r.entry stamp env result)).2
          written := s.written ++ [(k, (s.journal.append now (r.entry stamp env result)).1)] }
  | drop {k : ℕ} {r : Request} {env : Envelope} {result : Except ToolError Json}
      (hr : requests[k]? = some r) (hpc : s.pc k = .finished env result) :
      DispatchStep requests s (.drop k)
        { s.goto k (.returned (r.reply result)) with dropped := s.dropped ++ [k] }
  | others {op : JournalOp} {j : RedbJournal} (h : JournalStep s.journal op j) :
      DispatchStep requests s (.others op) { s with journal := j }

/-! ## What every run keeps -/

/-- The call has reached the raw tool, or it needs the tool no more. -/
def CallPc.past : CallPc → Bool
  | .called _ | .finished _ _ | .returned _ => true
  | .idle | .looking _ _ | .invoking _ _ => false

def CallPc.holds : CallPc → Option (Tool × Envelope)
  | .looking tool env | .invoking tool env => some (tool, env)
  | .idle | .called _ | .finished _ _ | .returned _ => none

structure Dispatching.Tracked (requests : List Request) (s : Dispatching) : Prop where
  mirrors : s.journal.Mirrors
  made : ∀ k, s.pc k ≠ .idle → ∃ r, requests[k]? = some r
  checked : ∀ k held, (s.pc k).holds = some held →
    ∃ r now, requests[k]? = some r ∧ r.check now = .ok held
  past : ∀ k ∈ s.invocations, (s.pc k).past = true
  reached : ∀ k ∈ s.invocations, ∃ r ∈ requests, r.ReachesTool
  once : s.invocations.Nodup
  written : ∀ w ∈ s.written, ∃ r stored, requests[w.1]? = some r ∧
    (w.2, stored) ∈ s.journal.events.rows ∧ stored.validToMicros = none ∧
    stored.idempotencyKey = r.scopedIdempotencyKey

namespace Dispatching
variable {requests : List Request} {s s' : Dispatching} {k : ℕ} {r : Request}

@[simp] theorem goto_pc_self (s : Dispatching) (k : ℕ) (pc : CallPc) : (s.goto k pc).pc k = pc :=
  Function.update_self ..

theorem goto_pc_of_ne (s : Dispatching) {i k : ℕ} (pc : CallPc) (h : i ≠ k) :
    (s.goto k pc).pc i = s.pc i :=
  Function.update_of_ne h ..

theorem start_tracked {j : RedbJournal} (h : j.Reachable) : (start j).Tracked requests where
  mirrors := h.mirrors
  made := fun _ hk => absurd rfl hk
  checked := by
    intro _ _ hheld
    cases hheld
  past := nofun
  reached := nofun
  once := List.nodup_nil
  written := nofun

/-- A call moves on to where it does not hold more than it has been given. -/
theorem Tracked.goto (h : s.Tracked requests) {pc : CallPc} (hr : requests[k]? = some r)
    (hheld : ∀ held, pc.holds = some held → ∃ now, r.check now = .ok held)
    (hpast : k ∈ s.invocations → pc.past = true) : (s.goto k pc).Tracked requests where
  mirrors := h.mirrors
  made := by
    intro i hi
    by_cases hik : i = k
    · exact ⟨r, hik ▸ hr⟩
    · rw [goto_pc_of_ne s pc hik] at hi
      exact h.made i hi
  checked := by
    intro i held hi
    by_cases hik : i = k
    · subst hik
      rw [goto_pc_self] at hi
      obtain ⟨now, hcheck⟩ := hheld held hi
      exact ⟨r, now, hr, hcheck⟩
    · rw [goto_pc_of_ne s pc hik] at hi
      exact h.checked i held hi
  past := by
    intro i hi
    by_cases hik : i = k
    · subst hik
      rw [goto_pc_self]
      exact hpast hi
    · rw [goto_pc_of_ne s pc hik]
      exact h.past i hi
  reached := h.reached
  once := h.once
  written := h.written

theorem Tracked.not_invoked (h : s.Tracked requests) {pc : CallPc} (hpc : s.pc k = pc)
    (hbefore : pc.past = false) : k ∉ s.invocations := by
  intro hk
  rw [← hpc, h.past k hk] at hbefore
  cases hbefore

theorem Tracked.given (h : s.Tracked requests) {pc : CallPc} (hpc : s.pc k = pc)
    {held : Tool × Envelope} (hheld : pc.holds = some held) :
    ∃ r now, requests[k]? = some r ∧ r.check now = .ok held :=
  h.checked k held (hpc ▸ hheld)

/-- Entries of calls never expire, so what others do to the journal leaves them there. -/
theorem Tracked.journal_step (h : s.Tracked requests) {op : JournalOp} {j : RedbJournal}
    (hstep : JournalStep s.journal op j) : ({ s with journal := j } : Dispatching).Tracked requests :=
  { h with
    mirrors := h.mirrors.step hstep
    written := by
      intro w hw
      obtain ⟨r, stored, hr, hmem, hforever, hkey⟩ := h.written w hw
      exact ⟨r, stored, hr, hstep.keeps hmem hforever, hforever, hkey⟩ }

theorem Tracked.step {m : DispatchMove} (h : s.Tracked requests)
    (hstep : DispatchStep requests s m s') : s'.Tracked requests := by
  cases hstep with
  | refuse now hr hpc hcheck => exact h.goto hr nofun fun _ => rfl
  | @pass k r now tool env hr hpc hcheck =>
    refine h.goto hr ?_ fun hk => absurd hk (h.not_invoked hpc rfl)
    rintro _ ⟨⟩
    exact ⟨now, hcheck⟩
  | hit now hr hpc hrow => exact h.goto hr nofun fun _ => rfl
  | @miss k r now tool env hr hpc hrow =>
    refine h.goto hr ?_ fun hk => absurd hk (h.not_invoked hpc rfl)
    rintro _ ⟨⟩
    obtain ⟨r', now', hr', hcheck⟩ := h.given hpc rfl
    rw [hr] at hr'
    cases hr'
    exact ⟨now', hcheck⟩
  | @deny k tool env e hpc hcall =>
    obtain ⟨r, -, hr, -⟩ := h.given hpc rfl
    exact h.goto hr nofun fun _ => rfl
  | @invoke k tool env received base hpc hcall =>
    obtain ⟨r, now, hr, hcheck⟩ := h.given hpc rfl
    have hnew : k ∉ s.invocations := h.not_invoked hpc rfl
    have hgoto : (s.goto k (.called env)).Tracked requests := h.goto hr nofun fun _ => rfl
    refine { hgoto with past := ?_, reached := ?_, once := ?_ }
    · intro i hi
      obtain hi | hi := List.mem_append.mp hi
      · exact hgoto.past i hi
      · rw [List.mem_singleton.mp hi]
        change ((s.goto k (.called env)).pc k).past = true
        rw [goto_pc_self]
        rfl
    · intro i hi
      exact ⟨r, List.mem_of_getElem? hr, now, tool, env, base, received, hcheck, hcall⟩
    · exact h.once.append (List.nodup_singleton k) (List.disjoint_singleton.mpr hnew)
  | @answer k env result hpc =>
    obtain ⟨r, hr⟩ := h.made k (by rw [hpc]; nofun)
    exact h.goto hr nofun fun _ => rfl
  | @append k r now stamp env result hr hpc =>
    have hjournal := h.journal_step (.write (.append now (r.entry stamp env result)))
    have hgoto : (({ s with journal := (s.journal.append now (r.entry stamp env result)).2 } :
        Dispatching).goto k (.returned (r.reply result))).Tracked requests :=
      hjournal.goto hr nofun fun _ => rfl
    refine { hgoto with written := ?_ }
    intro w hw
    obtain hw | hw := List.mem_append.mp hw
    · exact hgoto.written w hw
    · rw [List.mem_singleton.mp hw]
      refine ⟨r, StoredEntry.fromEntry now (r.entry stamp env result), hr, ?_, rfl, rfl⟩
      change _ ∈ (s.journal.append now _).2.events.rows
      rw [RedbJournal.append_rows]
      exact List.mem_append_right _ (List.mem_singleton_self _)
  | @drop k r env result hr hpc =>
    have hgoto : (s.goto k (.returned (r.reply result))).Tracked requests := h.goto hr nofun fun _ => rfl
    exact { hgoto with }
  | others hstep => exact h.journal_step hstep

theorem tracked_of_reaches {j : RedbJournal} (hj : j.Reachable)
    (h : Reaches (DispatchStep requests) (· = start j) s) : s.Tracked requests := by
  refine Reaches.invariant ?_ (fun _ _ _ _ hi hs => hi.step hs) h
  rintro _ rfl
  exact start_tracked hj

theorem reaches_call {init : Dispatching → Prop}
    (hs : ReachesBy (DispatchStep requests) (fun _ m => m.appends) init s)
    (hstep : DispatchStep requests s (.call k) s') :
    ReachesBy (DispatchStep requests) (fun _ m => m.appends) init s' := by
  have hok : (DispatchMove.call k).appends := trivial
  exact hs.tail hok hstep

/-- A call that is not answered from the journal and gets through to the tool, from its checks to its
reply, while nothing else moves. -/
theorem reaches_reply {init : Dispatching → Prop}
    (hs : ReachesBy (DispatchStep requests) (fun _ m => m.appends) init s)
    (hr : requests[k]? = some r) (hpc : s.pc k = .idle) {now : ℕ} {tool : Tool} {env : Envelope}
    (hcheck : r.check now = .ok (tool, env)) (at_ : Time) (hmiss : r.cached s.journal at_ = none)
    {base : BaseTool} {received : Envelope} (hcall : tool.deliver env = .ok (base, received))
    (result : Except ToolError Json) (stamp : DispatchStamp) :
    ∃ s', ReachesBy (DispatchStep requests) (fun _ m => m.appends) init s' ∧
      s'.journal = (s.journal.append at_ (r.entry stamp env result)).2 ∧
      s'.pc k = .returned (r.reply result) ∧ (∀ i, i ≠ k → s'.pc i = s.pc i) ∧
      s'.invocations = s.invocations ++ [k] ∧ s'.written = s.written ++ [(k, s.journal.nextId)] := by
  have hlooking := reaches_call hs (.pass now hr hpc hcheck)
  have hinvoking := reaches_call hlooking (.miss at_ hr (goto_pc_self ..) hmiss)
  have hcalled := reaches_call hinvoking (.invoke (goto_pc_self ..) hcall)
  have hfinished := reaches_call hcalled (.answer result (goto_pc_self ..))
  have hreturned := reaches_call hfinished (.append at_ stamp hr (goto_pc_self ..))
  refine ⟨_, hreturned, rfl, goto_pc_self .., ?_, rfl, rfl⟩
  intro i hi
  -- the five positions of the call itself
  exact (goto_pc_of_ne _ _ hi).trans <| (goto_pc_of_ne _ _ hi).trans <|
    (goto_pc_of_ne _ _ hi).trans <| (goto_pc_of_ne _ _ hi).trans (goto_pc_of_ne _ _ hi)

/-- A call that finds an entry of its key in the journal. -/
theorem reaches_hit {init : Dispatching → Prop}
    (hs : ReachesBy (DispatchStep requests) (fun _ m => m.appends) init s)
    (hr : requests[k]? = some r) (hpc : s.pc k = .idle) {now : ℕ} {tool : Tool} {env : Envelope}
    (hcheck : r.check now = .ok (tool, env)) (at_ : Time) {row : Journal.JournalRow}
    (hrow : r.cached s.journal at_ = some row) :
    ReachesBy (DispatchStep requests) (fun _ m => m.appends) init (s.goto k (.looking tool env)) ∧
      ReachesBy (DispatchStep requests) (fun _ m => m.appends) init
        ((s.goto k (.looking tool env)).goto k (.returned (.ok row.payload))) := by
  have hlooking := reaches_call hs (.pass now hr hpc hcheck)
  exact ⟨hlooking, reaches_call hlooking (.hit at_ hr (goto_pc_self ..) hrow)⟩

end Dispatching

end Konf.Runtime
