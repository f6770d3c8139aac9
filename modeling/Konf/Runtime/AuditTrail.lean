import Konf.Runtime.Idempotency
import Konf.Runtime.Interaction

/-! # The audit trail of dispatches

A call that `dispatch_tool` has passed to a tool leaves one row in the journal unless its append fails,
and the row reads back as an interaction that says who has called what, and how it ended. -/

namespace Konf.Interactions
open Konf.Substrate Konf.Executor Konf.Runtime Konf.Transition Konf.Journal
set_option autoImplicit false

section
variable {lib : Externals} {Instant : Type} (f : Formats lib Instant)

/-! ## What a call records -/

/-- The timestamp of the row is the text of an instant, and its hashes are hashes. -/
structure Genuine (payload : Json) (t : Instant) (before after : Option StateHash) : Prop where
  timestamp : payload.get "timestamp" = some (.str (f.formatTime t))
  before : payload.get "state_before_hash" = some (hashCodec.write before)
  after : payload.get "state_after_hash" = some (hashCodec.write after)

/-- The interaction that `dispatch_tool` builds. -/
def recordOf (r : Request) (stamp : DispatchStamp) (t : Instant) (before after : Option StateHash)
    (env : Envelope) (result : Except ToolError Json) : Interaction Instant where
  id := stamp.id
  parentId := r.parentInteractionId
  traceId := r.ctx.traceId
  runId := none
  nodeId := none
  actor := r.scope.actor
  namespace_ := r.scope.namespace_
  target := "tool:" ++ r.toolName
  kind := .toolDispatch
  attributes := .obj [("duration_ms", Json.ofNat stamp.durationMs), ("tool_name", .str r.toolName)]
  edgeRulesFired := r.edgeRulesFired
  status := Request.status result
  summary := none
  timestamp := t
  stepIndex := .ofNat env.stepIndex
  streamId := env.streamId
  stateBeforeHash := before
  stateAfterHash := after
  references := []
  inReplyTo := none

variable {f}

theorem interaction_eq {r : Request} (hlib : r.sys.lib = lib) {stamp : DispatchStamp} {t : Instant}
    {before after : Option StateHash} {env : Envelope} {result : Except ToolError Json}
    (h : Genuine f (r.interaction stamp env result) t before after) (hstep : env.stepIndex = 0) :
    r.interaction stamp env result = (recordOf r stamp t before after env result).toJson f := by
  have htime : Json.str stamp.timestamp = .str (f.formatTime t) := Option.some.inj h.timestamp
  have hbefore : hashJson stamp.stateBeforeHash = hashCodec.write before := Option.some.inj h.before
  have hafter : hashJson stamp.stateAfterHash = hashCodec.write after := Option.some.inj h.after
  unfold Request.interaction Interaction.toJson Interaction.fields recordOf
  rw [htime, hbefore, hafter, hlib, hstep]
  cases r.parentInteractionId <;> cases result <;> rfl

/-- The interaction says who has called what, and how it ended. -/
structure Attested (r : Request) (reply : Except RuntimeError Json) (i : Interaction Instant) : Prop where
  actor : i.actor = r.scope.actor
  namespace_ : i.namespace_ = r.scope.namespace_
  target : i.target = "tool:" ++ r.toolName
  kind : i.kind = .toolDispatch
  traceId : i.traceId = r.ctx.traceId
  parentId : i.parentId = r.parentInteractionId
  edgeRules : "cap_check:" ++ r.toolName ∈ i.edgeRulesFired
  ended : i.status = .ok ∧ (∃ payload, reply = .ok payload) ∨
    ∃ message, i.status = .failed message ∧ reply = .error (.tool r.toolName message)

theorem recordOf_attested (r : Request) (stamp : DispatchStamp) (t : Instant)
    (before after : Option StateHash) (env : Envelope) (result : Except ToolError Json) :
    Attested r (r.reply result) (recordOf r stamp t before after env result) := by
  refine ⟨rfl, rfl, rfl, rfl, rfl, rfl, ?_, ?_⟩
  · show _ ∈ r.edgeRulesFired
    unfold Request.edgeRulesFired
    split_ifs <;> exact List.mem_cons_self
  · cases result with
    | ok payload => exact .inl ⟨rfl, payload, rfl⟩
    | error e => exact .inr ⟨e.display, rfl, rfl⟩

end

/-! ## Every call leaves its row -/

/-- The envelope that a call holds. -/
def envelopeOf : CallPc → Option Envelope
  | .looking _ env | .invoking _ env | .called env | .finished env _ => some env
  | .idle | .returned _ => none

def hasReturned : CallPc → Bool
  | .returned _ => true
  | .idle | .looking _ _ | .invoking _ _ | .called _ | .finished _ _ => false

/-- A row that a call has written. -/
structure RowOf (j : RedbJournal) (pc : CallPc) (id : ℕ) (r : Request) (stamp : DispatchStamp)
    (env : Envelope) (result : Except ToolError Json) (stored : StoredEntry) : Prop where
  row : (id, stored) ∈ j.events.rows
  payload : stored.payload = r.interaction stamp env result
  namespace_ : stored.namespace_ = r.scope.namespace_
  lasts : stored.validToMicros = none
  fresh : env.stepIndex = 0
  replied : pc = .returned (r.reply result)

structure Audited (requests : List Request) (s : Dispatching) : Prop where
  tracked : s.Tracked requests
  fresh : ∀ k env, envelopeOf (s.pc k) = some env → env.stepIndex = 0
  rows : ∀ w ∈ s.written, ∃ r stamp env result stored, requests[w.1]? = some r ∧
    RowOf s.journal (s.pc w.1) w.2 r stamp env result stored
  once : (s.written.map Prod.fst).Nodup
  recorded : ∀ k ∈ s.invocations, hasReturned (s.pc k) = true →
    k ∈ s.written.map Prod.fst ∨ k ∈ s.dropped
  dropped : ∀ k ∈ s.dropped, hasReturned (s.pc k) = true
  apart : ∀ k ∈ s.dropped, k ∉ s.written.map Prod.fst

section
variable {requests : List Request} {s s' : Dispatching} {k : ℕ} {r : Request}

theorem check_stepIndex {now : ℕ} {tool : Tool} {env : Envelope} (h : r.check now = .ok (tool, env)) :
    env.stepIndex = 0 := by
  unfold Request.check System.dispatchTool at h
  obtain ⟨bindings, -, h⟩ := Fallible.bind_ok h
  split at h
  · cases h
  · split_ifs at h
    cases h
    rfl

/-- A call moves on without writing. -/
theorem Audited.goto (h : Audited requests s) {pc : CallPc} (htracked : (s.goto k pc).Tracked requests)
    (hbefore : hasReturned (s.pc k) = false)
    (hfresh : ∀ env, envelopeOf pc = some env → env.stepIndex = 0)
    (hafter : hasReturned pc = true → k ∉ s.invocations) : Audited requests (s.goto k pc) := by
  refine ⟨htracked, ?_, ?_, h.once, ?_, ?_, h.apart⟩
  · intro i env henv
    by_cases hik : i = k
    · subst hik
      rw [Dispatching.goto_pc_self] at henv
      exact hfresh env henv
    · rw [Dispatching.goto_pc_of_ne s pc hik] at henv
      exact h.fresh i env henv
  · intro w hw
    obtain ⟨r, stamp, env, result, stored, hr, hrow⟩ := h.rows w hw
    have hne : w.1 ≠ k := by
      rintro rfl
      rw [hrow.replied] at hbefore
      cases hbefore
    exact ⟨r, stamp, env, result, stored, hr, { hrow with
      replied := (Dispatching.goto_pc_of_ne s pc hne).trans hrow.replied }⟩
  · intro i hi hreturned
    by_cases hik : i = k
    · subst hik
      rw [Dispatching.goto_pc_self] at hreturned
      exact absurd hi (hafter hreturned)
    · rw [Dispatching.goto_pc_of_ne s pc hik] at hreturned
      exact h.recorded i hi hreturned
  · intro i hi
    have hne : i ≠ k := by
      rintro rfl
      cases hbefore.symm.trans (h.dropped i hi)
    rw [Dispatching.goto_pc_of_ne s pc hne]
    exact h.dropped i hi

/-- A call that has not returned has neither written a row nor dropped one. -/
theorem Audited.unfinished (h : Audited requests s) (hbefore : hasReturned (s.pc k) = false) :
    k ∉ s.written.map Prod.fst ∧ k ∉ s.dropped := by
  constructor
  · intro hk
    obtain ⟨w, hw, rfl⟩ := List.mem_map.mp hk
    obtain ⟨_, _, _, _, _, -, hrow⟩ := h.rows w hw
    rw [hrow.replied] at hbefore
    cases hbefore
  · intro hk
    cases hbefore.symm.trans (h.dropped k hk)

theorem Audited.invoke (h : Audited requests s) {tool : Tool} {env : Envelope}
    (hpc : s.pc k = .invoking tool env) {s' : Dispatching}
    (heq : s' = { s.goto k (.called env) with invocations := s.invocations ++ [k] })
    (htracked : s'.Tracked requests) : Audited requests s' := by
  subst heq
  have hgoto : Audited requests (s.goto k (.called env)) := by
    refine h.goto ?_ (by rw [hpc]; rfl) ?_ nofun
    · obtain ⟨r, -, hr, -⟩ := h.tracked.given hpc rfl
      exact h.tracked.goto hr nofun fun _ => rfl
    · intro env henv
      exact h.fresh _ env (by rw [hpc]; exact henv)
  refine ⟨htracked, hgoto.fresh, hgoto.rows, hgoto.once, ?_, hgoto.dropped, hgoto.apart⟩
  intro i hi hreturned
  obtain hi | hi := List.mem_append.mp hi
  · exact hgoto.recorded i hi hreturned
  · rw [List.mem_singleton.mp hi] at hreturned
    have hcalled : (s.goto k (.called env)).pc k = .called env := Dispatching.goto_pc_self ..
    exact absurd (hcalled ▸ hreturned : hasReturned (.called env) = true) nofun

/-- The other calls when one returns. -/
theorem returned_of_ne (reply : Except RuntimeError Json) {i : ℕ} (hik : i ≠ k) :
    (s.goto k (.returned reply)).pc i = s.pc i := Dispatching.goto_pc_of_ne s _ hik

theorem Audited.fresh_returned (h : Audited requests s) (reply : Except RuntimeError Json) (i : ℕ)
    (env : Envelope) (henv : envelopeOf ((s.goto k (.returned reply)).pc i) = some env) :
    env.stepIndex = 0 := by
  by_cases hik : i = k
  · subst hik
    rw [Dispatching.goto_pc_self] at henv
    cases henv
  · exact h.fresh i env (returned_of_ne reply hik ▸ henv)

/-- The rows of the other calls are there when one returns. -/
theorem Audited.rows_returned (h : Audited requests s) (reply : Except RuntimeError Json)
    (hnew : k ∉ s.written.map Prod.fst) {j : RedbJournal}
    (hkeeps : ∀ {i : ℕ} {row : StoredEntry}, (i, row) ∈ s.journal.events.rows → (i, row) ∈ j.events.rows)
    (w : ℕ × ℕ) (hw : w ∈ s.written) :
    ∃ r stamp env result stored, requests[w.1]? = some r ∧
      RowOf j ((s.goto k (.returned reply)).pc w.1) w.2 r stamp env result stored := by
  obtain ⟨r, stamp, env, result, stored, hr, hrow⟩ := h.rows w hw
  have hne : w.1 ≠ k := fun hwk => hnew (List.mem_map.mpr ⟨w, hw, hwk⟩)
  exact ⟨r, stamp, env, result, stored, hr, { hrow with
    row := hkeeps hrow.row
    replied := (returned_of_ne reply hne).trans hrow.replied }⟩

/-- The call has written its row. -/
theorem Audited.append (h : Audited requests s) (now : Time) (stamp : DispatchStamp) {env : Envelope}
    {result : Except ToolError Json} (hr : requests[k]? = some r) (hpc : s.pc k = .finished env result)
    {s' : Dispatching} (heq : s' = { s.goto k (.returned (r.reply result)) with
      journal := (s.journal.append now (r.entry stamp env result)).2
      written := s.written ++ [(k, (s.journal.append now (r.entry stamp env result)).1)] })
    (htracked : s'.Tracked requests) : Audited requests s' := by
  subst heq
  obtain ⟨hnew, hgone⟩ : k ∉ s.written.map Prod.fst ∧ k ∉ s.dropped := h.unfinished (by rw [hpc]; rfl)
  refine ⟨htracked, h.fresh_returned _, ?_, ?_, ?_, ?_, ?_⟩
  · intro w hw
    obtain hw | hw := List.mem_append.mp hw
    · refine h.rows_returned _ hnew ?_ w hw
      intro i row hrow
      rw [RedbJournal.append_rows]
      exact List.mem_append_left _ hrow
    · rw [List.mem_singleton.mp hw]
      refine ⟨r, stamp, env, result, .fromEntry now (r.entry stamp env result), hr, ?_, rfl, rfl, rfl,
        h.fresh k env (by rw [hpc]; rfl), Dispatching.goto_pc_self ..⟩
      show _ ∈ (s.journal.append now _).2.events.rows
      rw [RedbJournal.append_rows]
      exact List.mem_append_right _ (List.mem_singleton_self _)
  · rw [List.map_append]
    exact h.once.append (List.nodup_singleton k) (List.disjoint_singleton.mpr hnew)
  · intro i hi hreturned
    rw [List.map_append]
    by_cases hik : i = k
    · exact .inl (List.mem_append_right _ (List.mem_singleton.mpr hik))
    · exact (h.recorded i hi (returned_of_ne _ hik ▸ hreturned)).imp_left (List.mem_append_left _)
  · intro i hi
    have hne : i ≠ k := fun hik => hgone (hik ▸ hi)
    exact (returned_of_ne _ hne).symm ▸ h.dropped i hi
  · intro i hi hwritten
    rw [List.map_append] at hwritten
    obtain hwritten | hwritten := List.mem_append.mp hwritten
    · exact h.apart i hi hwritten
    · obtain rfl : i = k := List.mem_singleton.mp hwritten
      exact hgone hi

/-- The append of the call has failed, or there is no journal. -/
theorem Audited.drop (h : Audited requests s) {env : Envelope} {result : Except ToolError Json}
    (hpc : s.pc k = .finished env result) {s' : Dispatching}
    (heq : s' = { s.goto k (.returned (r.reply result)) with dropped := s.dropped ++ [k] })
    (htracked : s'.Tracked requests) : Audited requests s' := by
  subst heq
  obtain ⟨hnew, -⟩ : k ∉ s.written.map Prod.fst ∧ k ∉ s.dropped := h.unfinished (by rw [hpc]; rfl)
  refine ⟨htracked, h.fresh_returned _, h.rows_returned _ hnew id, h.once, ?_, ?_, ?_⟩
  · intro i hi hreturned
    by_cases hik : i = k
    · exact .inr (List.mem_append_right _ (List.mem_singleton.mpr hik))
    · exact (h.recorded i hi (returned_of_ne _ hik ▸ hreturned)).imp_right (List.mem_append_left _)
  · intro i hi
    by_cases hik : i = k
    · subst hik
      change hasReturned ((s.goto i (.returned (r.reply result))).pc i) = true
      rw [Dispatching.goto_pc_self]
      rfl
    · obtain hi | hi := List.mem_append.mp hi
      · exact (returned_of_ne _ hik).symm ▸ h.dropped i hi
      · exact absurd (List.mem_singleton.mp hi) hik
  · intro i hi
    obtain hi | hi := List.mem_append.mp hi
    · exact h.apart i hi
    · exact List.mem_singleton.mp hi ▸ hnew

theorem Audited.step {m : DispatchMove} (h : Audited requests s) (hs : DispatchStep requests s m s') :
    Audited requests s' := by
  have htracked := h.tracked.step hs
  cases hs with
  | refuse now hr hpc hcheck =>
    refine h.goto htracked (by rw [hpc]; rfl) nofun fun _ => h.tracked.not_invoked hpc rfl
  | pass now hr hpc hcheck =>
    refine h.goto htracked (by rw [hpc]; rfl) ?_ nofun
    rintro env ⟨⟩
    exact check_stepIndex hcheck
  | hit now hr hpc hrow =>
    refine h.goto htracked (by rw [hpc]; rfl) nofun fun _ => h.tracked.not_invoked hpc rfl
  | miss _ _ hpc _ | deny hpc _ | answer _ hpc =>
    refine h.goto htracked (by rw [hpc]; rfl) ?_ nofun
    intro env henv
    exact h.fresh _ env (by rw [hpc]; exact henv)
  | invoke hpc hcall => exact h.invoke hpc rfl htracked
  | append now stamp hr hpc => exact h.append now stamp hr hpc rfl htracked
  | drop hr hpc => exact h.drop hpc rfl htracked
  | others hstep =>
    refine { h with tracked := htracked, rows := ?_ }
    intro w hw
    obtain ⟨r, stamp, env, result, stored, hr, hrow⟩ := h.rows w hw
    exact ⟨r, stamp, env, result, stored, hr, { hrow with row := hstep.keeps hrow.row hrow.lasts }⟩

theorem audited_of_reaches {j : RedbJournal} (hj : j.Reachable)
    (h : Reaches (DispatchStep requests) (· = .start j) s) : Audited requests s := by
  refine Reaches.invariant ?_ (fun _ _ _ _ hi hs => hi.step hs) h
  rintro _ rfl
  exact ⟨Dispatching.start_tracked hj, nofun, nofun, List.nodup_nil, nofun, nofun, nofun⟩

end

/-- However calls and the other users of the journal interleave: a call that was passed to its tool and
has returned has written a row, unless its append has failed, no call has written two, and a row whose
timestamp is that of a clock and whose hashes are hashes reads back as an interaction that attests the
call with its reply. -/
theorem calls_audited {lib : Externals} {Instant : Type} (f : Formats lib Instant)
    (requests : List Request) (hlib : ∀ r ∈ requests, r.sys.lib = lib) {j : RedbJournal}
    (hj : j.Reachable) {s : Dispatching} (h : Reaches (DispatchStep requests) (· = .start j) s) :
    (∀ k ∈ s.invocations, ∀ reply, s.pc k = .returned reply →
      k ∈ s.written.map Prod.fst ∨ k ∈ s.dropped) ∧
    (∀ k ∈ s.dropped, k ∉ s.written.map Prod.fst) ∧ (s.written.map Prod.fst).Nodup ∧
    ∀ w ∈ s.written, ∃ r reply stored, requests[w.1]? = some r ∧ s.pc w.1 = .returned reply ∧
      (w.2, stored) ∈ s.journal.events.rows ∧ stored.namespace_ = r.scope.namespace_ ∧
      ∀ t before after, Genuine f stored.payload t before after →
        ∃ i, Interaction.fromJson f stored.payload = some i ∧ Attested r reply i := by
  have haudited := audited_of_reaches hj h
  refine ⟨?_, haudited.apart, haudited.once, ?_⟩
  · intro k hk reply hreply
    exact haudited.recorded k hk (by rw [hreply]; rfl)
  · intro w hw
    obtain ⟨r, stamp, env, result, stored, hr, hrow⟩ := haudited.rows w hw
    refine ⟨r, r.reply result, stored, hr, hrow.replied, hrow.row, hrow.namespace_, ?_⟩
    intro t before after hgenuine
    refine ⟨recordOf r stamp t before after env result, ?_,
      recordOf_attested r stamp t before after env result⟩
    rw [hrow.payload] at hgenuine ⊢
    rw [interaction_eq (hlib r (List.mem_of_getElem? hr)) hgenuine hrow.fresh]
    exact fromJson_toJson _

/-! ## A call and its row -/

def decimalCall : Request :=
  { keyedCall "konf:demo" "echo" "k" with
    sys := { baseSystem [.plain "echo"] with lib := decimalExternals } }

theorem calls_audited_call : ∃ s stored i, Reaches (DispatchStep [decimalCall]) (· = .start .open_) s ∧
    s.invocations = [0] ∧ s.journal.events.rows = [(1, stored)] ∧
    Interaction.fromJson decimalFormats stored.payload = some i ∧ Attested decimalCall (.ok .null) i := by
  obtain ⟨env, hcheck⟩ := keyedCall_check "konf:demo" "echo" "k" 0
  have hstart : ReachesBy (DispatchStep [decimalCall]) (fun _ m => m.appends) (· = .start .open_)
      (.start .open_) := .start rfl
  obtain ⟨s, hs, hjournal, hreply, -, hcalls, hwritten⟩ := Dispatching.reaches_reply hstart
    (k := 0) (r := decimalCall) rfl rfl hcheck 0 rfl rfl (.ok .null) { zeroStamp with timestamp := "0" }
  have hwritten : s.written = [(0, 1)] := hwritten
  have hrows : s.journal.events.rows = [(1, .fromEntry 0
      (decimalCall.entry { zeroStamp with timestamp := "0" } env (.ok .null)))] := by
    rw [hjournal, RedbJournal.append_rows]
    rfl
  have hlib : ∀ r ∈ [decimalCall], r.sys.lib = decimalExternals := by
    intro r hr
    rw [List.mem_singleton.mp hr]
    rfl
  obtain ⟨-, -, -, hread⟩ := calls_audited decimalFormats [decimalCall] hlib (.start rfl) hs.reaches
  obtain ⟨r, reply, stored, hr, hreturned, hrow, -, hread⟩ := hread (0, 1) (by rw [hwritten]; simp)
  have hr : decimalCall = r := Option.some.inj hr
  have hreply : Except.ok Json.null = reply := CallPc.returned.inj (hreply.symm.trans hreturned)
  rw [hrows, List.mem_singleton, Prod.mk.injEq] at hrow
  obtain ⟨-, rfl⟩ := hrow
  obtain ⟨i, hi, hattested⟩ := hread 0 none none ⟨rfl, rfl, rfl⟩
  exact ⟨s, _, i, hs.reaches, hcalls, hrows, hi, hr ▸ hreply ▸ hattested⟩

end Konf.Interactions
