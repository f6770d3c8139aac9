import Konf.Runtime.Dispatch

/-! # Idempotent dispatch

A call with an idempotency key looks for an entry of its key, and if there is one it returns the
payload of that entry. The key is the name of the tool and the caller's key, joined by a colon; the
payload is the interaction, not what the tool has answered; and the entry is appended after the tool
has been called, so that calls that look before that all call the tool.

The first part says which sets of calls are idempotent for all that, the second which callers can be
answered with each other's entries. -/

namespace Konf.Runtime
open Konf.Substrate Konf.Executor Konf.Transition Konf.Journal Konf.Text
set_option autoImplicit false

/-! ## One result for one key -/

/-- The same value, or an error both times. -/
def SameReply : Except RuntimeError Json → Except RuntimeError Json → Prop
  | .ok v, .ok w => v = w
  | .error _, .error _ => True
  | .ok _, .error _ | .error _, .ok _ => False

theorem sameReply_refl (reply : Except RuntimeError Json) : SameReply reply reply := by
  cases reply with
  | ok v => exact rfl
  | error e => trivial

/-- The raw tool has been called once at most, and every call that has returned agrees with the one
that called it. -/
structure Dispatching.Idempotent (s : Dispatching) : Prop where
  once : s.invocations.length ≤ 1
  same : ∀ k ∈ s.invocations, ∀ reply, s.pc k = .returned reply →
    ∀ i reply', s.pc i = .returned reply' → SameReply reply reply'

section Calls
variable {requests : List Request} {s : Dispatching} {j : RedbJournal}

/-- A call on its own is idempotent, whatever others do to the journal. -/
theorem Dispatching.Tracked.idempotent_of_lone (h : s.Tracked requests)
    (hlone : requests.length ≤ 1) : s.Idempotent := by
  have hfirst : ∀ k, s.pc k ≠ .idle → k = 0 := by
    intro k hk
    obtain ⟨r, hr⟩ := h.made k hk
    have hlt := (List.getElem?_eq_some_iff.mp hr).1
    omega
  have hcalls : ∀ k ∈ s.invocations, k = 0 := by
    intro k hk
    refine hfirst k fun hidle => ?_
    have hpast := h.past k hk
    rw [hidle] at hpast
    cases hpast
  constructor
  · have hsub : s.invocations ⊆ [0] := fun k hk => List.mem_singleton.mpr (hcalls k hk)
    exact (List.subperm_of_subset h.once hsub).length_le
  · intro k hk reply hreply i reply' hreply'
    have hi : i = 0 := hfirst i (by rw [hreply']; nofun)
    rw [hi, ← hcalls k hk, hreply] at hreply'
    cases hreply'
    exact sameReply_refl reply

/-- Calls that do not reach the tool have nothing to agree with. -/
theorem Dispatching.Tracked.idempotent_of_unreached (h : s.Tracked requests)
    (hnone : ∀ r ∈ requests, ¬r.ReachesTool) : s.Idempotent := by
  have hempty : s.invocations = [] := by
    refine List.eq_nil_iff_forall_not_mem.mpr fun k hk => ?_
    obtain ⟨r, hr, hreach⟩ := h.reached k hk
    exact hnone r hr hreach
  refine ⟨by rw [hempty]; exact Nat.zero_le _, ?_⟩
  intro k hk
  rw [hempty] at hk
  cases hk

def zeroStamp : DispatchStamp where
  id := 0
  timestamp := ""
  durationMs := 0
  stateBeforeHash := none
  stateAfterHash := none

/-- The first call with a key, if it reaches the tool: from then on there is an entry for every call
with the same key, and it holds the interaction. -/
theorem reaches_first_reply {i : ℕ} {r : Request} {key : String} (hj : j.Reachable)
    (hfresh : ∀ row ∈ j.events.rows, row.2.idempotencyKey ≠ some key)
    (hr : requests[i]? = some r) (hkey : r.scopedIdempotencyKey = some key)
    (hreach : r.ReachesTool) :
    ∃ s env, ReachesBy (DispatchStep requests) (fun _ m => m.appends) (· = .start j) s ∧
      s.pc i = .returned (.ok .null) ∧ (∀ k, k ≠ i → s.pc k = .idle) ∧ s.invocations = [i] ∧
      ∀ r' : Request, r'.scopedIdempotencyKey = some key → ∃ row, r'.cached s.journal 0 = some row ∧
        (i, row.id) ∈ s.written ∧ row.payload = r.interaction zeroStamp env (.ok .null) := by
  obtain ⟨now, tool, env, base, received, hcheck, hcall⟩ := hreach
  have hmiss : r.cached j 0 = none := by
    rw [Request.cached, hkey, Option.bind_some, hj.mirrors.getByIdempotencyKey_eq_none hfresh]
    rfl
  have hstart : ReachesBy (DispatchStep requests) (fun _ m => m.appends) (· = Dispatching.start j)
      (.start j) := .start rfl
  obtain ⟨s, hs, hjournal, hreply, hrest, hcalls, hwritten⟩ :=
    Dispatching.reaches_reply hstart hr rfl hcheck 0 hmiss hcall (.ok .null) zeroStamp
  refine ⟨s, env, hs, hreply, hrest, hcalls, ?_⟩
  intro r' hkey'
  refine ⟨(StoredEntry.fromEntry 0 (r.entry zeroStamp env (.ok .null))).row j.nextId, ?_, ?_, rfl⟩
  · have hfound : s.journal.getByIdempotencyKey 0 key = .ok (some _) := hjournal ▸
      hj.mirrors.getByIdempotencyKey_append 0 hkey rfl (r.interaction_readable zeroStamp env (.ok .null))
    rw [Request.cached, hkey', Option.bind_some, hfound]
    rfl
  · rw [hwritten]
    exact List.mem_append_right _ (List.mem_singleton_self _)

/-- A call that comes after one that has reached the tool is refused, or it gets the interaction of the
first. -/
theorem exists_not_idempotent {i k : ℕ} {r r' : Request} {key : String} (hj : j.Reachable)
    (hfresh : ∀ row ∈ j.events.rows, row.2.idempotencyKey ≠ some key)
    (hr : requests[i]? = some r) (hkey : r.scopedIdempotencyKey = some key)
    (hr' : requests[k]? = some r') (hkey' : r'.scopedIdempotencyKey = some key)
    (hne : k ≠ i) (hreach : r.ReachesTool) :
    ∃ s, ReachesBy (DispatchStep requests) (fun _ m => m.appends) (· = .start j) s ∧
      ¬s.Idempotent := by
  obtain ⟨s, env, hs, hreply, hrest, hcalls, hcached⟩ :=
    reaches_first_reply hj hfresh hr hkey hreach
  have hidle : s.pc k = .idle := hrest k hne
  have hmem : i ∈ s.invocations := by
    rw [hcalls]
    exact List.mem_singleton_self i
  cases hcheck : r'.check 0 with
  | error e =>
    refine ⟨_, Dispatching.reaches_call hs (.refuse 0 hr' hidle hcheck), fun hid => ?_⟩
    have hkept : (s.goto k (.returned (.error e))).pc i = s.pc i :=
      Dispatching.goto_pc_of_ne s _ hne.symm
    exact hid.same i hmem _ (hkept.trans hreply) k _ (Dispatching.goto_pc_self ..)
  | ok held =>
    obtain ⟨row, hrow, -, hpayload⟩ := hcached r' hkey'
    refine ⟨_, (Dispatching.reaches_hit hs hr' hidle hcheck 0 hrow).2, fun hid => ?_⟩
    have hkept : ((s.goto k (.looking held.1 held.2)).goto k (.returned (.ok row.payload))).pc i =
        s.pc i :=
      (Dispatching.goto_pc_of_ne _ _ hne.symm).trans (Dispatching.goto_pc_of_ne s _ hne.symm)
    have hsame : Json.null = row.payload :=
      hid.same i hmem _ (hkept.trans hreply) k _ (Dispatching.goto_pc_self ..)
    rw [hpayload, Request.interaction] at hsame
    cases hsame

end Calls

/-- Calls of one tool with one key, whose appends succeed, are idempotent in every interleaving exactly
when there is no second call, or when none of them reaches the tool. -/
theorem dispatch_idempotent_iff (toolName key : String) (requests : List Request)
    (hcalls : ∀ r ∈ requests, r.toolName = toolName ∧ r.ctx.idempotencyKey = some key)
    (j : RedbJournal) (hj : j.Reachable)
    (hfresh : ∀ row ∈ j.events.rows, row.2.idempotencyKey ≠ some (scopedKey toolName key)) :
    (∀ s, ReachesBy (DispatchStep requests) (fun _ m => m.appends) (· = .start j) s →
      s.Idempotent) ↔
      requests.length ≤ 1 ∨ ∀ r ∈ requests, ¬r.ReachesTool := by
  constructor
  · intro hall
    by_contra hcond
    rw [not_or] at hcond
    obtain ⟨hmany, hreached⟩ := hcond
    have hkeys : ∀ {k : ℕ} {r : Request}, requests[k]? = some r →
        r.scopedIdempotencyKey = some (scopedKey toolName key) := by
      intro k r hr
      obtain ⟨hname, hkey⟩ := hcalls r (List.mem_of_getElem? hr)
      rw [Request.scopedIdempotencyKey, hname, hkey]
      rfl
    refine hreached fun r hmem hreach => ?_
    obtain ⟨i, hr⟩ := List.mem_iff_getElem?.mp hmem
    obtain ⟨k, hk, hne⟩ : ∃ k, k < requests.length ∧ k ≠ i := by
      by_cases hi : i = 0
      · exact ⟨1, by omega, by omega⟩
      · exact ⟨0, by omega, by omega⟩
    have hr' : requests[k]? = some requests[k] := List.getElem?_eq_getElem hk
    obtain ⟨s, hs, hnot⟩ :=
      exists_not_idempotent hj hfresh hr (hkeys hr) hr' (hkeys hr') hne hreach
    exact hnot (hall s hs)
  · rintro (hlone | hnone) s hs
    · exact (Dispatching.tracked_of_reaches hj hs.reaches).idempotent_of_lone hlone
    · exact (Dispatching.tracked_of_reaches hj hs.reaches).idempotent_of_unreached hnone

/-! ## Calls of a plain tool -/

/-- A call of a registered tool under a scope that grants it and has no bindings. -/
def keyedCall (namespace_ toolName key : String) : Request where
  sys := baseSystem [.plain toolName]
  toolName := toolName
  input := .obj []
  scope := { demoScope [.new toolName] with namespace_ := namespace_ }
  ctx := { demoContext with idempotencyKey := some key }
  parentInteractionId := none

theorem keyedCall_check (namespace_ toolName key : String) (now : ℕ) :
    ∃ env, (keyedCall namespace_ toolName key).check now = .ok (.base (.plain toolName), env) := by
  have hgrant : (CapabilityGrant.new toolName).matches toolName = some ∅ :=
    if_pos (matches_self toolName)
  have hcheck : (keyedCall namespace_ toolName key).scope.checkTool toolName = .ok ∅ := by
    simp only [ExecutionScope.checkTool, keyedCall, demoScope, List.findSome?_cons, hgrant]
  have hget : (keyedCall namespace_ toolName key).sys.registry.get toolName =
      some (.plain toolName) :=
    ToolRegistry.get_register_self ToolRegistry.new (BaseTool.plain toolName)
  have hname : (keyedCall namespace_ toolName key).toolName = toolName := rfl
  unfold Request.check System.dispatchTool
  simp only [hname, hcheck, hget, bind, Except.bind]
  exact ⟨_, rfl⟩

theorem keyedCall_reachesTool (namespace_ toolName key : String) :
    (keyedCall namespace_ toolName key).ReachesTool := by
  obtain ⟨env, hcheck⟩ := keyedCall_check namespace_ toolName key 0
  exact ⟨0, _, env, _, env, hcheck, rfl⟩

/-- One call, and its reply. -/
theorem lone_call_idempotent : ∃ s,
    ReachesBy (DispatchStep [keyedCall "konf:demo" "echo" "k"]) (fun _ m => m.appends)
        (· = .start .open_) s ∧
      s.pc 0 = .returned (.ok .null) ∧ s.invocations = [0] ∧ s.Idempotent := by
  obtain ⟨env, hcheck⟩ := keyedCall_check "konf:demo" "echo" "k" 0
  have hstart : ReachesBy (DispatchStep [keyedCall "konf:demo" "echo" "k"]) (fun _ m => m.appends)
      (· = Dispatching.start .open_) (.start .open_) := .start rfl
  obtain ⟨s, hs, -, hreply, -, hcalls, -⟩ := Dispatching.reaches_reply hstart
    (k := 0) rfl rfl hcheck 0 rfl rfl (.ok .null) zeroStamp
  refine ⟨s, hs, hreply, hcalls, ?_⟩
  refine (dispatch_idempotent_iff "echo" "k" [keyedCall "konf:demo" "echo" "k"] ?_ .open_
    (.start rfl) nofun).mpr (.inl (Nat.le_refl 1)) s hs
  intro r hr
  rw [List.mem_singleton.mp hr]
  exact ⟨rfl, rfl⟩

def twoCalls : List Request :=
  [keyedCall "konf:demo" "echo" "k", keyedCall "konf:demo" "echo" "k"]

/-- Two calls that both look before either has appended call the tool twice. A call that comes after
the other one has returned gets its interaction, not its value. -/
theorem repeated_call_not_idempotent :
    (∃ s, ReachesBy (DispatchStep twoCalls) (fun _ m => m.appends) (· = .start .open_) s ∧
      s.invocations = [0, 1]) ∧
      ∃ s v, ReachesBy (DispatchStep twoCalls) (fun _ m => m.appends) (· = .start .open_) s ∧
        s.invocations = [0] ∧ s.pc 0 = .returned (.ok .null) ∧ s.pc 1 = .returned (.ok v) ∧
        v.get "kind" = some (.obj [("type", .str "tool_dispatch")]) := by
  obtain ⟨env, hcheck⟩ := keyedCall_check "konf:demo" "echo" "k" 0
  have hstart : ReachesBy (DispatchStep twoCalls) (fun _ m => m.appends)
      (· = Dispatching.start .open_) (.start .open_) := .start rfl
  constructor
  · have hlooking := Dispatching.reaches_call hstart (.pass (k := 0) 0 rfl rfl hcheck)
    have hlooking := Dispatching.reaches_call hlooking (.pass (k := 1) 0 rfl rfl hcheck)
    have hmissed := Dispatching.reaches_call hlooking (.miss (k := 0) 0 rfl rfl rfl)
    have hmissed := Dispatching.reaches_call hmissed (.miss (k := 1) 0 rfl rfl rfl)
    have hcalled := Dispatching.reaches_call hmissed (.invoke (k := 0) rfl rfl)
    have hcalled := Dispatching.reaches_call hcalled (.invoke (k := 1) rfl rfl)
    exact ⟨_, hcalled, rfl⟩
  · have hmissing : ∀ row ∈ RedbJournal.open_.events.rows,
        row.2.idempotencyKey ≠ some (scopedKey "echo" "k") := nofun
    have hfirst : twoCalls[0]? = some (keyedCall "konf:demo" "echo" "k") := rfl
    obtain ⟨s, env', hs, hreply, hrest, hcalls, hcached⟩ :=
      reaches_first_reply (.start rfl) hmissing hfirst rfl
        (keyedCall_reachesTool "konf:demo" "echo" "k")
    have hidle : s.pc 1 = .idle := hrest 1 (by decide)
    obtain ⟨row, hrow, -, hpayload⟩ := hcached (keyedCall "konf:demo" "echo" "k") rfl
    have hhit := (Dispatching.reaches_hit hs rfl hidle hcheck 0 hrow).2
    refine ⟨_, row.payload, hhit, hcalls, ?_, Dispatching.goto_pc_self .., ?_⟩
    · rw [Dispatching.goto_pc_of_ne _ _ (by decide), Dispatching.goto_pc_of_ne _ _ (by decide)]
      exact hreply
    · rw [hpayload]
      rfl

/-! ## Whose entry answers whom -/

/-- What an idempotency key should be read within. -/
structure KeyOwner where
  namespace_ : String
  toolName : String
  key : String
deriving DecidableEq

def Request.owner (r : Request) : Option KeyOwner :=
  r.ctx.idempotencyKey.map fun key => ⟨r.scope.namespace_, r.toolName, key⟩

/-- The lookup that call `k` is about to make finds the entry that call `i` has appended. -/
def Dispatching.AnsweredFrom (requests : List Request) (s : Dispatching) (now : Time) (k i : ℕ) :
    Prop :=
  ∃ r tool env row, requests[k]? = some r ∧ s.pc k = .looking tool env ∧
    r.cached s.journal now = some row ∧ (i, row.id) ∈ s.written

namespace KeyOwner

/-- A part of the one's key, up to a colon, is the end of the other's tool name. -/
def SplitsAs (a b : KeyOwner) : Prop :=
  ∃ mid, b.toolName = a.toolName ++ ":" ++ mid ∧ a.key = mid ++ ":" ++ b.key

/-- The two do not differ in the namespace alone, and neither pair of tool name and key is the other
one with its colon elsewhere. -/
structure Apart (a b : KeyOwner) : Prop where
  sameNamespace : a.toolName = b.toolName → a.key = b.key → a.namespace_ = b.namespace_
  left : ¬a.SplitsAs b
  right : ¬b.SplitsAs a

theorem scopedKey_eq_iff (a b : KeyOwner) :
    scopedKey a.toolName a.key = scopedKey b.toolName b.key ↔
      (a.toolName = b.toolName ∧ a.key = b.key) ∨ a.SplitsAs b ∨ b.SplitsAs a :=
  joined_eq_iff (c := ':') rfl

theorem Apart.eq_of_scopedKey {a b : KeyOwner} (h : a.Apart b)
    (hkey : scopedKey a.toolName a.key = scopedKey b.toolName b.key) : a = b := by
  obtain ⟨htool, hkey⟩ | hsplit | hsplit := (scopedKey_eq_iff a b).mp hkey
  · have hns := h.sameNamespace htool hkey
    cases a
    cases b
    cases hns
    cases htool
    cases hkey
    rfl
  · exact absurd hsplit h.left
  · exact absurd hsplit h.right

/-- Owners that are not apart are different and have one scoped key. -/
theorem apart_of_distinct {a b : KeyOwner}
    (h : scopedKey a.toolName a.key = scopedKey b.toolName b.key → a = b) : a.Apart b := by
  have hlonger : ∀ {x y : KeyOwner}, x.SplitsAs y → x ≠ y := by
    rintro x _ ⟨mid, htool, -⟩ rfl
    have hlength := congrArg (fun t : String => t.toList.length) htool
    simp only [String.toList_append, List.length_append] at hlength
    have hcolon : ":".toList.length = 1 := rfl
    omega
  constructor
  · intro htool hkey
    rw [h ((scopedKey_eq_iff a b).mpr (.inl ⟨htool, hkey⟩))]
  · intro hsplit
    exact hlonger hsplit (h ((scopedKey_eq_iff a b).mpr (.inr (.inl hsplit))))
  · intro hsplit
    exact hlonger hsplit (h ((scopedKey_eq_iff a b).mpr (.inr (.inr hsplit)))).symm

end KeyOwner

theorem scopedIdempotencyKey_of_owner {r : Request} {a : KeyOwner} (h : r.owner = some a) :
    r.scopedIdempotencyKey = some (scopedKey a.toolName a.key) := by
  obtain ⟨key, hkey, rfl⟩ := Option.map_eq_some_iff.mp h
  rw [Request.scopedIdempotencyKey, hkey]
  rfl

/-- An entry answers the calls of its own scoped key. -/
theorem Dispatching.Tracked.scopedKey_of_answered {requests : List Request} {s : Dispatching}
    (h : s.Tracked requests) {now : Time} {i k : ℕ} {r₁ r₂ : Request} (hr₁ : requests[i]? = some r₁)
    (hr₂ : requests[k]? = some r₂) (hanswered : s.AnsweredFrom requests now k i) :
    r₁.scopedIdempotencyKey = r₂.scopedIdempotencyKey := by
  obtain ⟨r, tool, env, row, hr, -, hrow, hwritten⟩ := hanswered
  rw [hr₂] at hr
  cases hr
  obtain ⟨key, hkey, hfound⟩ := Option.bind_eq_some_iff.mp hrow
  obtain ⟨stored, hmem, hstored⟩ := h.mirrors.mem_of_getByIdempotencyKey
    (Fallible.ok_of_toOption (Option.join_eq_some_iff.mp hfound))
  obtain ⟨r, stored', hr, hmem', -, hstored'⟩ := h.written _ hwritten
  rw [hr₁] at hr
  cases hr
  have hsame : stored = stored' := congrArg Prod.snd (Table.row_unique hmem hmem' rfl)
  rw [← hstored', ← hsame, hstored, hkey]

/-- Two calls with one scoped key: the second is answered from the entry of the first. -/
theorem exists_answered_from (a b : KeyOwner)
    (h : scopedKey a.toolName a.key = scopedKey b.toolName b.key) :
    ∃ s, Reaches (DispatchStep [keyedCall a.namespace_ a.toolName a.key,
        keyedCall b.namespace_ b.toolName b.key]) (· = .start .open_) s ∧
      s.AnsweredFrom [keyedCall a.namespace_ a.toolName a.key,
        keyedCall b.namespace_ b.toolName b.key] 0 1 0 := by
  have hmissing : ∀ row ∈ RedbJournal.open_.events.rows,
      row.2.idempotencyKey ≠ some (scopedKey a.toolName a.key) := nofun
  have hfirst : [keyedCall a.namespace_ a.toolName a.key,
      keyedCall b.namespace_ b.toolName b.key][0]? = some (keyedCall a.namespace_ a.toolName a.key) :=
    rfl
  obtain ⟨s, _, hs, -, hrest, -, hcached⟩ := reaches_first_reply (.start rfl) hmissing hfirst rfl
    (keyedCall_reachesTool a.namespace_ a.toolName a.key)
  have hkey : (keyedCall b.namespace_ b.toolName b.key).scopedIdempotencyKey =
      some (scopedKey a.toolName a.key) := by
    rw [h]
    rfl
  obtain ⟨row, hrow, hwritten, -⟩ := hcached _ hkey
  obtain ⟨env, hcheck⟩ := keyedCall_check b.namespace_ b.toolName b.key 0
  have hlooking := ReachesBy.tail hs.reaches trivial (.pass 0 (k := 1) rfl (hrest 1 (by decide)) hcheck)
  exact ⟨_, hlooking, _, _, env, row, rfl, Dispatching.goto_pc_self .., hrow, hwritten⟩

/-- A call of `b` is answered from an entry that a call of `a` has appended only if the two are the
same owner: this holds in every state of every run exactly when they are apart. -/
theorem answered_within_owner_iff (a b : KeyOwner) :
    (∀ (requests : List Request) (j : RedbJournal), j.Reachable →
      ∀ s, Reaches (DispatchStep requests) (· = .start j) s → ∀ i k r₁ r₂ now,
        requests[i]? = some r₁ → requests[k]? = some r₂ → r₁.owner = some a → r₂.owner = some b →
        s.AnsweredFrom requests now k i → a = b) ↔ a.Apart b := by
  constructor
  · intro hall
    refine KeyOwner.apart_of_distinct fun hkey => ?_
    obtain ⟨s, hs, hanswered⟩ := exists_answered_from a b hkey
    exact hall _ _ (.start rfl) s hs 0 1 _ _ 0 rfl rfl rfl rfl hanswered
  · intro hapart requests j hj s hs i k r₁ r₂ now hr₁ hr₂ howner₁ howner₂ hanswered
    have htracked := Dispatching.tracked_of_reaches hj hs
    have hkeys := htracked.scopedKey_of_answered hr₁ hr₂ hanswered
    rw [scopedIdempotencyKey_of_owner howner₁, scopedIdempotencyKey_of_owner howner₂,
      Option.some.injEq] at hkeys
    exact hapart.eq_of_scopedKey hkeys

/-- A tenant is answered from another one's entry, and a tool's call from another tool's. -/
theorem entry_leaks : (∃ s, Reaches (DispatchStep [keyedCall "konf:a" "echo" "k",
        keyedCall "konf:b" "echo" "k"]) (· = .start .open_) s ∧
      s.AnsweredFrom [keyedCall "konf:a" "echo" "k", keyedCall "konf:b" "echo" "k"] 0 1 0) ∧
    ∃ s, Reaches (DispatchStep [keyedCall "konf:a" "workflow:report" "daily:7",
        keyedCall "konf:a" "workflow:report:daily" "7"]) (· = .start .open_) s ∧
      s.AnsweredFrom [keyedCall "konf:a" "workflow:report" "daily:7",
        keyedCall "konf:a" "workflow:report:daily" "7"] 0 1 0 := by
  constructor
  · exact exists_answered_from ⟨"konf:a", "echo", "k"⟩ ⟨"konf:b", "echo", "k"⟩ rfl
  · exact exists_answered_from ⟨"konf:a", "workflow:report", "daily:7"⟩
      ⟨"konf:a", "workflow:report:daily", "7"⟩ (by decide)

end Konf.Runtime
