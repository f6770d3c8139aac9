import Konf.Runtime.Authority
import Konf.Runtime.Resolution

/-! # Bindings and guards along hand-offs

The wrappers that inject a scope's bindings and apply the guard rules belong to the engine of one
run. An envelope carries patterns only, so a nested run has no bindings left, and the tools that
`ai:complete`, `runner:spawn` and the scheduler call come from the engine's own registry, without
wrappers. The results below say exactly which calls still have what the root scope asked for. -/

namespace Konf.Runtime
open Konf.Substrate Konf.Executor Konf.Transition Konf.Fallible
set_option autoImplicit false

/-- The bindings of the first grant that matches the tool. -/
def ExecutionScope.bindingsFor (scope : ExecutionScope) (t : String) : StrMap Json :=
  (scope.checkTool t).toOption.getD ∅

/-- Every key that the scope binds for the tool has the bound value. -/
def Bound (scope : ExecutionScope) (t : String) (payload : Json) : Prop :=
  ∀ k v, (scope.bindingsFor t).lookup k = some v → payload.get k = some v

/-- The guard entry of the tool, if there is one, accepts the payload. -/
def Accepted (sys : System) (t : String) (payload : Json) : Prop :=
  ∀ entry, sys.guards.lookup t = some entry →
    evaluateRules entry.defaultAction t payload entry.rules = .ok ()

theorem Bound.congr {scope : ExecutionScope} {t : String} {p q : Json}
    (h : ∀ k, p.get k = q.get k) : Bound scope t p ↔ Bound scope t q := by
  unfold Bound
  simp only [h]

/-! ## Scopes without bindings -/

/-- No grant of the scope carries a binding. -/
def ExecutionScope.Bare (scope : ExecutionScope) : Prop :=
  ∀ grant ∈ scope.capabilities, grant.bindings = ∅

theorem ExecutionScope.Bare.bindingsFor {scope : ExecutionScope} (h : scope.Bare) (t : String) :
    scope.bindingsFor t = ∅ := by
  unfold ExecutionScope.bindingsFor ExecutionScope.checkTool
  cases hfind : scope.capabilities.findSome? fun grant => grant.matches t with
  | none => rfl
  | some bindings =>
    obtain ⟨grant, hgrant, hm⟩ := List.exists_of_findSome?_eq_some hfind
    unfold CapabilityGrant.matches at hm
    split_ifs at hm
    cases hm
    exact h grant hgrant

/-- A run started by a hand-off has no bindings: its scope was rebuilt from an envelope. -/
theorem Handoff.nested_bare {sys : System} {table : ProcessTable} {a : Activity}
    {scope : ExecutionScope} {ctx : ExecutionContext} {wf : Workflow}
    (h : Handoff sys table a (.running scope ctx wf)) : scope.Bare := by
  cases h with
  | nest hchild _ =>
    intro grant hgrant
    rw [childScope_authority hchild] at hgrant
    obtain ⟨p, -, rfl⟩ := List.mem_map.mp hgrant
    rfl

/-! ## One call -/

section Calls
variable {sys : System} {table : ProcessTable} {tool : Tool} {sent received : Envelope}
  {base : BaseTool}

/-- What a step's call does: through its own entry the bindings of the run's scope are written over
the payload and the rules have accepted it; through an alias nothing happens to it. -/
theorem step_call {scope : ExecutionScope} {ctx : ExecutionContext} {wf : Workflow}
    (hstep : Handoff sys table (.running scope ctx wf) (.dispatched tool sent))
    (hcall : tool.deliver sent = .ok (base, received)) :
    (sys.OwnEntry scope base.name ∧
        (∀ k, received.payload.get k =
          ((scope.bindingsFor base.name).lookup k).or (sent.payload.get k)) ∧
        ∀ entry, sys.guards.lookup base.name = some entry → entry.rules ≠ [] →
          evaluateRules entry.defaultAction base.name sent.payload entry.rules = .ok ()) ∨
      (¬sys.OwnEntry scope base.name ∧ received = sent) := by
  obtain ⟨hname, -⟩ := Tool.deliver_ok hcall
  cases hstep with
  | @step _ _ _ s t seen fresh _ _ hgrant hs ht hpc hd =>
    obtain ⟨-, hget, -⟩ := dispatch_ok hd
    have htool : tool.name = t.current.tool := ToolRegistry.get_name hget
    rw [← htool, ← hname] at hget
    obtain ⟨hown, raw, bindings, hcheck, hraw, rfl⟩ | ⟨hown, raw, rfl⟩ := scoped_get_cases hget
    · left
      obtain ⟨hinner, hrules⟩ := deliver_guard hcall
      obtain ⟨rfl, hpayload⟩ := deliver_virtualize hinner
      have hbindings : scope.bindingsFor base.name = bindings := by
        rw [ExecutionScope.bindingsFor, hcheck]
        rfl
      refine ⟨hown, ?_, ?_⟩
      · rw [hbindings]
        exact hpayload
      · rw [System.virtualize_name] at hrules
        exact hrules
    · right
      cases hcall
      exact ⟨hown, rfl⟩

/-- In a run that still has the bindings, a call through its own entry is bound. -/
theorem bound_of_own {scope root : ExecutionScope} {t : String}
    (hsame : scope.bindingsFor t = root.bindingsFor t)
    (hpayload : ∀ k, received.payload.get k =
      ((scope.bindingsFor t).lookup k).or (sent.payload.get k)) :
    Bound root t received.payload := by
  intro k v hk
  rw [hpayload k, hsame, hk]
  rfl

/-- In a run without bindings, a call through its own entry has the payload that was sent. -/
theorem payload_of_bare {scope : ExecutionScope} (hbare : scope.Bare) {t : String}
    (hpayload : ∀ k, received.payload.get k =
      ((scope.bindingsFor t).lookup k).or (sent.payload.get k)) (k : String) :
    received.payload.get k = sent.payload.get k := by
  rw [hpayload k, hbare.bindingsFor t, AList.lookup_empty, Option.none_or]

/-- Through the run's own entry the tool gets the bound values exactly when the run still has the
bindings, or they were sent. -/
theorem bound_iff_of_own {scope root : ExecutionScope} (hscope : scope = root ∨ scope.Bare)
    {t : String}
    (hpayload : ∀ k, received.payload.get k =
      ((scope.bindingsFor t).lookup k).or (sent.payload.get k)) :
    Bound root t received.payload ↔
      (scope.bindingsFor t = root.bindingsFor t ∨ Bound root t sent.payload) := by
  obtain rfl | hbare := hscope
  · exact iff_of_true (bound_of_own rfl hpayload) (.inl rfl)
  · have hsent : Bound root t received.payload ↔ Bound root t sent.payload :=
      Bound.congr (payload_of_bare hbare hpayload)
    constructor
    · intro h
      exact .inr (hsent.mp h)
    · rintro (hsame | h)
      · exact bound_of_own hsame hpayload
      · exact hsent.mpr h

/-- Through the run's own entry the rules have accepted the payload whenever there are rules. -/
theorem accepted_iff_of_own {t : String} {payload : Json}
    (hrules : ∀ entry, sys.guards.lookup t = some entry → entry.rules ≠ [] →
      evaluateRules entry.defaultAction t payload entry.rules = .ok ()) :
    Accepted sys t payload ↔
      ((∃ entry, sys.guards.lookup t = some entry ∧ entry.rules ≠ []) ∨
        Accepted sys t payload) := by
  constructor
  · exact .inr
  · rintro (⟨entry, hentry, hne⟩ | h)
    · intro e he
      rw [hentry] at he
      cases he
      exact hrules entry hentry hne
    · exact h

end Calls

/-! ## Bindings and guards of every call -/

/-- The activity makes the call in a way that keeps the root scope's bindings and the guard rules, or
the payload it sends has the bound values and is accepted as it is. -/
def Shielded (sys : System) (root : ExecutionScope) (t : String) (sent : Json) : Activity → Prop
  | .running scope _ _ =>
    ((sys.OwnEntry scope t ∧ scope.bindingsFor t = root.bindingsFor t) ∨ Bound root t sent) ∧
      ((sys.OwnEntry scope t ∧ ∃ entry, sys.guards.lookup t = some entry ∧ entry.rules ≠ []) ∨
        Accepted sys t sent)
  | _ => Bound root t sent ∧ Accepted sys t sent

/-- For every call in a chain of hand-offs of one system, started by a run under `root`: the tool
gets the bound values, and the rules have accepted what was sent, exactly when the call is
shielded. -/
theorem bindings_and_guards_iff (sys : System) (root : ExecutionScope) (a : Activity)
    (ha : ReachesBy HandoffStep (InSystem sys) (StartedUnder root) a)
    (table : ProcessTable) (tool : Tool) (sent : Envelope)
    (hstep : Handoff sys table a (.dispatched tool sent)) (base : BaseTool) (received : Envelope)
    (hcall : tool.deliver sent = .ok (base, received)) :
    (Bound root base.name received.payload ∧ Accepted sys base.name sent.payload) ↔
      Shielded sys root base.name sent.payload a := by
  have hunwrapped : ∀ raw, tool = .base raw →
      ((Bound root base.name received.payload ∧ Accepted sys base.name sent.payload) ↔
        (Bound root base.name sent.payload ∧ Accepted sys base.name sent.payload)) := by
    rintro raw rfl
    cases hcall
    exact Iff.rfl
  cases a with
  | running scope ctx wf =>
    have hscope : scope = root ∨ scope.Bare := by
      cases ha with
      | start h =>
        obtain ⟨_, _, _, -, heq⟩ := h
        cases heq
        exact .inl rfl
      | tail _ _ hs => exact .inr (Handoff.nested_bare hs)
    obtain ⟨hown, hpayload, hrules⟩ | ⟨hown, rfl⟩ := step_call hstep hcall
    · rw [Shielded, bound_iff_of_own hscope hpayload]
      conv_lhs => rw [accepted_iff_of_own hrules]
      simp only [hown, true_and]
    · rw [Shielded]
      simp only [hown, false_and, false_or]
  | spawning spec =>
    cases hstep with
    | launch _ => exact hunwrapped _ rfl
  | timer r =>
    cases hstep with
    | fire _ _ => exact hunwrapped _ rfl
  | invoked t env =>
    cases hstep with
    | bridge _ _ => exact hunwrapped _ rfl
  | dispatched | replied | intent => cases hstep

/-! ## A model's call -/

/-- `memory:*` is granted for the caller's own namespace. -/
def memoryScope : ExecutionScope :=
  demoScope [.new "ai:complete", .new "workflow:*",
    ⟨"memory:*", StrMap.ofList [("namespace", .str "konf:demo:alice")] (by simp)⟩]

/-- Searching with the `raw` flag is denied. -/
def memoryGuards : StrMap ToolGuardEntry :=
  StrMap.ofList [("memory:search",
    { rules := [.deny (.exists "raw") "raw queries are not allowed"]
      defaultAction := .allow
      alias_ := none })] (by simp)

def searchWf : Workflow := oneStep "search" (Step.new "look" "memory:search")

def thinkWf : Workflow := oneStep "think" (Step.new "think" "ai:complete")

def nestedWf : Workflow := oneStep "nested" (Step.new "call" "workflow:search")

def memorySystem : System :=
  { baseSystem [.plain "memory:search", .aiComplete, .workflow searchWf] with
    guards := memoryGuards }

/-- What the model sends: another namespace, and the flag. -/
def modelInput : Json := .obj [("namespace", .str "konf:demo:bob"), ("raw", .bool true)]

theorem memory_started (wf : Workflow) :
    ReachesBy HandoffStep (InSystem memorySystem) (StartedUnder memoryScope)
      (.running memoryScope demoContext wf) :=
  .start ⟨∅, demoContext, wf, by decide +kernel, rfl⟩

theorem memory_channel : 0 < memorySystem.config.finishedChannelSize := by decide

theorem memory_own : memorySystem.OwnEntry memoryScope "memory:search" := ⟨rfl, by decide +kernel⟩

theorem search_call : ∃ tool sent base received,
    Handoff memorySystem ∅ (.running memoryScope demoContext searchWf) (.dispatched tool sent) ∧
      tool.deliver sent = .ok (base, received) ∧ base.name = "memory:search" := by
  have hrun : (memorySystem.firstDispatch memoryScope demoContext searchWf).any (fun d =>
      (d.1.deliver d.2).toOption.any fun c => c.1.name == "memory:search") = true := by
    decide +kernel
  obtain ⟨⟨tool, sent⟩, hfirst, hp⟩ := (Option.any_eq_true ..).mp hrun
  obtain ⟨⟨base, received⟩, hcall, hname⟩ := (Option.any_eq_true ..).mp hp
  exact ⟨tool, sent, base, received, firstDispatch_handoff memory_channel hfirst,
    ok_of_toOption hcall, beq_iff_eq.mp hname⟩

/-- A model that calls `memory:search` through `ai:complete` reaches another namespace, past the
rule. -/
theorem model_call_unshielded : ∃ a table tool sent base received,
    ReachesBy HandoffStep (InSystem memorySystem) (StartedUnder memoryScope) a ∧
      Handoff memorySystem table a (.dispatched tool sent) ∧
      tool.deliver sent = .ok (base, received) ∧
      ¬Bound memoryScope base.name received.payload ∧
      ¬Accepted memorySystem base.name sent.payload := by
  have hrun : (memorySystem.firstCall memoryScope demoContext thinkWf).any (fun c =>
      (match c.1 with
        | .aiComplete => true
        | _ => false) &&
      (memorySystem.resolveTools c.2 (toolWhitelist c.2.payload)).any
        (fun t => t.name == "memory:search")) = true := by
    decide +kernel
  obtain ⟨⟨ai, env⟩, hcall, hp⟩ := (Option.any_eq_true ..).mp hrun
  have hinvoked := reaches_firstCall ∅ memory_channel (memory_started thinkWf) (fun _ => rfl) hcall
  rw [Bool.and_eq_true] at hp
  obtain ⟨hai, htools⟩ := hp
  obtain rfl : ai = .aiComplete := by
    cases ai with
    | aiComplete => rfl
    | _ => cases hai
  obtain ⟨t, ht, hname⟩ := List.any_eq_true.mp htools
  have hname : t.name = "memory:search" := beq_iff_eq.mp hname
  refine ⟨_, ∅, .base t, bridgeEnvelope env modelInput, t, bridgeEnvelope env modelInput, hinvoked,
    .bridge modelInput ht, rfl, ?_, ?_⟩
  · rw [hname]
    intro hbound
    have hns : modelInput.get "namespace" = some (.str "konf:demo:alice") :=
      hbound "namespace" _ (by decide +kernel)
    revert hns
    decide +kernel
  · rw [hname]
    intro haccepted
    have heval := haccepted _ (show memoryGuards.lookup "memory:search" = some _ from rfl)
    revert heval
    change evaluateRules _ _ modelInput _ = _ → False
    decide +kernel

/-- The root run's own step gets its namespace. -/
theorem root_call_shielded : ∃ tool sent base received,
    Handoff memorySystem ∅ (.running memoryScope demoContext searchWf) (.dispatched tool sent) ∧
      tool.deliver sent = .ok (base, received) ∧
      Bound memoryScope base.name received.payload ∧
      Accepted memorySystem base.name sent.payload := by
  obtain ⟨tool, sent, base, received, hstep, hcall, hname⟩ := search_call
  have hshielded : Shielded memorySystem memoryScope base.name sent.payload
      (.running memoryScope demoContext searchWf) := by
    rw [hname]
    exact ⟨.inl ⟨memory_own, rfl⟩, .inl ⟨memory_own, _, rfl, List.cons_ne_nil _ _⟩⟩
  have hprop := (bindings_and_guards_iff memorySystem memoryScope _ (memory_started searchWf) ∅ tool
    sent hstep base received hcall).mpr hshielded
  exact ⟨tool, sent, base, received, hstep, hcall, hprop.1, hprop.2⟩

/-! ## Nested runs -/

/-- A run at some depth of workflow-as-tool calls under a root scope. -/
inductive NestedRun (sys : System) (root : ExecutionScope) :
    ℕ → ExecutionScope → ExecutionContext → Workflow → Prop
  | start {table : ProcessTable} {ctx : ExecutionContext} {wf : Workflow}
      (h : root.validateStart table = .ok ()) : NestedRun sys root 0 root ctx wf
  | call {n : ℕ} {scope child : ExecutionScope} {ctx ctx' : ExecutionContext} {wf inner : Workflow}
      {table : ProcessTable} {tool : Tool} {sent env : Envelope}
      (hrun : NestedRun sys root n scope ctx wf)
      (hstep : Handoff sys table (.running scope ctx wf) (.dispatched tool sent))
      (hcall : tool.deliver sent = .ok (.workflow inner, env))
      (hnest : Handoff sys table (.invoked (.workflow inner) env) (.running child ctx' inner)) :
      NestedRun sys root (n + 1) child ctx' inner

theorem NestedRun.scope_cases {sys : System} {root scope : ExecutionScope} {n : ℕ}
    {ctx : ExecutionContext} {wf : Workflow} (h : NestedRun sys root n scope ctx wf) :
    (n = 0 ∧ scope = root) ∨ (n ≠ 0 ∧ scope.Bare) := by
  cases h with
  | start _ => exact .inl ⟨rfl, rfl⟩
  | call _ _ _ hnest => exact .inr ⟨Nat.succ_ne_zero _, Handoff.nested_bare hnest⟩

/-- At every depth of workflow-as-tool calls, a step's call gets the values that the root scope binds
exactly when it is the root run's own call through the tool's own entry, or the step sends those
values itself. -/
theorem bindings_survive_iff (sys : System) (root : ExecutionScope) (n : ℕ)
    (scope : ExecutionScope) (ctx : ExecutionContext) (wf : Workflow)
    (hrun : NestedRun sys root n scope ctx wf) (table : ProcessTable) (tool : Tool)
    (sent : Envelope) (hstep : Handoff sys table (.running scope ctx wf) (.dispatched tool sent))
    (base : BaseTool) (received : Envelope) (hcall : tool.deliver sent = .ok (base, received)) :
    Bound root base.name received.payload ↔
      (n = 0 ∧ sys.OwnEntry root base.name) ∨ Bound root base.name sent.payload := by
  obtain ⟨hown, hpayload, -⟩ | ⟨hown, rfl⟩ := step_call hstep hcall
  · obtain ⟨hn, rfl⟩ | ⟨hn, hbare⟩ := hrun.scope_cases
    · exact iff_of_true (bound_of_own rfl hpayload) (.inl ⟨hn, hown⟩)
    · rw [Bound.congr (payload_of_bare hbare hpayload)]
      simp only [hn, false_and, false_or]
  · obtain ⟨hn, rfl⟩ | ⟨hn, -⟩ := hrun.scope_cases
    · simp only [hown, and_false, false_or]
    · simp only [hn, false_and, false_or]

/-- One level down, the root scope's namespace is not injected any more. -/
theorem nested_call_unbound : ∃ scope ctx wf table tool sent base received,
    NestedRun memorySystem memoryScope 1 scope ctx wf ∧
      Handoff memorySystem table (.running scope ctx wf) (.dispatched tool sent) ∧
      tool.deliver sent = .ok (base, received) ∧
      ¬Bound memoryScope base.name received.payload := by
  have hrun : ((memorySystem.firstNested ∅ memoryScope demoContext nestedWf).bind fun r =>
      (memorySystem.firstDispatch r.1 r.2.1 r.2.2).map fun d => (r, d)).any (fun p =>
        (p.2.1.deliver p.2.2).toOption.any fun c =>
          c.1.name == "memory:search" && (c.2.payload.get "namespace").isNone) = true := by
    decide +kernel
  obtain ⟨⟨r, tool, sent⟩, hfound, hp⟩ := (Option.any_eq_true ..).mp hrun
  obtain ⟨⟨scope, ctx, wf⟩, hnested, hfound⟩ := Option.bind_eq_some_iff.mp hfound
  obtain ⟨d, hfirst, heq⟩ := Option.map_eq_some_iff.mp hfound
  cases heq
  obtain ⟨⟨base, received⟩, hcall, hp⟩ := (Option.any_eq_true ..).mp hp
  rw [Bool.and_eq_true, beq_iff_eq] at hp
  obtain ⟨hname, hnone⟩ := hp
  obtain ⟨tool₀, sent₀, env, hstep, hinner, hnest⟩ := firstNested_handoffs memory_channel hnested
  have hroot : NestedRun memorySystem memoryScope 0 memoryScope demoContext nestedWf :=
    .start (show memoryScope.validateStart ∅ = .ok () by decide +kernel)
  refine ⟨scope, ctx, wf, ∅, tool, sent, base, received, .call hroot hstep hinner hnest,
    firstDispatch_handoff memory_channel hfirst, ok_of_toOption hcall, ?_⟩
  intro hbound
  rw [hname] at hbound
  have hns := hbound "namespace" (.str "konf:demo:alice") (by decide +kernel)
  rw [hns] at hnone
  cases hnone

theorem root_call_bound : ∃ tool sent base received,
    Handoff memorySystem ∅ (.running memoryScope demoContext searchWf) (.dispatched tool sent) ∧
      tool.deliver sent = .ok (base, received) ∧ base.name = "memory:search" ∧
      Bound memoryScope base.name received.payload := by
  obtain ⟨tool, sent, base, received, hstep, hcall, hname⟩ := search_call
  have hroot : NestedRun memorySystem memoryScope 0 memoryScope demoContext searchWf :=
    .start (show memoryScope.validateStart ∅ = .ok () by decide +kernel)
  have hown : memorySystem.OwnEntry memoryScope base.name := by
    rw [hname]
    exact memory_own
  exact ⟨tool, sent, base, received, hstep, hcall, hname,
    (bindings_survive_iff memorySystem memoryScope 0 _ _ _ hroot ∅ tool sent hstep base received
      hcall).mpr (.inl ⟨rfl, hown⟩)⟩

end Konf.Runtime
