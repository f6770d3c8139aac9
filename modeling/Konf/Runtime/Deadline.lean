import Konf.Runtime.Authority

/-! # Deadlines along hand-offs

Times are milliseconds of the wall clock, read where the code reads it; what runs without an `await`
in between takes no time. A dispatch checks its context's deadline, looks the idempotency key up in
the journal if it has one, and calls the tool with the deadline in the envelope. A step's envelope is
built by `for_tool_dispatch` from the run's metadata, where the deadline is not kept, so there is
nothing for `invoke_with_retry` to check. -/

namespace Konf.Runtime
open Konf.Substrate Konf.Executor Konf.Transition Konf.Fallible
set_option autoImplicit false

/-- Where a tool is called. A dispatch reads the clock at `now` and calls the tool `wait` later; an
attempt of a step, `depth` workflow-as-tool calls down, reads it at `checked` and calls the tool
`wait` later (the backoff of a retry). -/
inductive CallSite
  | dispatch (now wait : ℕ)
  | step (depth checked wait : ℕ)

def CallSite.time : CallSite → ℕ
  | .dispatch now wait => now + wait
  | .step _ checked wait => checked + wait

mutual

/-- The tool calls made on behalf of a context, as the tools get them. -/
inductive CallUnder (sys : System) (scope : ExecutionScope) (ctx : ExecutionContext) :
    CallSite → BaseTool → Envelope → Prop
  | dispatch {toolName : String} {input : Json} {now wait : ℕ} {tool : Tool} {base : BaseTool}
      {env received : Envelope} (h : sys.dispatchTool toolName input scope ctx now = .ok (tool, env))
      (hwait : ctx.idempotencyKey = none → wait = 0)
      (hcall : tool.deliver env = .ok (base, received)) :
      CallUnder sys scope ctx (.dispatch now wait) base received
  | step {depth checked wait : ℕ} {scope' : ExecutionScope} {ctx' : ExecutionContext}
      {wf : Workflow} {table : ProcessTable} {tool : Tool} {base : BaseTool} {env received : Envelope}
      (hrun : RunUnder sys scope ctx depth scope' ctx' wf)
      (hstep : Handoff sys table (.running scope' ctx' wf) (.dispatched tool env))
      (htime : env.deadline.any (fun d => d < checked) = false)
      (hcall : tool.deliver env = .ok (base, received)) :
      CallUnder sys scope ctx (.step depth checked wait) base received

/-- The runs started on behalf of a context: the run itself, and those of workflows called as
tools. -/
inductive RunUnder (sys : System) (scope : ExecutionScope) (ctx : ExecutionContext) :
    ℕ → ExecutionScope → ExecutionContext → Workflow → Prop
  | start {table : ProcessTable} {wf : Workflow} (h : scope.validateStart table = .ok ()) :
      RunUnder sys scope ctx 0 scope ctx wf
  | dispatched {now wait : ℕ} {wf : Workflow} {env : Envelope} {child : ExecutionScope}
      {ctx' : ExecutionContext} {table : ProcessTable}
      (h : CallUnder sys scope ctx (.dispatch now wait) (.workflow wf) env)
      (hnest : Handoff sys table (.invoked (.workflow wf) env) (.running child ctx' wf)) :
      RunUnder sys scope ctx 0 child ctx' wf
  | nested {depth checked wait : ℕ} {wf : Workflow} {env : Envelope} {child : ExecutionScope}
      {ctx' : ExecutionContext} {table : ProcessTable}
      (h : CallUnder sys scope ctx (.step depth checked wait) (.workflow wf) env)
      (hnest : Handoff sys table (.invoked (.workflow wf) env) (.running child ctx' wf)) :
      RunUnder sys scope ctx (depth + 1) child ctx' wf

end

/-! ## What an envelope carries -/

section Envelopes
variable {sys : System} {scope : ExecutionScope} {ctx : ExecutionContext} {tool : Tool}
  {env : Envelope}

/-- A dispatch passes on its context's deadline, and goes through only before it. -/
theorem dispatchTool_deadline {toolName : String} {input : Json} {now : ℕ}
    (h : sys.dispatchTool toolName input scope ctx now = .ok (tool, env)) :
    env.deadline = ctx.deadline ∧ ctx.deadline.any (fun d => d < now) = false := by
  unfold System.dispatchTool at h
  obtain ⟨bindings, -, h⟩ := Fallible.bind_ok h
  split at h
  · cases h
  · split_ifs at h with hlate
    cases h
    exact ⟨rfl, Bool.not_eq_true _ ▸ hlate⟩

/-- A step's envelope has no deadline. -/
theorem step_deadline {table : ProcessTable} {wf : Workflow}
    (h : Handoff sys table (.running scope ctx wf) (.dispatched tool env)) : env.deadline = none := by
  cases h with
  | step _ _ _ _ hd =>
    obtain ⟨-, -, inputs, capabilities, -, rfl⟩ := dispatch_ok hd
    rfl

theorem deliver_deadline {base : BaseTool} {received : Envelope}
    (h : tool.deliver env = .ok (base, received)) : received.deadline = env.deadline := by
  obtain ⟨-, p, rfl⟩ := Tool.deliver_ok h
  rfl

end Envelopes

/-- The call is the one call of a dispatch, and is not held up past `d` after the clock was read. -/
def CallSite.Prompt (d : ℕ) : CallSite → Prop
  | .dispatch now wait => wait = 0 ∨ now + wait ≤ d
  | .step _ _ _ => False

/-- A call made on behalf of a context with deadline `d` carries a deadline that is not later, and is
made in time, exactly when it is a dispatch's own call and the idempotency lookup before it does not
take too long. -/
theorem deadline_kept_iff (sys : System) (scope : ExecutionScope) (ctx : ExecutionContext) (d : ℕ)
    (hd : ctx.deadline = some d) (site : CallSite) (base : BaseTool) (received : Envelope)
    (h : CallUnder sys scope ctx site base received) :
    ((∃ d', received.deadline = some d' ∧ d' ≤ d) ∧ site.time ≤ d) ↔ site.Prompt d := by
  cases h with
  | @dispatch toolName input now wait tool _ env _ hdispatch _ hcall =>
    obtain ⟨hsame, hcheck⟩ := dispatchTool_deadline hdispatch
    have hdeadline : received.deadline = some d := by
      rw [deliver_deadline hcall, hsame, hd]
    have hnow : now ≤ d := by
      rw [hd] at hcheck
      simpa using hcheck
    have hcarries : ∃ d', received.deadline = some d' ∧ d' ≤ d := ⟨d, hdeadline, le_rfl⟩
    simp only [hcarries, true_and, CallSite.time, CallSite.Prompt]
    omega
  | @step depth checked wait _ _ wf table tool _ env _ _ hstep _ hcall =>
    have hnone : received.deadline = none := by
      rw [deliver_deadline hcall, step_deadline hstep]
    simp only [hnone, reduceCtorEq, false_and, exists_false, CallSite.Prompt]

/-! ## A dispatch and a run with a deadline -/

def hurriedContext : ExecutionContext := { demoContext with deadline := some 5 }

/-- A dispatch at time 3 keeps the deadline 5. -/
theorem dispatched_in_time : ∃ base received,
    CallUnder demoSystem callerScope hurriedContext (.dispatch 3 0) base received ∧
      (∃ d', received.deadline = some d' ∧ d' ≤ 5) ∧ (CallSite.dispatch 3 0).time ≤ 5 := by
  have hrun : ((demoSystem.dispatchTool "echo" (.obj []) callerScope hurriedContext 3).toOption.bind
      fun r => (r.1.deliver r.2).toOption).isSome = true := by
    decide +kernel
  obtain ⟨⟨base, received⟩, hfound⟩ := Option.isSome_iff_exists.mp hrun
  obtain ⟨⟨tool, env⟩, hdispatch, hcall⟩ := Option.bind_eq_some_iff.mp hfound
  have hcalled : CallUnder demoSystem callerScope hurriedContext (.dispatch 3 0) base received :=
    .dispatch (ok_of_toOption hdispatch) (fun _ => rfl) (ok_of_toOption hcall)
  have hkept := (deadline_kept_iff _ _ _ 5 rfl _ base received hcalled).mpr (.inl rfl)
  exact ⟨base, received, hcalled, hkept.1, hkept.2⟩

/-- A run with the deadline 5 calls a tool at time 10, with no deadline in the envelope. -/
theorem called_after_deadline : ∃ base received,
    CallUnder demoSystem callerScope hurriedContext (.step 0 10 0) base received ∧
      hurriedContext.deadline = some 5 ∧ received.deadline = none ∧
      5 < (CallSite.step 0 10 0).time := by
  have hrun : ((demoSystem.firstDispatch callerScope hurriedContext innerWf).bind
      fun r => (r.1.deliver r.2).toOption).isSome = true := by
    decide +kernel
  obtain ⟨⟨base, received⟩, hfound⟩ := Option.isSome_iff_exists.mp hrun
  obtain ⟨⟨tool, env⟩, hfirst, hcall⟩ := Option.bind_eq_some_iff.mp hfound
  have hstep : Handoff demoSystem ∅ (.running callerScope hurriedContext innerWf)
      (.dispatched tool env) := firstDispatch_handoff (by decide) hfirst
  have hnone := step_deadline hstep
  have hstart : RunUnder demoSystem callerScope hurriedContext 0 callerScope hurriedContext innerWf :=
    .start (show callerScope.validateStart ∅ = .ok () by decide +kernel)
  refine ⟨base, received, .step hstart hstep ?_ (ok_of_toOption hcall), rfl, ?_, by decide⟩
  · rw [hnone]
    rfl
  · rw [deliver_deadline (ok_of_toOption hcall), hnone]

end Konf.Runtime
