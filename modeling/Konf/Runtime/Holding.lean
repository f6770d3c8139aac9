import Konf.Runtime.Authority

/-! # Who a workflow runs for

A step, a model's tool call and a direct dispatch check access to the name they call. The inline
runner and the scheduler look the workflow tool up in the engine's registry and check nothing, so
what a call of `runner:spawn` or `schedule:create` names is run whether or not the caller holds it.
Where each such call passes the check that the code leaves out, every workflow that is run is held. -/

namespace Konf.Runtime
open Konf.Substrate Konf.Executor Konf.Transition Konf.Fallible
set_option autoImplicit false

/-- The scope's patterns grant the tool name. -/
def ExecutionScope.Grants (scope : ExecutionScope) (name : String) : Prop :=
  checkToolAccess name scope.capabilityPatterns = .ok ()

/-- The workflow that a call of `runner:spawn` or `schedule:create` names. -/
def Activity.named : Activity → Option String
  | .invoked .spawn env | .invoked .schedule env => (env.payload.get "workflow").bind Json.asStr
  | _ => none

/-- The workflow that a spawn request or a timer is about to run. -/
def Activity.request : Activity → Option String
  | .spawning spec => some spec.workflow
  | .timer r => some r.workflow
  | _ => none

/-- A call of `runner:spawn` or `schedule:create` names a workflow that the capabilities it carries
grant. -/
def NamesHeld (a : Activity) (_ : System × ProcessTable) : Prop :=
  ∀ env ∈ a.envelope, ∀ w ∈ a.named, env.capabilities.checkAccess (workflowToolName w) = .ok ()

theorem grants_iff (scope : ExecutionScope) (name : String) :
    scope.Grants name ↔ ⟨name⟩ ∈ scope.authority := checkAccess_ok_iff _ _

/-! ## Checked calls -/

section Calls
variable {sys : System} {scope : ExecutionScope} {tool : Tool} {env : Envelope}

theorem dispatchTool_granted {toolName : String} {input : Json} {ctx : ExecutionContext} {now : ℕ}
    (h : sys.dispatchTool toolName input scope ctx now = .ok (tool, env)) :
    scope.Grants tool.name := by
  unfold System.dispatchTool at h
  obtain ⟨bindings, hcheck, h⟩ := Fallible.bind_ok h
  split at h
  · cases h
  · rename_i raw hraw
    split_ifs at h
    cases h
    have hname : raw.name = toolName := ToolRegistry.get_name hraw
    rw [System.guard_name, System.virtualize_name, hname]
    exact (checkTool_ok_iff scope toolName).mp ⟨bindings, hcheck⟩

theorem step_granted {ctx : ExecutionContext} {wf : Workflow} {step : Step} {seen : Outputs}
    {fresh : Uuid} (h : (sys.stepContext scope ctx wf).dispatch sys.lib fresh step seen =
      .ok (tool, env)) : scope.Grants tool.name := by
  obtain ⟨haccess, hget, -⟩ := dispatch_ok h
  have hname : tool.name = step.tool := ToolRegistry.get_name hget
  rw [hname]
  exact haccess

theorem resolveTools_granted {whitelist : Option (List String)} {raw : BaseTool}
    (h : raw ∈ sys.resolveTools env whitelist) :
    ⟨raw.name⟩ ∈ env.capabilities.authority := by
  unfold System.resolveTools at h
  obtain ⟨name, hname, hget⟩ := List.mem_filterMap.mp h
  have hoffers := (List.mem_filter.mp hname).2
  unfold offersTool at hoffers
  simp only [Bool.and_eq_true] at hoffers
  have haccess : checkToolAccess name env.capabilities.toPatterns = .ok () := by
    cases hcheck : checkToolAccess name env.capabilities.toPatterns with
    | ok => rfl
    | error e =>
      rw [hcheck] at hoffers
      cases hoffers.1.2
  have hsame : raw.name = name := ToolRegistry.get_name hget
  rw [hsame, ← checkAccess_ok_iff, ← fromPatterns_toPatterns env.capabilities]
  exact haccess

end Calls

/-! ## Every route to a workflow -/

theorem spawnSpec_workflow {env : Envelope} {spec : WorkflowSpec} (h : spawnSpec env = .ok spec) :
    (env.payload.get "workflow").bind Json.asStr = some spec.workflow := by
  unfold spawnSpec at h
  split at h
  · cases h
  · rename_i w hw
    cases h
    exact hw

theorem scheduleRecord_workflow {sys : System} {cronCheck : String → Except String Unit}
    {jobId : Uuid} {env : Envelope} {r : TimerRecord}
    (h : scheduleRecord sys cronCheck jobId env = .ok r) :
    (env.payload.get "workflow").bind Json.asStr = some r.workflow := by
  unfold scheduleRecord at h
  split_ifs at h
  split at h
  · cases h
  · rename_i w hw
    split_ifs at h
    obtain ⟨mode, -, h⟩ := bind_ok h
    cases h
    exact hw

/-- What the scope must grant when a chain has come this far: the tool that is called, or the
workflow that is asked for. -/
def Activity.Held (scope : ExecutionScope) : Activity → Prop
  | .dispatched tool _ => scope.Grants tool.name
  | .invoked tool _ => scope.Grants tool.name
  | .spawning spec => scope.Grants (workflowToolName spec.workflow)
  | .intent i => scope.Grants (workflowToolName i.workflow)
  | .timer r => scope.Grants (workflowToolName r.workflow)
  | .running _ _ _ | .replied _ => True

theorem Root.held {scope : ExecutionScope} {a : Activity} (h : Root scope a) : a.Held scope := by
  cases h with
  | start => trivial
  | dispatch h => exact dispatchTool_granted h

/-- What a call names is granted to the caller when the call passes the missing check. -/
theorem named_held {scope : ExecutionScope} {a : Activity} {at_ : System × ProcessTable}
    {env : Envelope} {w : String} (hle : a.authority ≤ scope.authority) (hok : NamesHeld a at_)
    (henv : a.envelope = some env) (hw : a.named = some w) :
    scope.Grants (workflowToolName w) := by
  rw [grants_iff]
  rw [a.authority_of_envelope henv] at hle
  exact hle ((checkAccess_ok_iff _ _).mp (hok env henv w hw))

theorem held_step {scope : ExecutionScope} {a b : Activity} {at_ : System × ProcessTable}
    (hle : a.authority ≤ scope.authority) (hheld : a.Held scope) (hok : NamesHeld a at_)
    (hs : HandoffStep a at_ b) : b.Held scope := by
  cases hs with
  | step _ _ _ _ hd =>
    change scope.Grants _
    rw [grants_iff]
    exact hle ((grants_iff _ _).mp (step_granted hd))
  | deliver hcall =>
    change scope.Grants _
    rw [(Tool.deliver_ok hcall).1]
    exact hheld
  | nest => trivial
  | spawn hspec => exact named_held hle hok rfl (spawnSpec_workflow hspec)
  | persist | recount | replay => exact hheld
  | launch hget =>
    change scope.Grants (Tool.base _).name
    have hname : (Tool.base _).name = workflowToolName _ := ToolRegistry.get_name hget
    rw [hname]
    exact hheld
  | schedule hrecord => exact named_held hle hok rfl (scheduleRecord_workflow hrecord)
  | fire fresh hget =>
    change scope.Grants (Tool.base _).name
    have hname : (Tool.base _).name = workflowToolName _ := ToolRegistry.get_name hget
    rw [hname]
    exact hheld
  | bridge input ht =>
    change scope.Grants _
    rw [grants_iff]
    exact hle (resolveTools_granted ht)
  | reply => trivial

theorem chain_held {scope : ExecutionScope} {a : Activity}
    (h : ReachesBy HandoffStep NamesHeld (Root scope) a) : a.Held scope := by
  induction h with
  | start h => exact h.held
  | tail hr hok hs ih => exact held_step (chain_authority_le hr.reaches) ih hok hs

/-- A spawn request or a timer for a registered workflow ends in a call of it: the registry
is the only thing that is asked. -/
theorem requested_invoked {sys : System} {scope : ExecutionScope} {a : Activity} {w : String}
    (ha : ReachesBy HandoffStep (InSystem sys) (Root scope) a) (hw : a.request = some w)
    (hregistered : sys.registry.contains (workflowToolName w) = true) :
    ∃ base env, ReachesBy HandoffStep (InSystem sys) (Root scope) (.invoked base env) ∧
      base.name = workflowToolName w := by
  obtain ⟨base, hget⟩ := Option.isSome_iff_exists.mp hregistered
  have hname : base.name = workflowToolName w := ToolRegistry.get_name hget
  cases a with
  | spawning spec =>
    cases hw
    have hlaunch := reaches_inSystem ∅ ha (.launch hget)
    exact ⟨_, _, reaches_inSystem ∅ hlaunch (.deliver rfl), hname⟩
  | timer r =>
    cases hw
    have hfire := reaches_inSystem ∅ ha (.fire 0 hget)
    exact ⟨_, _, reaches_inSystem ∅ hfire (.deliver rfl), hname⟩
  | _ => cases hw

/-- In a chain under a scope whose calls of `runner:spawn` and `schedule:create` all pass the check
that the code leaves out, only workflows that the scope grants are called. In one system, a spawn
request or a timer for a registered workflow has it called, whether the scope grants it or not. -/
theorem workflow_held_when (scope : ExecutionScope) :
    (∀ base env w, ReachesBy HandoffStep NamesHeld (Root scope) (.invoked base env) →
      base.name = workflowToolName w → scope.Grants (workflowToolName w)) ∧
    ∀ sys a w, ReachesBy HandoffStep (InSystem sys) (Root scope) a → a.request = some w →
      sys.registry.contains (workflowToolName w) = true →
        ∃ base env, ReachesBy HandoffStep (InSystem sys) (Root scope) (.invoked base env) ∧
          base.name = workflowToolName w := by
  constructor
  · intro base env w h hname
    rw [← hname]
    exact chain_held h
  · intro sys a w ha hw hregistered
    exact requested_invoked ha hw hregistered

/-! ## A spawn of a workflow that is not held -/

def spawnerScope : ExecutionScope := demoScope [.new "runner:spawn"]

def purgeWf : Workflow := oneStep "purge" (Step.new "purge" "memory:purge")

def spawnerSystem : System := baseSystem [.spawn, .workflow purgeWf]

/-- The call that a direct dispatch makes, as the tool inside the wrappers gets it. -/
def System.directCall (sys : System) (toolName : String) (input : Json) (scope : ExecutionScope)
    (ctx : ExecutionContext) : Option (BaseTool × Envelope) := do
  let (tool, env) ← (sys.dispatchTool toolName input scope ctx 0).toOption
  (tool.deliver env).toOption

theorem reaches_directCall {sys : System} {toolName : String} {input : Json}
    {scope : ExecutionScope} {ctx : ExecutionContext} {base : BaseTool} {env : Envelope}
    {ok : Activity → System × ProcessTable → Prop} (hok : ∀ a, ok a (sys, ∅))
    (h : sys.directCall toolName input scope ctx = some (base, env)) :
    ReachesBy HandoffStep ok (Root scope) (.invoked base env) := by
  unfold System.directCall at h
  obtain ⟨⟨tool, sent⟩, hdispatch, h⟩ := Option.bind_eq_some_iff.mp h
  have hroot : ReachesBy HandoffStep ok (Root scope) (.dispatched tool sent) :=
    .start (.dispatch (ok_of_toOption hdispatch))
  exact hroot.tail (hok _) (.deliver (ok_of_toOption h))

/-- A caller who holds `runner:spawn` only has a workflow run that it does not hold. -/
theorem spawned_workflow_not_held : ∃ base env,
    ReachesBy HandoffStep (InSystem spawnerSystem) (Root spawnerScope) (.invoked base env) ∧
      base.name = workflowToolName "purge" ∧ ¬spawnerScope.Grants (workflowToolName "purge") := by
  have hrun : (spawnerSystem.directCall "runner:spawn" (.obj [("workflow", .str "purge")])
      spawnerScope demoContext).any (fun c =>
        (match c.1 with
          | .spawn => true
          | _ => false) &&
        (spawnSpec c.2).toOption.any fun spec => spec.workflow == "purge") = true := by
    decide +kernel
  obtain ⟨⟨base, env⟩, hcall, hp⟩ := (Option.any_eq_true ..).mp hrun
  rw [Bool.and_eq_true] at hp
  obtain ⟨hspawn, hp⟩ := hp
  obtain rfl : base = .spawn := by
    cases base with
    | spawn => rfl
    | _ => cases hspawn
  obtain ⟨spec, hspec, hw⟩ := (Option.any_eq_true ..).mp hp
  have hinvoked : ReachesBy HandoffStep (InSystem spawnerSystem) (Root spawnerScope)
      (.invoked .spawn env) := reaches_directCall (fun _ => rfl) hcall
  have hspawning := reaches_inSystem ∅ hinvoked (.spawn (ok_of_toOption hspec))
  have hget : spawnerSystem.registry.get (workflowToolName spec.workflow) =
      some (.workflow purgeWf) := by
    rw [show spec.workflow = "purge" from beq_iff_eq.mp hw]
    rfl
  have hlaunched := reaches_inSystem ∅ hspawning (.launch hget)
  have hcalled := reaches_inSystem ∅ hlaunched (.deliver rfl)
  refine ⟨_, _, hcalled, rfl, ?_⟩
  unfold ExecutionScope.Grants
  decide +kernel

end Konf.Runtime
