import Konf.Runtime.Routes

/-! # What a guard entry decides

A guard entry reads as a policy: the first rule whose predicate holds decides, and without one the
default action does. `GuardedTool` follows it, but both ways to a tool put the wrapper on only when
the entry has rules, so a list without rules lets everything through, whatever its default is. Behind
the guard, the bindings of a grant turn away a payload that is not an object. -/

namespace Konf.Runtime
open Konf.Substrate Konf.Executor
set_option autoImplicit false

/-! ## The policy -/

def Rule.predicate : Rule → Predicate
  | .deny predicate _ => predicate
  | .allow predicate => predicate

def Rule.isAllow : Rule → Bool
  | .deny _ _ => false
  | .allow _ => true

/-- What the entry says about a payload. -/
def ToolGuardEntry.allows (entry : ToolGuardEntry) (payload : Json) : Bool :=
  match entry.rules.find? fun rule => rule.predicate.holds payload with
  | some rule => rule.isAllow
  | none => entry.defaultAction == .allow

/-- The evaluation of the rules is the policy. -/
theorem evaluateRules_toBool (entry : ToolGuardEntry) (toolName : String) (payload : Json) :
    (evaluateRules entry.defaultAction toolName payload entry.rules).toBool = entry.allows payload := by
  obtain ⟨rules, defaultAction, alias_⟩ := entry
  unfold ToolGuardEntry.allows
  simp only
  induction rules with
  | nil => cases defaultAction <;> rfl
  | cons rule rules ih =>
    cases rule with
    | deny predicate _ | allow predicate =>
      rw [evaluateRules, List.find?_cons]
      by_cases hholds : predicate.holds payload = true
      · simp only [Rule.predicate, hholds, if_true]
        rfl
      · simp only [Rule.predicate, hholds]
        exact ih

/-! ## The wrappers -/

/-- The tool inside the wrappers is called. -/
def Tool.runs (tool : Tool) (env : Envelope) : Bool := (tool.deliver env).isOk

/-- Bindings are written into an object; no bindings fit any payload. -/
def Bindable (bindings : StrMap Json) (payload : Json) : Prop :=
  bindings.entries = [] ∨ ∃ fields, payload = .obj fields

theorem injectBindings_isOk (bindings : StrMap Json) (env : Envelope) :
    (injectBindings bindings env).isOk = true ↔ Bindable bindings env.payload := by
  unfold injectBindings Bindable
  cases hempty : bindings.entries with
  | nil => simp [Except.isOk, Except.toBool]
  | cons e rest =>
    cases env.payload <;> simp [Except.isOk, Except.toBool]

theorem virtualize_runs (bindings : StrMap Json) (raw : BaseTool) (env : Envelope) :
    (System.virtualize bindings raw).runs env = true ↔ Bindable bindings env.payload := by
  unfold System.virtualize
  split_ifs with hempty
  · exact iff_of_true rfl (.inl (List.isEmpty_iff.mp hempty))
  · rw [← injectBindings_isOk, Tool.runs, Tool.deliver]
    cases injectBindings bindings env with
    | ok bound => exact Iff.rfl
    | error e => exact Iff.rfl

/-- The wrapper of an entry with rules decides as the entry says; without rules there is none. Behind
it the bindings must fit. -/
theorem guard_runs {sys : System} {n : String} {entry : ToolGuardEntry}
    (hentry : sys.guards.lookup n = some entry) (bindings : StrMap Json) (raw : BaseTool)
    (env : Envelope) :
    (sys.guard n (System.virtualize bindings raw)).runs env = true ↔
      (entry.rules = [] ∨ entry.allows env.payload = true) ∧ Bindable bindings env.payload := by
  rw [← virtualize_runs bindings raw env]
  unfold System.guard
  rw [hentry]
  simp only
  split_ifs with hempty
  · simp [List.isEmpty_iff.mp hempty]
  · have hrules : entry.rules ≠ [] := fun hnil => hempty (List.isEmpty_iff.mpr hnil)
    rw [← evaluateRules_toBool entry (System.virtualize bindings raw).name]
    unfold Tool.runs
    rw [Tool.deliver]
    cases evaluateRules entry.defaultAction (System.virtualize bindings raw).name env.payload
        entry.rules with
    | ok passed =>
      simp only [hrules, Except.toBool, false_or, true_and]
      exact Iff.rfl
    | error e =>
      simp only [hrules, Except.toBool, Bool.false_eq_true, false_or, false_and, iff_false]
      exact Bool.false_ne_true

/-! ## Both ways -/

/-- Whether a step's call gets to the tool inside the wrappers. -/
def System.stepRuns (sys : System) (scope : ExecutionScope) (ctx : ExecutionContext) (wf : Workflow)
    (fresh : Uuid) (step : Step) (outputs : Outputs) : Bool :=
  ((sys.stepContext scope ctx wf).dispatch sys.lib fresh step outputs).toOption.any fun c =>
    c.1.runs c.2

/-- Whether a direct dispatch does. -/
def System.dispatchRuns (sys : System) (scope : ExecutionScope) (ctx : ExecutionContext)
    (toolName : String) (payload : Json) (now : ℕ) : Bool :=
  (sys.dispatchTool toolName payload scope ctx now).toOption.any fun c => c.1.runs c.2

section Runs
variable {sys : System} {scope : ExecutionScope} {ctx : ExecutionContext} {n : String}
  {bindings : StrMap Json} {raw : BaseTool} {entry : ToolGuardEntry}

theorem dispatchRuns_iff (hcheck : scope.checkTool n = .ok bindings)
    (hraw : sys.registry.get n = some raw) (hentry : sys.guards.lookup n = some entry)
    (hdeadline : ctx.deadline = none) (payload : Json) (now : ℕ) :
    sys.dispatchRuns scope ctx n payload now = true ↔
      (entry.rules = [] ∨ entry.allows payload = true) ∧ Bindable bindings payload := by
  unfold System.dispatchRuns System.dispatchTool
  rw [hcheck, hraw, hdeadline]
  exact guard_runs hentry bindings raw _

/-- A step always sends an object, which any bindings fit. -/
theorem stepRuns_iff (hcheck : scope.checkTool n = .ok bindings)
    (hraw : sys.registry.get n = some raw) (hentry : sys.guards.lookup n = some entry)
    (halias : entry.alias_ = none) (ctx : ExecutionContext) (wf : Workflow) (fresh : Uuid)
    {step : Step} {outputs : Outputs} {fields : List (String × Json)} (htool : step.tool = n)
    (hgrant : step.grant = none)
    (hinputs : resolveInputs sys.lib step.input outputs = .ok fields) :
    (sys.stepRuns scope ctx wf fresh step outputs = true) ↔
      (sys.OwnEntry scope n → entry.rules = [] ∨ entry.allows (.obj fields) = true) := by
  have hnone : sys.aliasTool n = none := by
    unfold System.aliasTool
    rw [hentry, Option.bind_some, halias, Option.bind_none]
  unfold System.stepRuns
  rw [stepDispatch_eq ctx wf fresh hcheck htool hgrant hinputs]
  by_cases hown : sys.OwnEntry scope n
  · rw [scoped_get_own hown hcheck hraw]
    simp only [hown, true_implies, Option.map_some, Option.any_some]
    rw [guard_runs hentry]
    exact and_iff_left (.inr ⟨fields, rfl⟩)
  · obtain ⟨u, hu⟩ := registrar_isSome (ToolRegistry.mem_names_of_get hraw)
      (registeredName_self hcheck hraw hnone)
    obtain ⟨bare, -, hget⟩ := scoped_get_bare hown hu
    rw [hget]
    simp only [hown, false_implies, iff_true]
    rfl

end Runs

/-- A guard entry without an alias decides as it is written, for a step's call and for a direct
dispatch of any payload, exactly when it has a rule or lets everything through anyway, no alias has
taken the tool's name over in the scoped engine (or the entry allows what the step sends), and the
grant has no bindings where the entry allows a payload that they cannot be written into. -/
theorem guard_decides_iff (sys : System) (scope : ExecutionScope) (ctx : ExecutionContext)
    (hdeadline : ctx.deadline = none) (n : String) (bindings : StrMap Json)
    (hcheck : scope.checkTool n = .ok bindings) (raw : BaseTool)
    (hraw : sys.registry.get n = some raw) (entry : ToolGuardEntry)
    (hentry : sys.guards.lookup n = some entry) (halias : entry.alias_ = none) (wf : Workflow)
    (fresh : Uuid) (step : Step) (htool : step.tool = n) (hgrant : step.grant = none)
    (outputs : Outputs) (fields : List (String × Json))
    (hinputs : resolveInputs sys.lib step.input outputs = .ok fields) (now : ℕ) :
    ((sys.stepRuns scope ctx wf fresh step outputs = true ↔ entry.allows (.obj fields) = true) ∧
        ∀ payload, sys.dispatchRuns scope ctx n payload now = true ↔
          entry.allows payload = true) ↔
      (entry.rules ≠ [] ∨ entry.defaultAction = .allow) ∧
        (sys.OwnEntry scope n ∨ entry.allows (.obj fields) = true) ∧
        ∀ payload, entry.allows payload = true → Bindable bindings payload := by
  have hempty : ∀ payload, entry.rules = [] →
      (entry.allows payload = true ↔ entry.defaultAction = .allow) := by
    intro payload hnil
    unfold ToolGuardEntry.allows
    rw [hnil]
    exact beq_iff_eq
  rw [stepRuns_iff hcheck hraw hentry halias ctx wf fresh htool hgrant hinputs]
  simp only [dispatchRuns_iff hcheck hraw hentry hdeadline]
  constructor
  · rintro ⟨hstep, hall⟩
    refine ⟨?_, ?_, fun payload hallowed => ((hall payload).mpr hallowed).2⟩
    · by_cases hnil : entry.rules = []
      · have hallowed := (hall (.obj fields)).mp ⟨.inl hnil, .inr ⟨fields, rfl⟩⟩
        exact .inr ((hempty (.obj fields) hnil).mp hallowed)
      · exact .inl hnil
    · by_cases hown : sys.OwnEntry scope n
      · exact .inl hown
      · exact .inr (hstep.mp fun h => absurd h hown)
  · rintro ⟨hpolicy, hroute, hfits⟩
    have hdecides : ∀ payload, (entry.rules = [] ∨ entry.allows payload = true) ↔
        entry.allows payload = true := by
      intro payload
      refine ⟨?_, .inr⟩
      rintro (hnil | hallowed)
      · exact (hempty payload hnil).mpr (hpolicy.resolve_left fun hne => hne hnil)
      · exact hallowed
    constructor
    · rw [hdecides]
      refine ⟨fun h => ?_, fun h _ => h⟩
      exact hroute.elim h id
    · intro payload
      rw [hdecides]
      exact and_iff_left_of_imp (hfits payload)

/-! ## An entry without rules -/

def denyGuards (rules : List Rule) : StrMap ToolGuardEntry :=
  StrMap.ofList [("shell:exec",
    { rules := rules
      defaultAction := .deny
      alias_ := none })] (by simp)

def denySystem (rules : List Rule) : System :=
  { baseSystem [.plain "shell:exec"] with guards := denyGuards rules }

/-- An entry that denies by default and has no rules lets a direct dispatch through. -/
theorem empty_rules_let_through :
    ∃ entry, (denySystem []).guards.lookup "shell:exec" = some entry ∧ entry.alias_ = none ∧
      entry.allows (.obj []) = false ∧
      (denySystem []).dispatchRuns aliasScope demoContext "shell:exec" (.obj []) 0 = true :=
  ⟨_, rfl, rfl, rfl, rfl⟩

/-- With one rule it denies what the rule does not allow. -/
theorem one_rule_denies :
    (denySystem [.allow (.exists "token")]).dispatchRuns aliasScope demoContext "shell:exec"
      (.obj []) 0 = false := by
  have hown : (denySystem [.allow (.exists "token")]).OwnEntry aliasScope "shell:exec" :=
    ⟨rfl, by decide +kernel⟩
  have hdecides := (guard_decides_iff (denySystem [.allow (.exists "token")]) aliasScope demoContext
    rfl "shell:exec" ∅ rfl (.plain "shell:exec") rfl _ rfl rfl (oneStep "call" (plainStep "shell:exec"))
    0 (plainStep "shell:exec") rfl rfl ∅ [] rfl 0).mpr ⟨.inl (List.cons_ne_nil _ _), .inl hown, fun _ _ => .inl rfl⟩
  rw [Bool.eq_false_iff, ne_eq, hdecides.2 (.obj [])]
  decide +kernel

end Konf.Runtime
