import Konf.Executor.ParsedRun
import Konf.Parser.Compiled

/-! # Conditional branches

A `then` list of branches, from the compiler's edges to the targets `evaluate_edges_targets` selects.
A branch with a condition ends the walk when it is true. A branch without one, `else` branches
included, adds its target and lets the walk go on. -/

namespace Konf.Executor
open Konf.Substrate Konf.Parser
set_option autoImplicit false

section Branches
variable (env : ExecutorEnv) (outputs : Outputs)

/-- The branch has no condition to wait for. -/
def Unconditional (b : ThenBranchSchema) : Prop := b.else_.getD false = true ∨ b.when_ = none

instance (b : ThenBranchSchema) : Decidable (Unconditional b) :=
  inferInstanceAs (Decidable (_ ∨ _))

def conditionTrue (b : ThenBranchSchema) : Bool :=
  b.when_.any fun w => match env.evaluateAsBool outputs (cleanCondition w) with
    | .ok v => v
    | .error _ => false

/-- A branch that has a target, and is an `else` branch, has no condition, or has a true one. -/
def Matching (b : ThenBranchSchema) : Prop :=
  b.target.isSome = true ∧ (Unconditional b ∨ conditionTrue env outputs b = true)

instance (b : ThenBranchSchema) : Decidable (Matching env outputs b) :=
  inferInstanceAs (Decidable (_ ∧ _))

/-- The selection the documentation describes: the first branch that matches. -/
def firstMatch (branches : List ThenBranchSchema) : EdgeTarget :=
  match (branches.find? fun b => decide (Matching env outputs b)).bind ThenBranchSchema.target with
  | some target => .step target
  | none => .ret

/-- Every condition of the list has a value. -/
def ConditionsEvaluate (branches : List ThenBranchSchema) : Prop :=
  ∀ b ∈ branches, ∀ w, b.when_ = some w →
    ∃ v, env.evaluateAsBool outputs (cleanCondition w) = .ok v

/-- What the walk adds: the targets of unconditional branches, up to the first true condition. -/
def added : List ThenBranchSchema → List EdgeTarget
  | [] => []
  | b :: bs =>
    if Matching env outputs b then
      (b.target.map EdgeTarget.step).toList ++ if Unconditional b then added bs else []
    else added bs

variable {env outputs}

/-! ## The walk -/

theorem branchEdge_none {i : ℕ} {b : ThenBranchSchema} (h : b.target = none) :
    branchEdge i b = none := by
  rw [branchEdge, h]
  rfl

/-- The edge of a branch has a condition exactly when the branch is not unconditional. -/
theorem branchEdge_some {i : ℕ} {b : ThenBranchSchema} {target : String} (h : b.target = some target) :
    ∃ e, branchEdge i b = some e ∧ e.target = .step target ∧
      e.condition = if Unconditional b then none else b.when_ := by
  refine ⟨_, by rw [branchEdge, h]; rfl, rfl, ?_⟩
  show (if b.else_.getD false then none else b.when_) = if Unconditional b then none else b.when_
  by_cases he : b.else_.getD false = true
  · have hu : Unconditional b := .inl he
    rw [if_pos he, if_pos hu]
  · rw [if_neg he]
    split_ifs with hu
    · exact hu.resolve_left he
    · rfl

theorem branch_priorities (branches : List ThenBranchSchema) (k : ℕ) :
    ((branches.zipIdx k).filterMap fun p => branchEdge p.2 p.1).Pairwise
        (fun a b => a.priority ≤ b.priority) ∧
      ∀ e ∈ (branches.zipIdx k).filterMap fun p => branchEdge p.2 p.1, (k : Int) ≤ e.priority := by
  induction branches generalizing k with
  | nil => exact ⟨.nil, fun e he => nomatch he⟩
  | cons b bs ih =>
    obtain ⟨hsorted, hfrom⟩ := ih (k + 1)
    have hfrom' : ∀ e ∈ (bs.zipIdx (k + 1)).filterMap fun p => branchEdge p.2 p.1,
        (k : Int) ≤ e.priority := by
      intro e he
      have := hfrom e he
      omega
    rw [List.zipIdx_cons, List.filterMap_cons]
    cases hb : branchEdge k b with
    | none => exact ⟨hsorted, hfrom'⟩
    | some e =>
      have he : e.priority = k := by
        unfold branchEdge at hb
        obtain ⟨t, -, rfl⟩ := Option.map_eq_some_iff.mp hb
        rfl
      refine ⟨List.pairwise_cons.mpr ⟨fun e' he' => he ▸ hfrom' e' he', hsorted⟩, ?_⟩
      intro e' he'
      obtain rfl | he' := List.mem_cons.mp he'
      · exact Int.le_of_eq he.symm
      · exact hfrom' e' he'

/-- The targets selected when `ts` were added before: `Return` only when there is none at all. -/
def orReturn (ts : List EdgeTarget) : List EdgeTarget := if ts.isEmpty then [.ret] else ts

theorem walkEdges_branches {branches : List ThenBranchSchema} {step : Step} {k : ℕ}
    {ts : List EdgeTarget} (hok : ConditionsEvaluate env outputs branches) :
    walkEdges env step outputs ((branches.zipIdx k).filterMap fun p => branchEdge p.2 p.1) ts =
      .ok (orReturn (ts ++ added env outputs branches)) := by
  induction branches generalizing k ts with
  | nil =>
    rw [added, List.append_nil]
    rfl
  | cons b bs ih =>
    have hrest : ConditionsEvaluate env outputs bs := fun b' hb' => hok b' (List.mem_cons_of_mem _ hb')
    rw [List.zipIdx_cons, List.filterMap_cons, added]
    cases htarget : b.target with
    | none =>
      have hno : ¬Matching env outputs b := by
        intro h
        have := h.1
        rw [htarget] at this
        cases this
      rw [branchEdge_none htarget, if_neg hno]
      exact ih hrest
    | some target =>
      obtain ⟨e, he, het, hec⟩ := branchEdge_some (i := k) htarget
      rw [he]
      by_cases hu : Unconditional b
      · rw [if_pos hu] at hec
        have hm : Matching env outputs b := ⟨by rw [htarget]; rfl, .inl hu⟩
        rw [if_pos hm, if_pos hu, walkEdges, hec, het]
        show walkEdges env step outputs _ _ = _
        rw [ih hrest, List.append_assoc]
        rfl
      · rw [if_neg hu] at hec
        obtain ⟨w, hw⟩ : ∃ w, b.when_ = some w :=
          Option.ne_none_iff_exists'.mp fun h => hu (.inr h)
        obtain ⟨v, hv⟩ := hok b List.mem_cons_self w hw
        have htrue : conditionTrue env outputs b = v := by
          rw [conditionTrue, hw]
          simp [hv]
        rw [walkEdges, hec, hw]
        simp only [hv]
        cases v with
        | true =>
          have hm : Matching env outputs b := ⟨by rw [htarget]; rfl, .inr htrue⟩
          rw [if_pos hm, if_neg hu, het]
          simp [orReturn]
        | false =>
          have hm : ¬Matching env outputs b := by
            rintro ⟨-, h | h⟩
            · exact hu h
            · rw [htrue] at h
              cases h
          rw [if_neg hm]
          exact ih hrest

/-! ## First match -/

theorem added_eq_nil {branches : List ThenBranchSchema} :
    added env outputs branches = [] ↔ ∀ b ∈ branches, ¬Matching env outputs b := by
  induction branches with
  | nil => simp [added]
  | cons b bs ih =>
    rw [added, List.forall_mem_cons]
    split_ifs with hm hu
    · obtain ⟨target, htarget⟩ := Option.isSome_iff_exists.mp hm.1
      simp [hm, htarget]
    · obtain ⟨target, htarget⟩ := Option.isSome_iff_exists.mp hm.1
      simp [hm, htarget]
    · simp [hm, ih]

/-- No branch that matches follows a first match without a condition. -/
def Stops (env : ExecutorEnv) (outputs : Outputs) (branches : List ThenBranchSchema) : Prop :=
  ∀ pre b post, branches = pre ++ b :: post → (∀ a ∈ pre, ¬Matching env outputs a) →
    Matching env outputs b → Unconditional b → ∀ c ∈ post, ¬Matching env outputs c

theorem stops_cons_skip {b : ThenBranchSchema} {bs : List ThenBranchSchema}
    (hb : ¬Matching env outputs b) : Stops env outputs (b :: bs) ↔ Stops env outputs bs := by
  constructor
  · intro h pre b' post hsplit hpre
    refine h (b :: pre) b' post (by rw [hsplit]; rfl) ?_
    exact List.forall_mem_cons.mpr ⟨hb, hpre⟩
  · intro h pre b' post hsplit hpre hm
    cases pre with
    | nil =>
      rw [List.nil_append, List.cons.injEq] at hsplit
      exact absurd (hsplit.1 ▸ hm) hb
    | cons a pre =>
      rw [List.cons_append, List.cons.injEq] at hsplit
      exact h pre b' post hsplit.2 (fun a ha => hpre a (List.mem_cons_of_mem _ ha)) hm

theorem stops_cons_match {b : ThenBranchSchema} {bs : List ThenBranchSchema}
    (hb : Matching env outputs b) :
    Stops env outputs (b :: bs) ↔ (Unconditional b → ∀ c ∈ bs, ¬Matching env outputs c) := by
  constructor
  · intro h hu
    exact h [] b bs rfl (fun a ha => nomatch ha) hb hu
  · intro h pre b' post hsplit hpre hm hu
    cases pre with
    | nil =>
      rw [List.nil_append, List.cons.injEq] at hsplit
      obtain ⟨rfl, rfl⟩ := hsplit
      exact h hu
    | cons a pre =>
      rw [List.cons_append, List.cons.injEq] at hsplit
      exact absurd (hsplit.1 ▸ hb) (hpre a List.mem_cons_self)

theorem added_firstMatch_iff (branches : List ThenBranchSchema) :
    orReturn (added env outputs branches) = [firstMatch env outputs branches] ↔
      Stops env outputs branches := by
  induction branches with
  | nil => simp [orReturn, added, firstMatch, Stops]
  | cons b bs ih =>
    by_cases hm : Matching env outputs b
    · obtain ⟨target, htarget⟩ := Option.isSome_iff_exists.mp hm.1
      have hfirst : firstMatch env outputs (b :: bs) = .step target := by
        simp [firstMatch, hm, htarget]
      rw [stops_cons_match hm, hfirst, added, if_pos hm, htarget, ← added_eq_nil]
      by_cases hu : Unconditional b
      · simp [orReturn, hu]
      · simp [orReturn, hu]
    · have hfirst : firstMatch env outputs (b :: bs) = firstMatch env outputs bs := by
        simp [firstMatch, hm]
      rw [stops_cons_skip hm, hfirst, added, if_neg hm, ih]

/-- The executor takes the first branch that matches, and that one alone, exactly when no branch that
matches follows a first match without a condition. -/
theorem branch_selection_iff {lib : Externals} {config : EngineConfig} {schema : WorkflowSchema}
    {name : String} {node : NodeSchema} {step : Step} {branches : List ThenBranchSchema}
    (hstep : compileNode lib config schema name node = .ok step) (hreturn : node.return_ = none)
    (hthen : node.then_ = some (.conditional branches))
    (hok : ConditionsEvaluate env outputs branches) :
    evaluateEdgesTargets env step outputs = .ok [firstMatch env outputs branches] ↔
      Stops env outputs branches := by
  have hedges : step.edges = (branches.zipIdx).filterMap fun p => branchEdge p.2 p.1 := by
    rw [(compileNode_ok hstep).edges, returnEdges, hreturn, hthen]
    rfl
  have hwalk : evaluateEdgesTargets env step outputs =
      .ok (orReturn (added env outputs branches)) := by
    have hsorted := (branch_priorities branches 0).1
    have hbranches : walkEdges env step outputs
        (branches.zipIdx.filterMap fun p => branchEdge p.2 p.1) [] =
        .ok (orReturn ([] ++ added env outputs branches)) := walkEdges_branches hok
    rw [evaluateEdgesTargets, hedges]
    split_ifs with hempty
    · rw [List.isEmpty_iff.mp hempty] at hbranches
      exact hbranches
    · rw [hsorted.insertionSort_eq]
      exact hbranches
  rw [hwalk, Except.ok.injEq, added_firstMatch_iff]

end Branches

/-! ## Two orders of one list -/

def highBranch : ThenBranchSchema := ⟨some "rate.score > 8", some "high", none, none⟩

def lowBranch : ThenBranchSchema := ⟨none, some "low", none, some true⟩

def ratedNode (branches : List ThenBranchSchema) : NodeSchema :=
  { do_ := some (.single "echo"), then_ := some (.conditional branches) }

def ratedStep (branches : List ThenBranchSchema) : Except ParseError Step :=
  compileNode plainExternals EngineConfig.default ⟨"rating", "", none, [], none, none, false, ∅⟩
    "rate" (ratedNode branches)

-- both orders are run where the score is high
def ratedEnv : ExecutorEnv := plainEnv EngineConfig.default (Workflow.new "rating" "rating" "rate")

theorem rated_evaluate (branches : List ThenBranchSchema) : ConditionsEvaluate ratedEnv ∅ branches :=
  fun _ _ _ _ => ⟨true, rfl⟩

/-- With the `else` branch last, the true condition before it decides. -/
theorem else_last_selects : ∃ step, ratedStep [highBranch, lowBranch] = .ok step ∧
    evaluateEdgesTargets ratedEnv step ∅ = .ok [.step "high"] := by
  have hstep : ratedStep [highBranch, lowBranch] = .ok _ := rfl
  refine ⟨_, hstep, (branch_selection_iff hstep rfl rfl (rated_evaluate _)).mpr ?_⟩
  rw [stops_cons_match ⟨rfl, .inr rfl⟩]
  rintro (h | h)
  · cases h
  · cases h

/-- With the `else` branch first, its target and that of the true condition are both selected. -/
theorem else_first_selects_both : ∃ step, ratedStep [lowBranch, highBranch] = .ok step ∧
    ConditionsEvaluate ratedEnv ∅ [lowBranch, highBranch] ∧
    firstMatch ratedEnv ∅ [lowBranch, highBranch] = .step "low" ∧
    evaluateEdgesTargets ratedEnv step ∅ = .ok [.step "low", .step "high"] :=
  ⟨_, rfl, rated_evaluate _, rfl, rfl⟩

end Konf.Executor
