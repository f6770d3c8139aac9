import Konf.Executor.Residence
import Konf.Parser.Dependencies

/-! # The values of a run

A step's inputs refer to the outputs of other steps and to the workflow's input. Where no output that
is referred to is recorded a second time, and none is still missing when a step takes its inputs, the
tools' behaviour alone decides what every step records: the values are those of the data flow,
whatever the order of the steps was. -/

namespace Konf.Executor
open Konf.Substrate Konf.Parser Konf.Text Konf.Fallible Konf.Transition
set_option autoImplicit false

/-! ## What an input refers to -/

/-- The two stores have the same values under these names. -/
def AgreeOn (keys : List String) (seen seen' : Outputs) : Prop :=
  ∀ k ∈ keys, seen.lookup k = seen'.lookup k

theorem AgreeOn.mono {keys keys' : List String} {seen seen' : Outputs} (h : AgreeOn keys seen seen')
    (hsub : keys' ⊆ keys) : AgreeOn keys' seen seen' := fun k hk => h k (hsub hk)

/-- `vars` names every variable that a rendered template depends on. -/
def RendersFrom (lib : Externals) (vars : String → List String) : Prop :=
  ∀ text seen seen', AgreeOn (vars text) seen seen' → lib.render text seen = lib.render text seen'

section Reads
variable (vars : String → List String)

def stringReads (s : String) : List String :=
  if hasTemplates s then ((tryPureRef s).map refRoot).toList ++ vars s else []

def exprReads : Expr → List String
  | .literal _ => []
  | .ref path => [refRoot path]
  | .template text => vars text
  | .json value => (strings value).flatMap (stringReads vars)

/-- The names that a step's inputs refer to. -/
def stepReads (step : Step) : List String :=
  step.input.entries.flatMap fun e => exprReads vars e.2

end Reads

section Resolved
variable {lib : Externals} {vars : String → List String} {seen seen' : Outputs}

theorem resolveRef_congr {path : String} (h : AgreeOn [refRoot path] seen seen') :
    resolveRef path seen = resolveRef path seen' := by
  have hroot := h (refRoot path) (List.mem_singleton_self _)
  unfold refRoot at hroot
  unfold resolveRef
  cases hparts : splitChar '.' path.toList with
  | nil => rfl
  | cons root parts =>
    rw [hparts] at hroot
    rw [List.headI_cons] at hroot
    simp only [hroot]

theorem resolveString_congr (hlib : RendersFrom lib vars) {s : String}
    (h : AgreeOn (stringReads vars s) seen seen') :
    resolveJsonTemplates lib seen (.str s) = resolveJsonTemplates lib seen' (.str s) := by
  rw [resolveJsonTemplates, resolveJsonTemplates]
  split_ifs with htemplates
  · unfold stringReads at h
    rw [if_pos htemplates] at h
    have hrender : lib.render s seen = lib.render s seen' :=
      hlib s seen seen' (h.mono (List.subset_append_right _ _))
    have href : ((tryPureRef s).bind fun path => resolveRef path seen) =
        (tryPureRef s).bind fun path => resolveRef path seen' := by
      cases hpath : tryPureRef s with
      | none => rfl
      | some path =>
        rw [hpath] at h
        exact resolveRef_congr (h.mono (List.subset_append_left _ _))
    rw [href, hrender]
  · rfl

mutual
theorem resolveJson_congr (hlib : RendersFrom lib vars) : ∀ v : Json,
    AgreeOn ((strings v).flatMap (stringReads vars)) seen seen' →
      resolveJsonTemplates lib seen v = resolveJsonTemplates lib seen' v
  | .str s, h => resolveString_congr hlib (by simpa [strings] using h)
  | .arr items, h => by
    rw [resolveJsonTemplates, resolveJsonTemplates, resolveItems_congr hlib items h]
  | .obj fields, h => by
    rw [resolveJsonTemplates, resolveJsonTemplates, resolveFields_congr hlib fields h]
  | .null, _ => by rw [resolveJsonTemplates, resolveJsonTemplates]
  | .bool _, _ => by rw [resolveJsonTemplates, resolveJsonTemplates]
  | .num _, _ => by rw [resolveJsonTemplates, resolveJsonTemplates]
theorem resolveItems_congr (hlib : RendersFrom lib vars) : ∀ vs : List Json,
    AgreeOn ((stringsOfItems vs).flatMap (stringReads vars)) seen seen' →
      resolveItems lib seen vs = resolveItems lib seen' vs
  | [], _ => by rw [resolveItems, resolveItems]
  | v :: vs, h => by
    rw [stringsOfItems, List.flatMap_append] at h
    rw [resolveItems, resolveItems,
      resolveJson_congr hlib v (h.mono (List.subset_append_left _ _)),
      resolveItems_congr hlib vs (h.mono (List.subset_append_right _ _))]
theorem resolveFields_congr (hlib : RendersFrom lib vars) : ∀ fs : List (String × Json),
    AgreeOn ((stringsOfFields fs).flatMap (stringReads vars)) seen seen' →
      resolveFields lib seen fs = resolveFields lib seen' fs
  | [], _ => by rw [resolveFields, resolveFields]
  | (k, v) :: fs, h => by
    rw [stringsOfFields, List.flatMap_append] at h
    rw [resolveFields, resolveFields,
      resolveJson_congr hlib v (h.mono (List.subset_append_left _ _)),
      resolveFields_congr hlib fs (h.mono (List.subset_append_right _ _))]
end

theorem resolveExpr_congr (hlib : RendersFrom lib vars) {expr : Expr}
    (h : AgreeOn (exprReads vars expr) seen seen') :
    resolveExpr lib seen expr = resolveExpr lib seen' expr := by
  cases expr with
  | literal s => rfl
  | ref path => simp only [resolveExpr, resolveRef_congr h]
  | template text => simp only [resolveExpr, hlib text seen seen' h]
  | json value => exact resolveJson_congr hlib value h

/-- A step's resolved inputs depend on the values it refers to. -/
theorem resolveInputs_congr (hlib : RendersFrom lib vars) {step : Step}
    (h : AgreeOn (stepReads vars step) seen seen') :
    resolveInputs lib step.input seen = resolveInputs lib step.input seen' := by
  unfold resolveInputs
  refine foldlM_congr (fun e he fields => ?_) []
  have hexpr : AgreeOn (exprReads vars e.2) seen seen' :=
    h.mono fun k hk => List.mem_flatMap.mpr ⟨e, he, hk⟩
  rw [resolveExpr_congr hlib hexpr]

end Resolved

/-! ## Values -/

/-- A step's result is a function of its resolved inputs. -/
def Deterministic (lib : Externals) (env : ExecutorEnv) : Prop :=
  ∀ step a a' seen seen', resolveInputs lib step.input seen = resolveInputs lib step.input seen' →
    env.executeStep a step seen = env.executeStep a' step seen'

/-- What is stored as a step's output for a result of `execute_step`. -/
def storedOutput (step : Step) : Except KonfluxError Json → Option Json
  | .ok v => some v
  | .error _ => match step.onError with
    | .skip => some .null
    | .fallback value => some (.str value)
    | .fail | .goto _ => none

/-- The step `x` and steps that it depends on: they refer to one another and to the input only. -/
structure Upstream (vars : String → List String) (w : Workflow) (x : StepId) (steps : List StepId) :
    Prop where
  self : x ∈ steps
  closed : ∀ y ∈ steps, ∀ step, w.getStep y = some step → ∀ k ∈ stepReads vars step,
    k ∈ "input" :: steps

section Values
variable (vars : String → List String) (env : ExecutorEnv) (steps : List StepId) (input : Json)

/-- The data flow: the value of a step comes from the values that its inputs refer to. -/
inductive Value : String → Json → Prop
  | input : Value "input" input
  | step {step : Step} {seen : Outputs} {v : Json} (value : String → Json) (a : env.Answer)
      (hget : env.workflow.getStep step.id = some step) (hstep : step.id ∈ steps)
      (hname : step.id ≠ "input")
      (hseen : ∀ k ∈ stepReads vars step, seen.lookup k = some (value k))
      (hvalue : ∀ k ∈ stepReads vars step, Value k (value k))
      (hstored : storedOutput step (env.executeStep a step seen) = some v) : Value step.id v

end Values

section Unique
variable {vars : String → List String} {env : ExecutorEnv} {steps : List StepId} {input : Json}

theorem Value.at_input {k : String} {v : Json} (h : Value vars env steps input k v)
    (hk : k = "input") : v = input := by
  cases h with
  | input => rfl
  | step value a hget hstep hname hseen hvalue hstored => exact absurd hk hname

theorem Value.at_step {k : String} {v : Json} (h : Value vars env steps input k v)
    (hk : k ≠ "input") :
    ∃ (step : Step) (seen : Outputs) (value : String → Json) (a : env.Answer), step.id = k ∧
      env.workflow.getStep step.id = some step ∧
      (∀ k ∈ stepReads vars step, seen.lookup k = some (value k)) ∧
      (∀ k ∈ stepReads vars step, Value vars env steps input k (value k)) ∧
      storedOutput step (env.executeStep a step seen) = some v := by
  cases h with
  | input => exact absurd rfl hk
  | @step step seen _ value a hget hstep hname hseen hvalue hstored =>
    exact ⟨step, seen, value, a, rfl, hget, hseen, hvalue, hstored⟩

/-- Tools that are functions of their inputs give every step one value at most. -/
theorem Value.unique {lib : Externals} (hlib : RendersFrom lib vars) (hdet : Deterministic lib env)
    {k : String} {v v' : Json} (h : Value vars env steps input k v)
    (h' : Value vars env steps input k v') : v = v' := by
  induction h generalizing v' with
  | input => exact (h'.at_input rfl).symm
  | @step step seen v value a hget hstep hname hseen hvalue hstored ih =>
    obtain ⟨other, seen', value', a', hid, hget', hseen', hvalue', hstored'⟩ := h'.at_step hname
    obtain rfl : other = step := by
      rw [hid, hget] at hget'
      exact (Option.some.inj hget').symm
    have hagree : AgreeOn (stepReads vars other) seen seen' := by
      intro k hk
      rw [hseen k hk, hseen' k hk, ih k hk (hvalue' k hk)]
    rw [hdet other a a' seen seen' (resolveInputs_congr hlib hagree), hstored'] at hstored
    exact (Option.some.inj hstored).symm

end Unique

/-! ## Runs in which what is read is settled -/

section Condition
variable (vars : String → List String) (steps : List StepId) (env : ExecutorEnv)

def Event.settled (s : State) : Event → Bool
  | .output y _ => y ∉ "input" :: steps || (s.outputs.lookup y).isNone
  | .bound var _ => var ∉ "input" :: steps
  | .read y _ seen => y ∉ steps ||
    (env.workflow.getStep y).all fun step => (stepReads vars step).all fun k =>
      (seen.lookup k).isSome
  | _ => true

/-- No output of these steps is recorded a second time or hidden by a loop variable, and each takes
its inputs only when everything that they refer to is there. -/
def ReadsSettled (s : State) (c : Choice env.Answer) : Prop :=
  ∀ e ∈ emitted env s c, e.settled vars steps env s = true

instance (s : State) (c : Choice env.Answer) : Decidable (ReadsSettled vars steps env s c) :=
  inferInstanceAs (Decidable (∀ e ∈ emitted env s c, e.settled vars steps env s = true))

end Condition

section Invariant
variable (vars : String → List String) (env : ExecutorEnv) (steps : List StepId) (input : Json)

/-- The step has taken its inputs, each with its value. -/
def Taken (step : Step) (seen : Outputs) : Prop :=
  ∀ k ∈ stepReads vars step, ∃ v, seen.lookup k = some v ∧ Value vars env steps input k v

/-- What the program counter of a task says of the inputs that its step has taken. -/
def FromValues (step : Step) : TaskPc → Prop
  | .executing seen => Taken vars env steps input step seen
  | .succeeded v => ∃ seen a, Taken vars env steps input step seen ∧ env.executeStep a step seen = .ok v
  | .failed err => ∃ seen a, Taken vars env steps input step seen ∧ env.executeStep a step seen = .error err
  | _ => True

structure Valued (s : State) : Prop where
  present : (s.outputs.lookup "input").isSome = true
  outputs : ∀ k ∈ "input" :: steps, ∀ v, s.outputs.lookup k = some v → Value vars env steps input k v
  recorded : ∀ y ∈ steps, ∀ v, Event.output y v ∈ s.trace → Value vars env steps input y v
  tasks : ∀ t ∈ s.tasks, t.current.id ∈ steps → FromValues vars env steps input t.current t.pc

end Invariant

section Preserved
variable {vars : String → List String} {env : ExecutorEnv} {x : StepId} {steps : List StepId}
  {input : Json} {s : State}

theorem Taken.value {step : Step} {seen : Outputs} (h : Taken vars env steps input step seen)
    (hget : env.workflow.getStep step.id = some step) (hstep : step.id ∈ steps)
    (hname : step.id ≠ "input") (a : env.Answer) {v : Json}
    (hstored : storedOutput step (env.executeStep a step seen) = some v) :
    Value vars env steps input step.id v := by
  refine .step (fun k => (seen.lookup k).getD .null) a hget hstep hname ?_ ?_ hstored
  · intro k hk
    obtain ⟨u, hu, -⟩ := h k hk
    rw [hu]
    rfl
  · intro k hk
    obtain ⟨u, hu, hvalue⟩ := h k hk
    rw [hu]
    exact hvalue

/-- A transition that stores nothing: new tasks have yet to take their inputs. -/
theorem Valued.quiet (h : Valued vars env steps input s) {s' : State} (more : List Event)
    (houtputs : s'.outputs = s.outputs) (htrace : s'.trace = s.trace ++ more)
    (hmore : ∀ y v, Event.output y v ∉ more)
    (htasks : ∀ t ∈ s'.tasks, t ∈ s.tasks ∨ t.pc = .loopTop) : Valued vars env steps input s' := by
  refine ⟨?_, ?_, ?_, ?_⟩
  · rw [houtputs]
    exact h.present
  · rw [houtputs]
    exact h.outputs
  · intro y hy v hmem
    rw [htrace, List.mem_append] at hmem
    exact h.recorded y hy v (hmem.resolve_right (hmore y v))
  · intro t ht hin
    obtain ht | hpc := htasks t ht
    · exact h.tasks t ht hin
    · rw [hpc]
      trivial

/-- The value of an output that a task records is the one that the data flow gives it. -/
theorem Valued.output_value (h : Valued vars env steps input s) {t t' : Task} {e : Option Event}
    (ht : t ∈ s.tasks) (hres : Residence env s) (hmove : Task.Move env s t t' e) {y : StepId}
    {v : Json} (he : e = some (.output y v)) (hy : y ∈ steps) (hname : y ≠ "input") :
    Value vars env steps input y v := by
  cases he
  have hget := hres.current t ht
  cases hmove with
  | skip hpc hact =>
    have hfrom := h.tasks t ht hy
    rw [hpc] at hfrom
    obtain ⟨seen, a, htaken, hexec⟩ := hfrom
    refine htaken.value hget hy hname a ?_
    rw [hexec, storedOutput, hact]
  | fallback hpc hact =>
    have hfrom := h.tasks t ht hy
    rw [hpc] at hfrom
    obtain ⟨seen, a, htaken, hexec⟩ := hfrom
    refine htaken.value hget hy hname a ?_
    rw [hexec, storedOutput, hact]
  | record hpc _ =>
    have hfrom := h.tasks t ht hy
    rw [hpc] at hfrom
    obtain ⟨seen, a, htaken, hexec⟩ := hfrom
    refine htaken.value hget hy hname a ?_
    rw [hexec, storedOutput]

/-- A task that moves goes on from inputs that it has taken whole. -/
theorem Valued.moved (h : Valued vars env steps input s)
    (hup : Upstream vars env.workflow x steps) {t t' : Task} {e : Option Event} (ht : t ∈ s.tasks)
    (hres : Residence env s) (hmove : Task.Move env s t t' e)
    (hsettled : ∀ ev ∈ e, ev.settled vars steps env s = true) (hin : t'.current.id ∈ steps) :
    FromValues vars env steps input t'.current t'.pc := by
  cases hmove with
  | read hpc =>
    have hread := hsettled _ rfl
    simp only [Event.settled, hin, not_true_eq_false, decide_false, Bool.false_or,
      hres.current t ht, Option.all_some, List.all_eq_true] at hread
    intro k hk
    obtain ⟨v, hv⟩ := Option.isSome_iff_exists.mp (hread k hk)
    exact ⟨v, hv, h.outputs k (hup.closed _ hin _ (hres.current t ht) k hk) v hv⟩
  | @answer seen a hpc =>
    have hcurrent : (t.answered (env.executeStep a t.current seen)).current = t.current := by
      unfold Task.answered
      cases env.executeStep a t.current seen <;> rfl
    rw [hcurrent] at hin ⊢
    have hfrom := h.tasks t ht hin
    rw [hpc] at hfrom
    unfold Task.answered
    cases hexec : env.executeStep a t.current seen with
    | ok v => exact ⟨seen, a, hfrom, hexec⟩
    | error err => exact ⟨seen, a, hfrom, hexec⟩
  | start _ _ hto =>
    rcases hto with rfl | ⟨var, rfl, -⟩ <;> exact trivial
  | record _ hto =>
    rcases hto with rfl | rfl <;> exact trivial
  | _ => trivial

/-- What an event stores under a name that matters is the value of a step, stored for the first
time. -/
theorem Valued.stored (h : Valued vars env steps input s) {t t' : Task} {e : Option Event} (ht : t ∈ s.tasks)
    (hres : Residence env s) (hmove : Task.Move env s t t' e)
    (hsettled : ∀ ev ∈ e, ev.settled vars steps env s = true) {k : String} (hk : k ∈ "input" :: steps) {v : Json}
    (hv : ((e.map fun e => e.onOutputs s.outputs).getD s.outputs).lookup k = some v) :
    s.outputs.lookup k = some v ∨ Value vars env steps input k v := by
  cases e with
  | none => exact .inl hv
  | some ev =>
    have hok := hsettled ev rfl
    cases ev with
    | output y u =>
      by_cases hky : k = y
      · subst hky
        have hfresh : s.outputs.lookup k = none := by
          simpa [Event.settled, hk] using hok
        have hname : k ≠ "input" := by
          rintro rfl
          have hinput := h.present
          rw [hfresh] at hinput
          cases hinput
        have hstep : k ∈ steps := (List.mem_cons.mp hk).resolve_left hname
        obtain rfl : u = v := by
          simpa [Event.onOutputs, AList.lookup_insert] using hv
        exact .inr (h.output_value ht hres hmove rfl hstep hname)
      · refine .inl ?_
        simpa [Event.onOutputs, AList.lookup_insert_ne hky] using hv
    | bound var u =>
      have hother : k ≠ var := by
        rintro rfl
        simp [Event.settled, hk] at hok
      refine .inl ?_
      simpa [Event.onOutputs, AList.lookup_insert_ne hother] using hv
    | _ => exact .inl hv

theorem Valued.task (h : Valued vars env steps input s)
    (hup : Upstream vars env.workflow x steps) {k : ℕ} {t t' : Task} {e : Option Event}
    (hk : s.tasks[k]? = some t) (hres : Residence env s) (hmove : Task.Move env s t t' e)
    (hsettled : ∀ ev ∈ e, ev.settled vars steps env s = true) : Valued vars env steps input (s.move k t' e) := by
  have ht := List.mem_of_getElem? hk
  refine ⟨?_, ?_, ?_, ?_⟩
  · rw [State.move_outputs]
    cases e with
    | none => exact h.present
    | some ev => exact ev.onOutputs_isSome s.outputs "input" h.present
  · intro key hkey v hv
    rw [State.move_outputs] at hv
    exact (h.stored ht hres hmove hsettled hkey hv).elim (h.outputs key hkey v) id
  · intro y hy v hmem
    rw [State.move_trace, List.mem_append] at hmem
    obtain hmem | hmem := hmem
    · exact h.recorded y hy v hmem
    · have he : e = some (.output y v) := Option.mem_toList.mp hmem
      have hstored : ((e.map fun e => e.onOutputs s.outputs).getD s.outputs).lookup y = some v := by
        rw [he]
        simp [Event.onOutputs]
      obtain hold | hvalue :=
        h.stored ht hres hmove hsettled (List.mem_cons_of_mem _ hy) hstored
      · exact h.outputs y (List.mem_cons_of_mem _ hy) v hold
      · exact hvalue
  · intro u hu hin
    rw [State.move_tasks] at hu
    obtain hu | rfl := List.mem_or_eq_of_mem_set hu
    · exact h.tasks u hu hin
    · exact h.moved hup ht hres hmove hsettled hin

theorem Valued.step {s' : State} {c : Choice env.Answer} (h : Valued vars env steps input s)
    (hup : Upstream vars env.workflow x steps)
    (hres : Residence env s) (hok : ReadsSettled vars steps env s c) (hs : Trans env s c s') :
    Valued vars env steps input s' := by
  cases hs with
  | task hk hn =>
    refine h.task hup hk hres (Task.next_move hn) ?_
    rw [← emitted_task hk hn]
    exact hok
  | answer a hk hpc => exact h.task hup hk hres (.answer a hpc) (by simp)
  | @join k t result _ hk _ =>
    refine h.quiet [.joined t.id t.current.id result] rfl rfl (by simp) ?_
    exact fun u hu => .inl (List.mem_of_mem_eraseIdx hu)
  | @recv k i m order =>
    exact h.quiet [.received i m] rfl rfl (by simp) fun u hu => .inl hu
  | @depsMet step todo n hm _ =>
    refine h.quiet [.spawned step.id s.totalSpawned] rfl rfl (by simp) ?_
    intro u hu
    obtain hu | hu := List.mem_append.mp hu
    · exact .inl hu
    · rw [List.mem_singleton.mp hu]
      exact .inr rfl
  | abort =>
    refine h.quiet [] rfl (List.append_nil _).symm (by simp) ?_
    exact fun u hu => .inl (List.mem_of_mem_eraseIdx hu)
  | cancel | seeCancel | scanDone | scanFull | scanSkip | scanCheck | checkDep | depsUnmet | exit
  | loop | stop =>
    exact h.quiet [] rfl (List.append_nil _).symm (by simp) fun u hu => .inl hu

theorem valued_start : Valued vars env steps input (start env input) := by
  have hlookup : ∀ k v, ((∅ : Outputs).insert "input" input).lookup k = some v →
      k = "input" ∧ v = input := by
    intro k v hv
    by_cases hk : k = "input"
    · subst hk
      rw [AList.lookup_insert] at hv
      exact ⟨rfl, (Option.some.inj hv).symm⟩
    · rw [AList.lookup_insert_ne hk] at hv
      cases hv
  unfold start
  split
  · refine ⟨?_, ?_, by simp [State.fresh, State.spawn], ?_⟩
    · exact (congrArg Option.isSome (AList.lookup_insert (∅ : Outputs))).trans rfl
    · intro k _ v hv
      obtain ⟨rfl, rfl⟩ := hlookup k v hv
      exact .input
    · intro t ht _
      rw [List.mem_singleton.mp ht]
      trivial
  · refine ⟨?_, ?_, by simp [State.fresh], by simp [State.fresh]⟩
    · exact (congrArg Option.isSome (AList.lookup_insert (∅ : Outputs))).trans rfl
    · intro k _ v hv
      obtain ⟨rfl, rfl⟩ := hlookup k v hv
      exact .input

/-- In such a run every step records the value that the data flow gives it. -/
theorem valued_of_reaches (hup : Upstream vars env.workflow x steps)
    (ok : State → Choice env.Answer → Prop)
    (hok : ∀ s c, ok s c → ReadsSettled vars steps env s c)
    (h : ReachesBy (Trans env) ok (InitialWith env input) s) : Valued vars env steps input s := by
  refine h.invariant ?_ (fun s c s' hr hi hc hs => hi.step hup ?_ (hok s c hc) hs)
  · rintro s ⟨-, rfl⟩
    exact valued_start
  · exact Reachable.residence (initial_of_with hr).reaches

end Preserved

end Konf.Executor
