import Konf.Parser.Compiled
import Konf.Executor.ParsedRun
import Konf.Executor.Residence

/-! # Dependencies before dependents

When a step begins, its dependencies should have completed. The main loop asks `can_run` before it
spawns a step; a task that moves on by itself, and the start of the run, do not ask. The result is
therefore about the runs in which each such move goes to a step that could run. -/

namespace Konf.Executor
open Konf.Substrate Konf.Parser Konf.Transition
set_option autoImplicit false

/-- The step's own output or error has been recorded. -/
def Recorded (trace : List Event) (x : StepId) : Prop :=
  (∃ v, Event.output x v ∈ trace) ∨ ∃ msg, Event.errored x msg ∈ trace

/-- Whenever `execute_step` of a step began, each of its dependencies had been recorded. -/
def DepsFirst (w : Workflow) (trace : List Event) : Prop :=
  ∀ pre post x i v, trace = pre ++ .began x i v :: post → ∀ step, w.getStep x = some step →
    ∀ d ∈ step.dependsOn, Recorded pre d

def Event.records (x : StepId) : Event → Bool
  | .output y _ | .errored y _ => y == x
  | _ => false

theorem recorded_iff {trace : List Event} {x : StepId} :
    Recorded trace x ↔ trace.any (Event.records x) = true := by
  rw [List.any_eq_true]
  constructor
  · rintro (⟨v, hv⟩ | ⟨msg, hmsg⟩)
    · exact ⟨_, hv, beq_self_eq_true x⟩
    · exact ⟨_, hmsg, beq_self_eq_true x⟩
  · rintro ⟨e, he, hrec⟩
    cases e with
    | output y v =>
      obtain rfl := beq_iff_eq.mp hrec
      exact .inl ⟨v, he⟩
    | errored y msg =>
      obtain rfl := beq_iff_eq.mp hrec
      exact .inr ⟨msg, he⟩
    | _ => cases hrec

instance (trace : List Event) (x : StepId) : Decidable (Recorded trace x) :=
  decidable_of_iff _ recorded_iff.symm

theorem Recorded.append {trace : List Event} {x : StepId} (h : Recorded trace x)
    (more : List Event) : Recorded (trace ++ more) x :=
  h.imp (fun ⟨v, hv⟩ => ⟨v, List.mem_append_left _ hv⟩)
    (fun ⟨msg, hmsg⟩ => ⟨msg, List.mem_append_left _ hmsg⟩)

/-- An event of a trace is its last one or comes before it. -/
theorem split_last {trace pre post : List Event} {e e' : Event}
    (h : trace ++ [e] = pre ++ e' :: post) :
    (trace = pre ∧ e = e') ∨ ∃ post', trace = pre ++ e' :: post' := by
  obtain rfl | ⟨post', last, rfl⟩ := List.eq_nil_or_concat post
  · obtain ⟨rfl, hlast⟩ := List.append_inj' h rfl
    exact .inl ⟨rfl, (List.cons.inj hlast).1⟩
  · have hsplit : trace ++ [e] = (pre ++ e' :: post') ++ [last] := by
      rw [h, List.concat_eq_append, List.append_assoc, List.cons_append]
    exact .inr ⟨post', (List.append_inj' hsplit rfl).1⟩

/-! ## Completed dependencies -/

theorem all_completed {step : Step} {n : ℕ} {p : StepId → Bool} (hjoin : step.join = .all)
    (hrun : canRunWith step n = true) (hn : n ≤ step.dependsOn.countP p) :
    ∀ d ∈ step.dependsOn, p d = true := by
  rw [← List.countP_eq_length]
  have hle := List.countP_le_length (p := p) (l := step.dependsOn)
  unfold canRunWith at hrun
  split_ifs at hrun with hempty
  · rw [List.isEmpty_iff.mp hempty]
    rfl
  · rw [hjoin, beq_iff_eq] at hrun
    omega

/-- No dependency is called `input` or like the loop variable of a repeated step. -/
def ClashFree (w : Workflow) : Prop :=
  ∀ step ∈ w.steps, ∀ d ∈ step.dependsOn, d ≠ "input" ∧
    ∀ other ∈ w.steps, other.repeat_.bind RepeatConfig.asVar ≠ some d

instance (w : Workflow) : Decidable (ClashFree w) :=
  inferInstanceAs (Decidable (∀ step ∈ w.steps, ∀ d ∈ step.dependsOn, d ≠ "input" ∧
    ∀ other ∈ w.steps, other.repeat_.bind RepeatConfig.asVar ≠ some d))

/-- What counts as completed has been recorded, names apart that stand for something else, and the
loop of `can_run` has counted completed dependencies only. -/
structure Completion (env : ExecutorEnv) (s : State) : Prop where
  outputs : ∀ x, (s.outputs.lookup x).isSome = true → Recorded s.trace x ∨ x = "input" ∨
    ∃ step ∈ env.workflow.steps, step.repeat_.bind RepeatConfig.asVar = some x
  errors : ∀ x, (s.errors.lookup x).isSome = true → Recorded s.trace x
  checking : ∀ step deps n todo, s.main = .checkDeps step deps n todo →
    ∃ seen, step.dependsOn = seen ++ deps ∧ n ≤ seen.countP s.isCompleted

section CompletionSteps
variable {env : ExecutorEnv} {s : State}

theorem Completion.recorded (h : Completion env s) {d : StepId} (hinput : d ≠ "input")
    (hvar : ∀ other ∈ env.workflow.steps, other.repeat_.bind RepeatConfig.asVar ≠ some d)
    (hdone : s.isCompleted d = true) : Recorded s.trace d := by
  rw [State.isCompleted, Bool.or_eq_true] at hdone
  cases hdone with
  | inl hout =>
    obtain hrec | heq | ⟨other, hother, hrep⟩ := h.outputs d hout
    · exact hrec
    · exact absurd heq hinput
    · exact absurd hrep (hvar other hother)
  | inr herr => exact h.errors d herr

theorem Task.Move.began_pc {t t' : Task} {x : StepId} {i v : ℕ}
    (h : Task.Move env s t t' (some (.began x i v))) : x = t.current.id := by
  cases h with
  | enter hpc => rfl

theorem Task.Move.bound_pc {t t' : Task} {var : String} {v : Json}
    (h : Task.Move env s t t' (some (.bound var v))) : t.pc = .setVar var := by
  cases h with
  | setVar hpc => exact hpc

/-- A new key of the outputs is a step's own output or a repeat variable. -/
theorem Event.onOutputs_new {e : Event} {o : Outputs} {x : String}
    (h : ((e.onOutputs o).lookup x).isSome = true) :
    (o.lookup x).isSome = true ∨ (∃ v, e = .bound x v) ∨ ∃ v, e = .output x v := by
  cases e with
  | bound k v =>
    by_cases hx : x = k
    · exact .inr (.inl ⟨v, by rw [hx]⟩)
    · rw [Event.onOutputs, AList.lookup_insert_ne hx] at h
      exact .inl h
  | output k v =>
    by_cases hx : x = k
    · exact .inr (.inr ⟨v, by rw [hx]⟩)
    · rw [Event.onOutputs, AList.lookup_insert_ne hx] at h
      exact .inl h
  | _ => exact .inl h

theorem Event.onErrors_new {e : Event} {m : StrMap String} {x : String}
    (h : ((e.onErrors m).lookup x).isSome = true) :
    (m.lookup x).isSome = true ∨ ∃ msg, e = .errored x msg := by
  cases e with
  | errored k msg =>
    by_cases hx : x = k
    · exact .inr ⟨msg, by rw [hx]⟩
    · rw [Event.onErrors, AList.lookup_insert_ne hx] at h
      exact .inl h
  | _ => exact .inl h

theorem Completion.task (h : Completion env s) (hres : Residence env s) {k : ℕ} {t t' : Task}
    {e : Option Event} (hk : s.tasks[k]? = some t) (hmove : Task.Move env s t t' e) :
    Completion env (s.move k t' e) := by
  have ht := List.mem_of_getElem? hk
  refine ⟨?_, ?_, ?_⟩
  · intro x hx
    rw [State.move_trace]
    cases e with
    | none => exact (h.outputs x hx).imp (fun hr => hr.append _) id
    | some e =>
      obtain hold | ⟨v, rfl⟩ | ⟨v, rfl⟩ := Event.onOutputs_new hx
      · exact (h.outputs x hold).imp (fun hr => hr.append _) id
      · have hvar := hres.setVar t ht x hmove.bound_pc
        exact .inr (.inr ⟨t.current, Workflow.getStep_mem (hres.current t ht), hvar⟩)
      · exact .inl (.inl ⟨v, List.mem_append_right _ (List.mem_singleton_self _)⟩)
  · intro x hx
    rw [State.move_trace]
    cases e with
    | none => exact (h.errors x hx).append _
    | some e =>
      obtain hold | ⟨msg, rfl⟩ := Event.onErrors_new hx
      · exact (h.errors x hold).append _
      · exact .inr ⟨msg, List.mem_append_right _ (List.mem_singleton_self _)⟩
  · intro step deps n todo hm
    rw [State.move_main] at hm
    obtain ⟨seen, hsplit, hn⟩ := h.checking step deps n todo hm
    refine ⟨seen, hsplit, Nat.le_trans hn (List.countP_mono_left ?_)⟩
    intro d _ hd
    exact s.isCompleted_move k t' e hd

theorem Completion.quiet (h : Completion env s) {s' : State} (hout : s'.outputs = s.outputs)
    (herr : s'.errors = s.errors) {more : List Event} (htrace : s'.trace = s.trace ++ more)
    (hcheck : ∀ step deps n todo, s'.main = .checkDeps step deps n todo →
      ∃ seen, step.dependsOn = seen ++ deps ∧ n ≤ seen.countP s.isCompleted) :
    Completion env s' := by
  have hcompl : s'.isCompleted = s.isCompleted := by
    funext x
    rw [State.isCompleted, State.isCompleted, hout, herr]
  refine ⟨?_, ?_, ?_⟩
  · intro x hx
    rw [hout] at hx
    rw [htrace]
    exact (h.outputs x hx).imp (fun hr => hr.append _) id
  · intro x hx
    rw [herr] at hx
    rw [htrace]
    exact (h.errors x hx).append _
  · rw [hcompl]
    exact hcheck

theorem Completion.step {s' : State} {c : Choice env.Answer} (h : Completion env s)
    (hres : Residence env s) (hs : Trans env s c s') : Completion env s' := by
  have hmain : ∀ pc : MainPc, (∀ step deps n todo, pc = .checkDeps step deps n todo →
      ∃ seen, step.dependsOn = seen ++ deps ∧ n ≤ seen.countP s.isCompleted) →
      Completion env { s with main := pc } := fun pc hpc =>
    h.quiet rfl rfl (List.append_nil _).symm hpc
  cases hs with
  | cancel => exact ⟨h.outputs, h.errors, h.checking⟩
  | task hk hn => exact h.task hres hk (Task.next_move hn)
  | answer a hk hpc => exact h.task hres hk (.answer a hpc)
  | join _ hk hpc =>
    refine h.quiet rfl rfl rfl ?_
    intro step deps n todo hpc
    exact absurd hpc (State.join_main_ne (by simp) (by simp))
  | @recv k i m order _ _ _ _ =>
    refine h.quiet rfl rfl rfl ?_
    intro step deps n todo hpc
    obtain ⟨todo', hscan⟩ := s.receive_main k i m order
    cases hscan.symm.trans hpc
  | scanCheck _ _ _ _ =>
    refine hmain _ ?_
    intro step deps n todo hpc
    cases hpc
    exact ⟨[], rfl, Nat.zero_le _⟩
  | @checkDep step d deps todo n hm =>
    refine hmain _ ?_
    intro step deps n todo hpc
    cases hpc
    obtain ⟨seen, hsplit, hn⟩ := h.checking _ _ _ _ hm
    refine ⟨seen ++ [d], by rw [hsplit, List.append_assoc]; rfl, ?_⟩
    rw [List.countP_append, List.countP_singleton]
    split_ifs
    · omega
    · omega
  | depsMet _ _ => exact h.quiet rfl rfl rfl (by simp)
  | abort hm _ =>
    refine h.quiet rfl rfl (List.append_nil _).symm ?_
    intro step deps n todo hpc
    rw [hm] at hpc
    cases hpc
  | seeCancel | scanDone | scanFull | scanSkip | depsUnmet | exit | loop | stop =>
    exact hmain _ (by simp)

theorem completion_start (env : ExecutorEnv) (input : Json) : Completion env (start env input) := by
  have hinput : ∀ x, (((∅ : Outputs).insert "input" input).lookup x).isSome = true →
      x = "input" := by
    intro x hx
    by_contra hne
    rw [AList.lookup_insert_ne hne] at hx
    cases hx
  unfold start
  split
  · exact ⟨fun x hx => .inr (.inl (hinput x hx)), by simp [State.fresh, State.spawn],
      by simp [State.fresh, State.spawn]⟩
  · exact ⟨fun x hx => .inr (.inl (hinput x hx)), by simp [State.fresh], by simp [State.fresh]⟩

theorem Reachable.completion (h : Reachable env s) : Completion env s := by
  refine Reaches.invariant ?_ (fun s c s' hr hi hs => hi.step (Reachable.residence hr) hs) h
  rintro s ⟨-, input, rfl⟩
  exact completion_start env input

/-- When `can_run` has let a step through, its dependencies have been recorded. -/
theorem Completion.deps_recorded (h : Completion env s) {step : Step} {todo : List StepId} {n : ℕ}
    (hjoin : step.join = .all) (hm : s.main = .checkDeps step [] n todo)
    (hrun : canRunWith step n = true) {d : StepId} (hd : d ∈ step.dependsOn) (hinput : d ≠ "input")
    (hvar : ∀ other ∈ env.workflow.steps, other.repeat_.bind RepeatConfig.asVar ≠ some d) :
    Recorded s.trace d := by
  obtain ⟨seen, hsplit, hn⟩ := h.checking _ _ _ _ hm
  rw [List.append_nil] at hsplit
  rw [← hsplit] at hn
  exact h.recorded hinput hvar (all_completed hjoin hrun hn d hd)

end CompletionSteps

/-! ## Steps that await others -/

/-- Whenever a step began, all that it waits for had been recorded. -/
def BeginsAfter (waits : StepId → List StepId) (trace : List Event) : Prop :=
  ∀ pre post x i v, trace = pre ++ .began x i v :: post → ∀ d ∈ waits x, Recorded pre d

structure Awaited (waits : StepId → List StepId) (s : State) : Prop where
  ready : ∀ t ∈ s.tasks, ∀ d ∈ waits t.current.id, Recorded s.trace d
  after : BeginsAfter waits s.trace

/-- The step that the main loop is about to spawn. -/
def spawnedBy {Answer : Type} (s : State) : Choice Answer → Option Step
  | .main => match s.main with
    | .checkDeps step [] n _ => if canRunWith step n then some step else none
    | _ => none
  | _ => none

def Event.continuedStep : Event → Option StepId
  | .continued x _ _ => some x
  | _ => none

section Waits
variable {waits : StepId → List StepId} {env : ExecutorEnv} {s s' : State} {c : Choice env.Answer}

theorem BeginsAfter.append {trace : List Event} (h : BeginsAfter waits trace) (e : Event)
    (he : ∀ x i v, e = .began x i v → ∀ d ∈ waits x, Recorded trace d) :
    BeginsAfter waits (trace ++ [e]) := by
  intro pre post x i v heq
  obtain ⟨rfl, hlast⟩ | ⟨post', hsplit⟩ := split_last heq
  · exact he x i v hlast
  · exact h pre post' x i v hsplit

theorem Awaited.task (h : Awaited waits s) {k : ℕ} {t t' : Task} {e : Option Event}
    (hk : s.tasks[k]? = some t) (hmove : Task.Move env s t t' e)
    (hnext : ∀ i v, e = some (.continued t'.current.id i v) →
      ∀ d ∈ waits t'.current.id, Recorded s.trace d) : Awaited waits (s.move k t' e) := by
  have ht := h.ready t (List.mem_of_getElem? hk)
  refine ⟨?_, ?_⟩
  · intro u hu d hd
    rw [State.move_trace]
    rw [State.move_tasks] at hu
    refine Recorded.append ?_ _
    obtain hu | rfl := List.mem_or_eq_of_mem_set hu
    · exact h.ready u hu d hd
    · obtain hsame | ⟨-, he⟩ := hmove.current
      · rw [hsame] at hd
        exact ht d hd
      · exact hnext _ _ he d hd
  · rw [State.move_trace]
    cases e with
    | none => simpa using h.after
    | some e =>
      refine h.after.append e ?_
      rintro x i v rfl
      rw [hmove.began_pc]
      exact ht

theorem Awaited.quiet (h : Awaited waits s) (htasks : s'.tasks.Sublist s.tasks) {more : List Event}
    (htrace : s'.trace = s.trace ++ more) (hmore : ∀ x i v, Event.began x i v ∉ more)
    (hlen : more.length ≤ 1) : Awaited waits s' := by
  refine ⟨?_, ?_⟩
  · intro t ht d hd
    rw [htrace]
    exact (h.ready t (htasks.subset ht) d hd).append _
  · rw [htrace]
    match more, hlen with
    | [], _ => simpa using h.after
    | [e], _ =>
      refine h.after.append e ?_
      rintro x i v rfl
      exact absurd (List.mem_singleton_self _) (hmore x i v)

theorem Awaited.spawn (h : Awaited waits s) {step : Step}
    (hstep : ∀ d ∈ waits step.id, Recorded s.trace d) (pc : MainPc) :
    Awaited waits { s.spawn step with main := pc } := by
  refine ⟨?_, ?_⟩
  · intro t ht d hd
    refine Recorded.append ?_ _
    cases List.mem_append.mp ht with
    | inl ht => exact h.ready t ht d hd
    | inr ht =>
      rw [List.mem_singleton.mp ht] at hd
      exact hstep d hd
  · refine h.after.append _ ?_
    intro x i v he
    cases he

/-- A step arrives at what it waits for when it is handed over to, by a task that moves on or by the
main loop. -/
theorem Awaited.step (h : Awaited waits s) (hs : Trans env s c s')
    (hspawn : ∀ step ∈ spawnedBy s c, ∀ d ∈ waits step.id, Recorded s.trace d)
    (hcontinue : ∀ e ∈ emitted env s c, ∀ x ∈ e.continuedStep, ∀ d ∈ waits x, Recorded s.trace d) :
    Awaited waits s' := by
  cases hs with
  | @task k t t' e hk hn =>
    refine h.task hk (Task.next_move hn) ?_
    rintro i v rfl
    exact hcontinue _ (emitted_task hk hn) _ rfl
  | answer a hk hpc => exact h.task hk (.answer a hpc) (by simp)
  | join _ hk hpc => exact h.quiet (List.eraseIdx_sublist _ _) rfl (by simp) (by simp)
  | recv _ _ _ _ => exact h.quiet (List.Sublist.refl _) rfl (by simp) (by simp)
  | @depsMet step todo n hm hrun =>
    refine h.spawn (hspawn step ?_) _
    simp only [spawnedBy, hm, hrun, if_true, Option.mem_def]
  | abort hm _ =>
    exact h.quiet (List.eraseIdx_sublist _ _) (List.append_nil _).symm (by simp) (by simp)
  | cancel | seeCancel | scanDone | scanFull | scanSkip | scanCheck | checkDep | depsUnmet | exit
  | loop | stop =>
    exact h.quiet (List.Sublist.refl _) (List.append_nil _).symm (by simp) (by simp)

theorem awaited_start (env : ExecutorEnv) (input : Json) (hentry : waits env.workflow.entry = []) :
    Awaited waits (start env input) := by
  have hnone : BeginsAfter waits [] := by
    intro pre post x i v heq
    simp at heq
  unfold start
  split
  · rename_i entry hget
    refine ⟨?_, hnone.append _ (by simp)⟩
    intro t ht d hd
    rw [List.mem_singleton.mp ht] at hd
    change d ∈ waits entry.id at hd
    rw [Workflow.getStep_id hget, hentry] at hd
    cases hd
  · exact ⟨by simp [State.fresh], hnone⟩

/-- What is about to be spawned has been let through by `can_run`. -/
theorem spawnedBy_eq {step : Step} (h : step ∈ spawnedBy s c) :
    ∃ n todo, s.main = .checkDeps step [] n todo ∧ canRunWith step n = true := by
  cases c with
  | main =>
    unfold spawnedBy at h
    simp only at h
    split at h
    · rename_i step' n todo hm
      split_ifs at h with hrun
      · cases h
        exact ⟨n, todo, hm, hrun⟩
      · cases h
    · cases h
  | _ => cases h

end Waits

/-! ## Dependencies first -/

def depsOf (w : Workflow) (x : StepId) : List StepId :=
  ((w.getStep x).map Step.dependsOn).getD []

theorem depsOf_eq {w : Workflow} {x : StepId} {step : Step} (h : w.getStep x = some step) :
    depsOf w x = step.dependsOn := by
  rw [depsOf, h]
  rfl

theorem depsFirst_iff {w : Workflow} {trace : List Event} :
    DepsFirst w trace ↔ BeginsAfter (depsOf w) trace := by
  constructor
  · intro h pre post x i v heq d hd
    cases hget : w.getStep x with
    | none =>
      rw [depsOf, hget] at hd
      cases hd
    | some step =>
      rw [depsOf_eq hget] at hd
      exact h pre post x i v heq step hget d hd
  · intro h pre post x i v heq step hget d hd
    rw [← depsOf_eq hget] at hd
    exact h pre post x i v heq d hd

def Event.continuesReady (env : ExecutorEnv) (s : State) : Event → Bool
  | .continued x _ _ => (env.workflow.getStep x).all s.canRun
  | _ => true

/-- A task moves on by itself only to a step that could run. -/
def ContinuesReady (env : ExecutorEnv) (s : State) (c : Choice env.Answer) : Prop :=
  ∀ e ∈ emitted env s c, e.continuesReady env s = true

instance (env : ExecutorEnv) (s : State) (c : Choice env.Answer) :
    Decidable (ContinuesReady env s c) :=
  inferInstanceAs (Decidable (∀ e ∈ emitted env s c, e.continuesReady env s = true))

structure DepInv (env : ExecutorEnv) (s : State) : Prop where
  deps : ∀ t ∈ s.tasks, ∀ d ∈ t.current.dependsOn, Recorded s.trace d
  outputs : ∀ x, (s.outputs.lookup x).isSome = true → Recorded s.trace x ∨ x = "input" ∨
    ∃ step ∈ env.workflow.steps, step.repeat_.bind RepeatConfig.asVar = some x
  errors : ∀ x, (s.errors.lookup x).isSome = true → Recorded s.trace x
  checking : ∀ step deps n todo, s.main = .checkDeps step deps n todo →
    ∃ seen, step.dependsOn = seen ++ deps ∧ n ≤ seen.countP s.isCompleted
  first : DepsFirst env.workflow s.trace

section Steps
variable {env : ExecutorEnv} {s : State}

theorem DepInv.completion (h : DepInv env s) : Completion env s := ⟨h.outputs, h.errors, h.checking⟩

theorem DepInv.awaited (h : DepInv env s) (hres : Residence env s) :
    Awaited (depsOf env.workflow) s := by
  refine ⟨?_, depsFirst_iff.mp h.first⟩
  intro t ht d hd
  rw [depsOf_eq (hres.current t ht)] at hd
  exact h.deps t ht d hd

theorem DepInv.of_awaited (hres : Residence env s) (hcomp : Completion env s)
    (h : Awaited (depsOf env.workflow) s) : DepInv env s := by
  refine ⟨?_, hcomp.outputs, hcomp.errors, hcomp.checking, depsFirst_iff.mpr h.after⟩
  intro t ht d hd
  rw [← depsOf_eq (hres.current t ht)] at hd
  exact h.ready t ht d hd

theorem DepInv.step {s' : State} {c : Choice env.Answer} (h : DepInv env s)
    (hres : Residence env s) (hjoin : ∀ step ∈ env.workflow.steps, step.join = .all)
    (hclash : ClashFree env.workflow) (hok : ContinuesReady env s c) (hs : Trans env s c s') :
    DepInv env s' := by
  refine .of_awaited (hres.step hs) (h.completion.step hres hs) ((h.awaited hres).step hs ?_ ?_)
  · intro step hstep d hd
    obtain ⟨n, todo, hm, hrun⟩ := spawnedBy_eq hstep
    have hget := (hres.checking _ _ _ _ hm).1
    have hmem := Workflow.getStep_mem hget
    rw [depsOf_eq hget] at hd
    obtain ⟨hinput, hvar⟩ := hclash step hmem d hd
    exact h.completion.deps_recorded (hjoin step hmem) hm hrun hd hinput hvar
  · intro e he x hx d hd
    have hready := hok e he
    cases e with
    | continued y i v =>
      cases hx
      cases hget : env.workflow.getStep x with
      | none =>
        rw [depsOf, hget] at hd
        cases hd
      | some step =>
        have hmem := Workflow.getStep_mem hget
        have hrun : s.canRun step = true := by
          rw [Event.continuesReady, hget] at hready
          exact hready
        rw [depsOf_eq hget] at hd
        obtain ⟨hinput, hvar⟩ := hclash step hmem d hd
        exact h.completion.recorded hinput hvar
          (all_completed (hjoin step hmem) hrun (Nat.le_refl _) d hd)
    | _ => cases hx

theorem depInv_start (env : ExecutorEnv) (input : Json)
    (hentry : ∀ entry, env.workflow.getStep env.workflow.entry = some entry →
      entry.dependsOn = []) : DepInv env (start env input) := by
  refine .of_awaited (residence_start env input) (completion_start env input)
    (awaited_start env input ?_)
  unfold depsOf
  cases hget : env.workflow.getStep env.workflow.entry with
  | none => rfl
  | some entry => exact hentry entry hget

end Steps

/-- In every run of a parsed workflow whose entry waits for nothing and whose names do not clash,
in which tasks move on by themselves only to steps that could run, every step begins after its
dependencies were recorded. -/
theorem deps_recorded_first {lib : Externals} {config : EngineConfig} {schema : WorkflowSchema}
    (env : ExecutorEnv) (hparse : parse lib config schema = .ok env.workflow)
    (hentry : ∀ entry, env.workflow.getStep env.workflow.entry = some entry →
      entry.dependsOn = [])
    (hclash : ClashFree env.workflow) (s : State)
    (h : ReachesBy (Trans env) (ContinuesReady env) (Initial env) s) :
    DepsFirst env.workflow s.trace := by
  have hjoin : ∀ step ∈ env.workflow.steps, step.join = .all := by
    intro step hstep
    obtain ⟨node, -, hc⟩ := step_compiled hparse hstep
    exact hc.join
  have hinv : DepInv env s := by
    refine h.invariant ?_ ?_
    · rintro s ⟨-, input, rfl⟩
      exact depInv_start env input hentry
    · intro s c s' hr hi hok hs
      exact hi.step (Reachable.residence hr.reaches) hjoin hclash hok hs
  exact hinv.first

/-! ## A step that does not wait -/

/-- `a` starts `b` and `c`; `b` goes on to `d`, which reads the output of `c`. -/
def forkSchema : WorkflowSchema where
  workflow := "fork"
  nodes := StrMap.ofList
    [("a", { then_ := some (.multiple ["b", "c"]) }),
      ("b", { then_ := some (.unconditional "d") }),
      ("c", {}),
      ("d", { with_ := some (.obj [("y", .str "\x7b\x7bc.y\x7d\x7d")]),
              return_ := some (.str "done") })]
    (by decide)

/-- `a` runs and both of its successors are spawned. -/
def forkStart : List (Choice StepAnswer) :=
  [.task 0, .task 0, .task 0, .answer 0 (answers .null), .task 0, .task 0, .task 0, .task 0,
    .recv 0 ["a"], .main, .main, .main, .main,
    .recv 0 ["a", "b"], .main, .main, .main, .main]

/-- `b` finishes and goes on to `d` while `c` has not begun. -/
def forkScript : List (Choice StepAnswer) :=
  forkStart ++
    ([.task 1, .task 1, .task 1, .answer 1 (answers .null), .task 1, .task 1, .task 1, .task 1] :
      List (Choice StepAnswer))

def forkInOrder : List (Choice StepAnswer) :=
  forkStart ++
    ([.task 2, .task 2, .task 2, .answer 2 (answers (.obj [("y", .null)])), .task 2] :
      List (Choice StepAnswer)) ++
    ([.task 1, .task 1, .task 1, .answer 1 (answers .null), .task 1, .task 1, .task 1, .task 1] :
      List (Choice StepAnswer))

def Event.begins (x : StepId) : Event → Bool
  | .began y _ _ => y == x
  | _ => false

theorem began_last {trace : List Event} {x : StepId}
    (h : trace.getLast?.any (Event.begins x) = true) :
    ∃ i v, trace = trace.dropLast ++ [.began x i v] := by
  obtain ⟨e, he, hbegins⟩ := (Option.any_eq_true ..).mp h
  cases e with
  | began y i v =>
    obtain rfl := beq_iff_eq.mp hbegins
    exact ⟨i, v, (List.dropLast_append_getLast? _ he).symm⟩
  | _ => cases hbegins

/-- A run of a parsed workflow in which a step begins while its dependency has not completed. -/
theorem fork_deps_not_first : ∃ w s,
    parse plainExternals EngineConfig.default forkSchema = .ok w ∧
      Reachable (plainEnv EngineConfig.default w) s ∧ ¬DepsFirst w s.trace := by
  have hrun : parsedRun (plainEnv EngineConfig.default) (fun _ _ _ => True) EngineConfig.default
      forkSchema (fun _ => forkScript) (fun w s =>
      s.trace.getLast?.any (Event.begins "d") && !decide (Recorded s.trace.dropLast "c") &&
        (w.getStep "d").any fun step => "c" ∈ step.dependsOn) = true := by
    decide +kernel
  obtain ⟨w, s, hw, hs, hp⟩ := parsedRun_reaches hrun (fun _ => rfl) (by decide)
  rw [Bool.and_eq_true, Bool.and_eq_true] at hp
  obtain ⟨⟨hlast, hrec⟩, hstep⟩ := hp
  refine ⟨w, s, hw, hs, fun hfirst => ?_⟩
  obtain ⟨step, hget, hdep⟩ := (Option.any_eq_true ..).mp hstep
  obtain ⟨i, v, hsplit⟩ := began_last hlast
  have hdone := hfirst _ _ _ _ _ hsplit step hget "c" (of_decide_eq_true hdep)
  simp [hdone] at hrec

/-- With `c` first, every step of the same workflow begins after its dependencies. -/
theorem fork_in_order_deps_first : ∃ w s,
    parse plainExternals EngineConfig.default forkSchema = .ok w ∧
      ReachesBy (Trans (plainEnv EngineConfig.default w)) (ContinuesReady _)
        (Initial (plainEnv EngineConfig.default w)) s ∧
      s.trace.any (Event.begins "d") = true ∧ DepsFirst w s.trace := by
  have hrun : parsedRun (plainEnv EngineConfig.default) ContinuesReady EngineConfig.default
      forkSchema (fun _ => forkInOrder) (fun w s =>
      s.trace.any (Event.begins "d") && decide (ClashFree w) &&
        (w.getStep w.entry).all fun entry => entry.dependsOn.isEmpty) = true := by
    decide +kernel
  obtain ⟨w, s, hw, hs, hp⟩ := parsedRun_reaches hrun (fun _ => rfl) (by decide)
  rw [Bool.and_eq_true, Bool.and_eq_true] at hp
  obtain ⟨⟨hbegins, hclash⟩, hentry⟩ := hp
  refine ⟨w, s, hw, hs, hbegins, ?_⟩
  refine deps_recorded_first (plainEnv EngineConfig.default w) hw ?_ (of_decide_eq_true hclash) s hs
  intro entry hget
  change w.getStep w.entry = some entry at hget
  rw [hget] at hentry
  exact List.isEmpty_iff.mp hentry

end Konf.Executor
