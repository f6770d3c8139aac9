import Konf.Executor.Moves

/-! # Where tasks stand

Facts about every state that several results use: a task's current step is the workflow's step of
that name, a task about to set a variable sets its step's repeat variable, and what is completed
stays completed. -/

namespace Konf.Executor
open Konf.Substrate Konf.Transition
set_option autoImplicit false

/-! ## Completion is stable -/

theorem lookup_insert_isSome {V : Type} (m : StrMap V) (k x : String) (v : V)
    (h : (m.lookup x).isSome = true) : ((m.insert k v).lookup x).isSome = true := by
  by_cases hx : x = k
  · subst hx
    rw [AList.lookup_insert]
    rfl
  · rw [AList.lookup_insert_ne hx]
    exact h

theorem Event.onOutputs_isSome (e : Event) (o : Outputs) (x : String)
    (h : (o.lookup x).isSome = true) : ((e.onOutputs o).lookup x).isSome = true := by
  cases e with
  | bound k v | output k v => exact lookup_insert_isSome o k x v h
  | _ => exact h

theorem Event.onErrors_isSome (e : Event) (m : StrMap String) (x : String)
    (h : (m.lookup x).isSome = true) : ((e.onErrors m).lookup x).isSome = true := by
  cases e with
  | errored k msg => exact lookup_insert_isSome m k x msg h
  | _ => exact h

theorem State.isCompleted_move (s : State) (k : ℕ) (t : Task) (e : Option Event) {x : StepId}
    (h : s.isCompleted x = true) : (s.move k t e).isCompleted x = true := by
  cases e with
  | none => exact h
  | some e =>
    rw [State.isCompleted, Bool.or_eq_true] at h ⊢
    exact h.imp (e.onOutputs_isSome _ x) (e.onErrors_isSome _ x)

/-! ## Current steps -/

structure Residence (env : ExecutorEnv) (s : State) : Prop where
  current : ∀ t ∈ s.tasks, env.workflow.getStep t.current.id = some t.current
  setVar : ∀ t ∈ s.tasks, ∀ var, t.pc = .setVar var →
    t.current.repeat_.bind RepeatConfig.asVar = some var
  checking : ∀ step deps n todo, s.main = .checkDeps step deps n todo →
    env.workflow.getStep step.id = some step ∧ step.id ∉ s.executedNodes

section Steps
variable {env : ExecutorEnv} {s : State}

theorem Task.Move.current {t t' : Task} {e : Option Event} (h : Task.Move env s t t' e) :
    t'.current = t.current ∨
      (env.workflow.getStep t'.current.id = some t'.current ∧
        e = some (.continued t'.current.id t.id (t.visit + 1))) := by
  cases h with
  | follow _ _ hnext _ => exact .inr ⟨hnext, rfl⟩
  | goto _ _ hnext => exact .inr ⟨hnext, rfl⟩
  | @answer seen a _ =>
    refine .inl ?_
    unfold Task.answered
    cases env.executeStep a t.current seen <;> rfl
  | _ => exact .inl rfl

theorem Task.Move.setVar_var {t t' : Task} {e : Option Event} (h : Task.Move env s t t' e)
    {var : String} (hpc : t'.pc = .setVar var) :
    t'.current.repeat_.bind RepeatConfig.asVar = some var := by
  cases h with
  | start _ _ hto =>
    obtain rfl | ⟨v, rfl, hv⟩ := hto
    · cases hpc
    · cases hpc
      exact hv
  | record _ hto => rcases hto with rfl | rfl <;> cases hpc
  | @answer seen a _ =>
    unfold Task.answered at hpc
    cases hres : env.executeStep a t.current seen <;> rw [hres] at hpc <;> cases hpc
  | _ => cases hpc

theorem Residence.task (h : Residence env s) {k : ℕ} {t t' : Task} {e : Option Event}
    (hk : s.tasks[k]? = some t) (hmove : Task.Move env s t t' e) :
    Residence env (s.move k t' e) := by
  refine ⟨?_, ?_, ?_⟩
  · intro u hu
    rw [State.move_tasks] at hu
    obtain hu | rfl := List.mem_or_eq_of_mem_set hu
    · exact h.current u hu
    · obtain heq | ⟨hget, -⟩ := hmove.current
      · rw [heq]
        exact h.current t (List.mem_of_getElem? hk)
      · exact hget
  · intro u hu var hpc
    rw [State.move_tasks] at hu
    obtain hu | rfl := List.mem_or_eq_of_mem_set hu
    · exact h.setVar u hu var hpc
    · exact hmove.setVar_var hpc
  · simpa using h.checking

theorem Residence.spawn (h : Residence env s) {step : Step} {deps todo : List StepId} {n : ℕ}
    (hm : s.main = .checkDeps step deps n todo) :
    Residence env { s.spawn step with main := .scan todo } := by
  refine ⟨?_, ?_, by simp⟩
  · intro u hu
    obtain hu | hu := List.mem_append.mp hu
    · exact h.current u hu
    · rw [List.mem_singleton.mp hu]
      exact (h.checking _ _ _ _ hm).1
  · intro u hu var hpc
    obtain hu | hu := List.mem_append.mp hu
    · exact h.setVar u hu var hpc
    · rw [List.mem_singleton.mp hu] at hpc
      cases hpc

theorem Residence.step {s' : State} {c : Choice env.Answer} (h : Residence env s)
    (hs : Trans env s c s') : Residence env s' := by
  cases hs with
  | cancel => exact ⟨h.current, h.setVar, h.checking⟩
  | task hk hn => exact h.task hk (Task.next_move hn)
  | answer a hk hpc => exact h.task hk (.answer a hpc)
  | join _ hk _ =>
    refine ⟨fun u hu => h.current u (List.mem_of_mem_eraseIdx hu),
      fun u hu => h.setVar u (List.mem_of_mem_eraseIdx hu), ?_⟩
    intro step deps n todo hpc
    exact absurd hpc (State.join_main_ne (by simp) (by simp))
  | @recv k i m order _ _ _ _ =>
    refine ⟨h.current, h.setVar, ?_⟩
    intro step deps n todo hpc
    cases m <;> cases hpc
  | scanCheck _ _ hx hstep =>
    refine ⟨h.current, h.setVar, ?_⟩
    intro step deps n todo hpc
    cases hpc
    have hid := Workflow.getStep_id hstep
    subst hid
    exact ⟨hstep, hx⟩
  | checkDep hm =>
    refine ⟨h.current, h.setVar, ?_⟩
    intro step deps n todo hpc
    cases hpc
    exact h.checking _ _ _ _ hm
  | depsMet hm _ => exact h.spawn hm
  | abort hm _ =>
    refine ⟨fun u hu => h.current u (List.mem_of_mem_eraseIdx hu),
      fun u hu => h.setVar u (List.mem_of_mem_eraseIdx hu), ?_⟩
    intro step deps n todo hpc
    rw [hm] at hpc
    cases hpc
  | seeCancel | scanDone | scanFull | scanSkip | depsUnmet | exit | loop | stop =>
    exact ⟨h.current, h.setVar, by simp⟩

theorem residence_start (env : ExecutorEnv) (input : Json) : Residence env (start env input) := by
  unfold start
  split
  · rename_i entry hentry
    have hid := Workflow.getStep_id hentry
    constructor <;> simp [State.fresh, State.spawn, Task.spawned, hid, hentry]
  · constructor <;> simp [State.fresh]

theorem Reachable.residence (h : Reachable env s) : Residence env s := by
  refine h.invariant ?_ (fun s a s' _ hi hs => hi.step hs)
  rintro s ⟨-, input, rfl⟩
  exact residence_start env input

end Steps

end Konf.Executor
