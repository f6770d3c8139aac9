import Konf.Executor.Activation
import Konf.Executor.Dataflow

/-! # The result of a workflow

`execute` reports the output of whichever task was joined last with an output. In a workflow with
one `return` node the result should be that node's output. The results below are about the runs in
which the node is entered once, its failure is not skipped or caught by another step, and no task
with an output is joined after its task; two of them have the same result where the node and what it
depends on take settled inputs. -/

namespace Konf.Executor
open Konf.Substrate Konf.Parser Konf.Transition
set_option autoImplicit false

/-! ## A return edge comes first -/

theorem thenEdges_priority {t : Option ThenBlock} {e : Edge} (h : e ∈ thenEdges t) :
    0 ≤ e.priority := by
  cases t with
  | none => cases h
  | some t =>
    cases t with
    | unconditional target =>
      rw [List.mem_singleton.mp h]
    | multiple targets =>
      obtain ⟨y, -, rfl⟩ := List.mem_map.mp h
      exact Int.le_refl 0
    | conditional branches =>
      obtain ⟨⟨b, i⟩, -, heq⟩ := List.mem_filterMap.mp h
      obtain ⟨y, -, rfl⟩ := Option.map_eq_some_iff.mp heq
      exact Int.natCast_nonneg i

theorem walkEdges_cons_ret (env : ExecutorEnv) (step : Step) (outputs : Outputs) :
    ∀ (edges : List Edge) (acc targets : List EdgeTarget),
      walkEdges env step outputs edges (.ret :: acc) = .ok targets →
        ∃ rest, targets = .ret :: rest := by
  intro edges
  induction edges with
  | nil =>
    intro acc targets h
    cases h
    exact ⟨acc, rfl⟩
  | cons edge edges ih =>
    intro acc targets h
    unfold walkEdges at h
    split at h
    · exact ih _ _ h
    · split at h
      · cases h
        exact ⟨_, rfl⟩
      · exact ih _ _ h
      · cases h

/-- A step compiled from a `return` node always has the return among its targets, first. -/
theorem return_first {env : ExecutorEnv} {schema : WorkflowSchema} {name : String}
    {node : NodeSchema} {step : Step} (hc : CompiledFrom schema name node step)
    (hret : node.return_.isSome = true) {outputs : Outputs} {targets : List EdgeTarget}
    (h : evaluateEdgesTargets env step outputs = .ok targets) : ∃ rest, targets = .ret :: rest := by
  have hedges : step.edges = ⟨.ret, none, 0⟩ :: thenEdges node.then_ := by
    rw [hc.edges, returnEdges, if_pos hret]
    rfl
  unfold evaluateEdgesTargets at h
  rw [hedges, if_neg (by simp), List.insertionSort_cons] at h
  have hsorted : List.orderedInsert (fun a b : Edge => a.priority ≤ b.priority) ⟨.ret, none, 0⟩
      ((thenEdges node.then_).insertionSort fun a b => a.priority ≤ b.priority) =
      ⟨.ret, none, 0⟩ :: (thenEdges node.then_).insertionSort fun a b => a.priority ≤ b.priority := by
    cases hl : (thenEdges node.then_).insertionSort fun a b => a.priority ≤ b.priority with
    | nil => rfl
    | cons e l =>
      have he : e ∈ thenEdges node.then_ := by
        rw [← List.mem_insertionSort (fun a b : Edge => a.priority ≤ b.priority), hl]
        exact List.mem_cons_self
      rw [List.orderedInsert, if_pos (thenEdges_priority he)]
  rw [hsorted] at h
  exact walkEdges_cons_ret env step outputs _ [] targets h

/-! ## The last output of a step -/

def Event.outputOf (x : StepId) : Event → Option Json
  | .output y v => if y = x then some v else none
  | _ => none

def lastOutput (trace : List Event) (x : StepId) : Option Json :=
  (trace.filterMap (Event.outputOf x)).getLast?

theorem lastOutput_append (trace : List Event) (x : StepId) (e : Event) :
    lastOutput (trace ++ [e]) x = (e.outputOf x).or (lastOutput trace x) := by
  unfold lastOutput
  rw [List.filterMap_append, List.getLast?_append]
  cases he : e.outputOf x <;> simp [he]

/-! ## What the task of the return node carries -/

/-- What the program counter of a task at `x` says about the recorded output: what the task will
return is what was recorded last. -/
def Carries (x : StepId) (trace : List Event) : TaskPc → Prop
  | .checkRepeat val | .chooseNext val => lastOutput trace x = some val
  | .sending _ (.ok res) => ∃ v, res.output = some v ∧ lastOutput trace x = some v
  | _ => True

section Carrying
variable {env : ExecutorEnv} {R : Step} {s : State}

theorem carries_congr {trace trace' : List Event} {x : StepId}
    (hout : lastOutput trace' x = lastOutput trace x) (pc : TaskPc) :
    Carries x trace' pc ↔ Carries x trace pc := by
  cases pc with
  | sending msgs r => cases r <;> simp [Carries, hout]
  | _ => simp [Carries, hout]

theorem last_recorded (trace : List Event) (x : StepId) (v : Json) :
    lastOutput (trace ++ [.output x v]) x = some v := by
  rw [lastOutput_append, Event.outputOf, if_pos rfl]
  rfl

theorem last_other (trace : List Event) {x : StepId} {e : Option Event}
    (he : ∀ ev ∈ e, ev.outputOf x = none) : lastOutput (trace ++ e.toList) x = lastOutput trace x := by
  cases e with
  | none => simp
  | some ev =>
    rw [Option.toList_some, lastOutput_append, he ev rfl]
    rfl

/-- A task away from the step does not record for it. -/
theorem Task.Move.elsewhere {t t' : Task} {e : Option Event} (h : Task.Move env s t t' e)
    {x : StepId} (hx : t.current.id ≠ x) : ∀ ev ∈ e, ev.outputOf x = none := by
  intro ev hev
  cases hev
  cases h <;> simp_all [Event.outputOf]

/-- A move of a task at the return node that keeps its failures: it stays there, and it carries the
output it recorded. -/
theorem Task.Move.carries {t t' : Task} {e : Option Event} (h : Task.Move env s t t' e)
    (hcur : t.current = R)
    (hfirst : ∀ outputs targets, evaluateEdgesTargets env R outputs = .ok targets →
      ∃ rest, targets = .ret :: rest)
    (hkeep : ∀ err, t.pc = .failed err → R.onError ≠ .skip ∧ ∀ x, R.onError ≠ .goto x)
    (hpc : Carries R.id s.trace t.pc) :
    t'.current = R ∧ Carries R.id (s.trace ++ e.toList) t'.pc := by
  subst hcur
  cases h with
  | skip hfail hact => exact absurd hact (hkeep _ hfail).1
  | goto hfail hact => exact absurd hact ((hkeep _ hfail).2 _)
  | fallback => exact ⟨rfl, _, rfl, last_recorded _ _ _⟩
  | start _ _ hto =>
    refine ⟨rfl, ?_⟩
    rcases hto with rfl | ⟨var, rfl, -⟩ <;> exact trivial
  | @answer seen a =>
    unfold Task.answered
    cases env.executeStep a t.current seen with
    | ok val => exact ⟨rfl, trivial⟩
    | error err => exact ⟨rfl, trivial⟩
  | @record val pc _ hto =>
    refine ⟨rfl, ?_⟩
    rcases hto with rfl | rfl <;> exact last_recorded _ _ _
  | leaveRepeat hrep =>
    rw [hrep] at hpc
    rw [Option.toList_none, List.append_nil]
    exact ⟨rfl, hpc⟩
  | fanOut hnext _ =>
    rw [hnext] at hpc
    rw [Option.toList_none, List.append_nil]
    exact ⟨rfl, _, rfl, hpc⟩
  | follow _ hedges _ _ =>
    obtain ⟨rest, hret⟩ := hfirst _ _ hedges
    cases hret
  | @send m msgs result hsend =>
    rw [hsend] at hpc
    have hother := last_other s.trace (x := t.current.id) (e := some (.sent t.id m))
      (by simp [Event.outputOf])
    refine ⟨rfl, (carries_congr hother _).mpr ?_⟩
    cases result with
    | ok res => exact hpc
    | error err => exact trivial
  | abandon | fail | setVar | enter | read | again => exact ⟨rfl, trivial⟩

theorem Task.Move.not_continued {t t' : Task} {e : Option Event} (h : Task.Move env s t t' e)
    (hcur : t.current = R)
    (hfirst : ∀ outputs targets, evaluateEdgesTargets env R outputs = .ok targets →
      ∃ rest, targets = .ret :: rest)
    (hkeep : ∀ err, t.pc = .failed err → R.onError ≠ .skip ∧ ∀ x, R.onError ≠ .goto x)
    (x : StepId) (i v : ℕ) : e ≠ some (.continued x i v) := by
  intro he
  cases h with
  | follow _ hedges _ _ =>
    rw [hcur] at hedges
    obtain ⟨rest, hret⟩ := hfirst _ _ hedges
    cases hret
  | goto hfail hact _ =>
    rw [hcur] at hact
    exact absurd hact ((hkeep _ hfail).2 _)
  | _ => cases he

end Carrying

/-! ## Runs in which the return node has the last word -/

/-- The failed step is skipped or caught by another step, so that its task reports no output of
it. -/
def ErrorAction.drops : ErrorAction → Bool
  | .skip | .goto _ => true
  | .fail | .fallback _ => false

def TaskPc.isFailed : TaskPc → Bool
  | .failed _ => true
  | _ => false

def TaskPc.holdsOutput : TaskPc → Bool
  | .sending [] (.ok ⟨some _, _⟩) => true
  | _ => false

section Condition
variable {Answer : Type}

/-- The choice makes a task at `x` drop the failure of its step. -/
def dropsFailure (x : StepId) (s : State) : Choice Answer → Bool
  | .task k => (s.tasks[k]?).any fun t =>
    t.current.id == x && t.pc.isFailed && ErrorAction.drops t.current.onError
  | _ => false

/-- The choice joins a task that returned an output. -/
def joinsOutput (s : State) : Choice Answer → Bool
  | .join k => (s.tasks[k]?).any fun t => t.pc.holdsOutput
  | _ => false

end Condition

def Event.joinedOk (x : StepId) : Event → Bool
  | .joined _ y (.ok _) => y == x
  | _ => false

/-- An edge into `x` taken inside a task is the only one taken into it, a failure of `x` is not
dropped, and once the task that ended at `x` is joined no other task with an output is. -/
def ReturnsLast (x : StepId) (env : ExecutorEnv) (s : State) (c : Choice env.Answer) : Prop :=
  (∀ e ∈ emitted env s c, e.target = some x → e.soleEdge env s = true) ∧
    dropsFailure x s c = false ∧
    (joinsOutput s c = true → s.trace.any (Event.joinedOk x) = false)

instance (x : StepId) (env : ExecutorEnv) (s : State) (c : Choice env.Answer) :
    Decidable (ReturnsLast x env s c) :=
  inferInstanceAs (Decidable (
    (∀ e ∈ emitted env s c, e.target = some x → e.soleEdge env s = true) ∧
      dropsFailure x s c = false ∧
      (joinsOutput s c = true → s.trace.any (Event.joinedOk x) = false)))

structure ResultInv (env : ExecutorEnv) (R : Step) (s : State) : Prop where
  carries : ∀ t ∈ s.tasks, t.current.id = R.id → Carries R.id s.trace t.pc
  stays : s.main.Running → ∀ i v, Arrived s.trace R.id i v →
    (∃ t ∈ s.tasks, t.id = i ∧ t.current.id = R.id) ∨ ∃ res, Event.joined i R.id (.ok res) ∈ s.trace
  final : s.main.Running → ∀ i res, Event.joined i R.id (.ok res) ∈ s.trace →
    ∃ v, res.output = some v ∧ lastOutput s.trace R.id = some v ∧ s.finalOutput = v

/-- What is known of a state from other results: one arrival at `R`, and where tasks stand. -/
structure AtReturn (env : ExecutorEnv) (R : Step) (s : State) : Prop where
  ledger : Ledger s
  residence : Residence env s
  arrivals : Arrivals s
  unique : ∀ i v j u, Arrived s.trace R.id i v → Arrived s.trace R.id j u → i = j ∧ v = u
  getStep : env.workflow.getStep R.id = some R

section ResultSteps
variable {env : ExecutorEnv} {R : Step} {s : State}

theorem AtReturn.task_eq (h : AtReturn env R s) {t u : Task} (ht : t ∈ s.tasks) (hu : u ∈ s.tasks)
    (htR : t.current.id = R.id) (huR : u.current.id = R.id) : u = t := by
  have hta := h.arrivals.tasks t ht
  have hua := h.arrivals.tasks u hu
  rw [htR] at hta
  rw [huR] at hua
  exact List.inj_on_of_nodup_map h.ledger.ids hu ht (h.unique _ _ _ _ hua hta).1

theorem AtReturn.current_eq (h : AtReturn env R s) {t : Task} (ht : t ∈ s.tasks)
    (htR : t.current.id = R.id) : t.current = R := by
  have hcur := h.residence.current t ht
  rw [htR, h.getStep] at hcur
  exact (Option.some.inj hcur).symm

theorem AtReturn.not_joined (h : AtReturn env R s) {t : Task} (ht : t ∈ s.tasks)
    (htR : t.current.id = R.id) (i : ℕ) (r : TaskResult) :
    Event.joined i R.id r ∉ s.trace := by
  intro hmem
  obtain ⟨v, hv⟩ := h.arrivals.joined i R.id r hmem
  have hta := h.arrivals.tasks t ht
  rw [htR] at hta
  have hid := (h.unique _ _ _ _ hv hta).1
  exact (h.ledger.joined i R.id r hmem).2 (hid ▸ List.mem_map_of_mem ht)

/-- Transitions that log nothing about `R` and leave the tasks and the final output. -/
theorem ResultInv.quiet (h : ResultInv env R s) {s' : State} {more : List Event}
    (htasks : s'.tasks = s.tasks) (hfinal : s'.finalOutput = s.finalOutput)
    (hrun : s'.main.Running → s.main.Running) (htrace : s'.trace = s.trace ++ more)
    (hlast : lastOutput s'.trace R.id = lastOutput s.trace R.id)
    (hjoin : ∀ i r, Event.joined i R.id r ∉ more)
    (harr : ∀ i v, Arrived s'.trace R.id i v → Arrived s.trace R.id i v) : ResultInv env R s' := by
  refine ⟨?_, ?_, ?_⟩
  · intro t ht htR
    rw [htasks] at ht
    exact (carries_congr hlast t.pc).mpr (h.carries t ht htR)
  · intro hr i v hi
    rw [htasks]
    refine (h.stays (hrun hr) i v (harr i v hi)).imp id ?_
    rintro ⟨res, hres⟩
    rw [htrace]
    exact ⟨res, List.mem_append_left _ hres⟩
  · intro hr i res hmem
    rw [htrace, List.mem_append] at hmem
    obtain ⟨v, hv, hrecorded, hfin⟩ :=
      h.final (hrun hr) i res (hmem.resolve_right (hjoin i (.ok res)))
    exact ⟨v, hv, hlast.trans hrecorded, hfinal.trans hfin⟩

theorem ResultInv.task_at (h : ResultInv env R s) (hat : AtReturn env R s) {k : ℕ} {t t' : Task}
    {e : Option Event} (hk : s.tasks[k]? = some t) (hmove : Task.Move env s t t' e)
    (htR : t.current.id = R.id)
    (hfirst : ∀ outputs targets, evaluateEdgesTargets env R outputs = .ok targets →
      ∃ rest, targets = .ret :: rest)
    (hkeep : ∀ err, t.pc = .failed err → R.onError ≠ .skip ∧ ∀ x, R.onError ≠ .goto x) :
    ResultInv env R (s.move k t' e) := by
  have ht := List.mem_of_getElem? hk
  have hlt : k < s.tasks.length := (List.getElem?_eq_some_iff.mp hk).1
  have ht' : t' ∈ s.tasks.set k t' := List.mem_set hlt t'
  obtain ⟨hcur, hcarry⟩ :=
    hmove.carries (hat.current_eq ht htR) hfirst hkeep (h.carries t ht htR)
  refine ⟨?_, ?_, ?_⟩
  · intro u hu huR
    rw [State.move_trace]
    rw [State.move_tasks] at hu
    obtain rfl | ⟨hu, hne⟩ := (Indexed.mem_set hat.ledger.ids hk).mp hu
    · exact hcarry
    · exact absurd (congrArg Task.id (hat.task_eq ht hu htR huR)) hne
  · intro hrun i v harr
    rw [State.move_main] at hrun
    rw [State.move_trace] at harr
    rw [State.move_tasks]
    refine .inl ⟨t', ht', ?_, by rw [hcur]⟩
    have hta := hat.arrivals.tasks t ht
    rw [htR] at hta
    -- the task stays at `R`, so it emits no arrival of its own
    have hold : Arrived s.trace R.id i v := by
      obtain ⟨hmem, hv⟩ | hmem := harr
      · exact .inl ⟨(List.mem_append.mp hmem).resolve_right (hmove.not_spawned _ _), hv⟩
      · refine .inr ((List.mem_append.mp hmem).resolve_right ?_)
        rw [Option.mem_toList]
        exact hmove.not_continued (hat.current_eq ht htR) hfirst hkeep _ _ _
    rw [hmove.account.1]
    exact (hat.unique _ _ _ _ hta hold).1
  · intro _ i res hmem
    rw [State.move_trace, List.mem_append] at hmem
    exact absurd (hmem.resolve_right (hmove.not_joined _ _ _)) (hat.not_joined ht htR i _)

theorem ResultInv.task_elsewhere (h : ResultInv env R s) (hids : (s.tasks.map Task.id).Nodup)
    {k : ℕ} {t t' : Task} {e : Option Event} (hk : s.tasks[k]? = some t)
    (hmove : Task.Move env s t t' e) (htR : t.current.id ≠ R.id) :
    ResultInv env R (s.move k t' e) := by
  have hlt : k < s.tasks.length := (List.getElem?_eq_some_iff.mp hk).1
  have ht' : t' ∈ s.tasks.set k t' := List.mem_set hlt t'
  have hout := last_other s.trace (hmove.elsewhere htR)
  refine ⟨?_, ?_, ?_⟩
  · intro u hu huR
    rw [State.move_trace, carries_congr hout]
    rw [State.move_tasks] at hu
    obtain rfl | ⟨hu, -⟩ := (Indexed.mem_set hids hk).mp hu
    · obtain ⟨hcur, -, -⟩ | he := hmove.arrival
      · rw [hcur] at huR
        exact absurd huR htR
      · have hpc : u.pc = .loopTop := by
          cases hmove with
          | follow | goto => rfl
          | _ => cases he
        rw [hpc]
        trivial
    · exact h.carries u hu huR
  · intro hrun i v harr
    rw [State.move_main] at hrun
    rw [State.move_trace] at harr ⊢
    rw [State.move_tasks]
    have hcase : Arrived s.trace R.id i v ∨ (t'.id = i ∧ t'.current.id = R.id) := by
      obtain ⟨hmem, hv⟩ | hmem := harr
      · exact .inl (.inl ⟨(List.mem_append.mp hmem).resolve_right (hmove.not_spawned _ _), hv⟩)
      · obtain hmem | hmem := List.mem_append.mp hmem
        · exact .inl (.inr hmem)
        · obtain ⟨hR, hi, -⟩ := hmove.continued_eq (Option.mem_toList.mp hmem)
          exact .inr ⟨hi.symm, hR.symm⟩
    obtain hold | ⟨hi, hR⟩ := hcase
    · obtain ⟨u, hu, hi, hR⟩ | ⟨res, hres⟩ := h.stays hrun i v hold
      · have hne : u.id ≠ t.id := by
          intro heq
          have hut := List.inj_on_of_nodup_map hids hu (List.mem_of_getElem? hk) heq
          exact htR (hut ▸ hR)
        exact .inl ⟨u, (Indexed.mem_set hids hk).mpr (.inr ⟨hu, hne⟩), hi, hR⟩
      · exact .inr ⟨res, List.mem_append_left _ hres⟩
    · exact .inl ⟨t', ht', hi, hR⟩
  · intro hrun i res hmem
    rw [State.move_main] at hrun
    rw [State.move_trace, List.mem_append] at hmem
    rw [State.move_trace, State.move_finalOutput]
    obtain ⟨v, hv, hrecorded, hfin⟩ :=
      h.final hrun i res (hmem.resolve_right (hmove.not_joined _ _ _))
    exact ⟨v, hv, hout.trans hrecorded, hfin⟩

/-- Joining a task adds nothing to what was recorded. -/
theorem last_joined (s : State) (t : Task) (result : TaskResult) :
    lastOutput (s.trace ++ [.joined t.id t.current.id result]) R.id = lastOutput s.trace R.id :=
  last_other s.trace (e := some (.joined t.id t.current.id result)) (by simp [Event.outputOf])

/-- After a join that the loop survives, an arrival at `R` has its task or is joined. -/
theorem ResultInv.join_stays (h : ResultInv env R s) (hat : AtReturn env R s) {k : ℕ} {t : Task}
    {res : NodeExecutionResult} (hm : s.main = .select) (hk : s.tasks[k]? = some t) {i v : ℕ}
    (harr : Arrived (s.join env k t (.ok res)).trace R.id i v) :
    (∃ u ∈ (s.join env k t (.ok res)).tasks, u.id = i ∧ u.current.id = R.id) ∨
      ∃ res', Event.joined i R.id (.ok res') ∈ (s.join env k t (.ok res)).trace := by
  have hrun : s.main.Running := by
    rw [hm]
    trivial
  have hold : Arrived s.trace R.id i v := by
    obtain ⟨hmem, hv⟩ | hmem := harr
    · exact .inl ⟨by simpa [State.join] using hmem, hv⟩
    · exact .inr (by simpa [State.join] using hmem)
  obtain ⟨u, hu, hi, hR⟩ | ⟨res', hres⟩ := h.stays hrun i v hold
  · by_cases hut : u.id = t.id
    · have heq := List.inj_on_of_nodup_map hat.ledger.ids hu (List.mem_of_getElem? hk) hut
      subst heq
      refine .inr ⟨res, List.mem_append_right _ ?_⟩
      rw [hi, hR]
      exact List.mem_singleton_self _
    · exact .inl ⟨u, (Indexed.mem_eraseIdx hat.ledger.ids hk).mpr ⟨hu, hut⟩, hi, hR⟩
  · exact .inr ⟨res', List.mem_append_left _ hres⟩

theorem ResultInv.join_final (h : ResultInv env R s) (hat : AtReturn env R s) {k : ℕ} {t : Task}
    {res' : NodeExecutionResult} (hm : s.main = .select) (hk : s.tasks[k]? = some t)
    (hpc : t.pc = .sending [] (.ok res'))
    (hlast : t.pc.holdsOutput = true → s.trace.any (Event.joinedOk R.id) = false)
    (hr : (s.join env k t (.ok res')).main.Running) {i : ℕ} {res : NodeExecutionResult}
    (hmem : Event.joined i R.id (.ok res) ∈ (s.join env k t (.ok res')).trace) :
    ∃ v, res.output = some v ∧ lastOutput (s.join env k t (.ok res')).trace R.id = some v ∧
      (s.join env k t (.ok res')).finalOutput = v := by
  have ht := List.mem_of_getElem? hk
  have hrun : s.main.Running := by
    rw [hm]
    trivial
  have hout := last_joined (R := R) s t (.ok res')
  have hsteps : ¬env.config.maxSteps < s.stepsCount + res'.steps := by
    intro hlt
    simp only [State.join, joinOutcome, if_pos hlt] at hr
    exact hr
  have hfin : (s.join env k t (.ok res')).finalOutput = res'.output.getD s.finalOutput := by
    simp only [State.join, joinOutcome, if_neg hsteps]
  by_cases htR : t.current.id = R.id
  · have hcarry := h.carries t ht htR
    rw [hpc] at hcarry
    obtain ⟨v, hv, hrecorded⟩ := hcarry
    have hself : res = res' := by
      obtain hmem | hmem := List.mem_append.mp hmem
      · exact absurd hmem (hat.not_joined ht htR i _)
      · obtain ⟨-, -, hres⟩ := Event.joined.inj (List.mem_singleton.mp hmem)
        exact Except.ok.inj hres
    refine ⟨v, hself ▸ hv, hout.trans hrecorded, ?_⟩
    rw [hfin, hv, Option.getD_some]
  · have hold : Event.joined i R.id (.ok res) ∈ s.trace := by
      obtain hmem | hmem := List.mem_append.mp hmem
      · exact hmem
      · obtain ⟨-, hR, -⟩ := Event.joined.inj (List.mem_singleton.mp hmem)
        exact absurd hR.symm htR
    obtain ⟨v, hv, hrecorded, hfinal⟩ := h.final hrun i res hold
    -- a second output after that of `R` is what the condition on the run excludes
    have hnone : res'.output = none := by
      cases hres : res'.output with
      | none => rfl
      | some w =>
        have hholds : t.pc.holdsOutput = true := by
          obtain ⟨o, n⟩ := res'
          cases hres
          rw [hpc]
          rfl
        have hany : s.trace.any (Event.joinedOk R.id) = true :=
          List.any_eq_true.mpr ⟨_, hold, beq_self_eq_true R.id⟩
        rw [hlast hholds] at hany
        cases hany
    refine ⟨v, hv, hout.trans hrecorded, ?_⟩
    rw [hfin, hnone, Option.getD_none, hfinal]

theorem ResultInv.join (h : ResultInv env R s) (hat : AtReturn env R s) {k : ℕ} {t : Task}
    {result : TaskResult} (hm : s.main = .select) (hk : s.tasks[k]? = some t)
    (hpc : t.pc = .sending [] result)
    (hlast : t.pc.holdsOutput = true → s.trace.any (Event.joinedOk R.id) = false) :
    ResultInv env R (s.join env k t result) := by
  have hout := last_joined (R := R) s t result
  refine ⟨?_, ?_, ?_⟩
  · intro u hu huR
    exact (carries_congr hout u.pc).mpr (h.carries u (List.mem_of_mem_eraseIdx hu) huR)
  · intro hr i v harr
    cases result with
    | error err => exact hr.elim
    | ok res => exact h.join_stays hat hm hk harr
  · intro hr i res hmem
    cases result with
    | error err => exact hr.elim
    | ok res' => exact h.join_final hat hm hk hpc hlast hr hmem

theorem ResultInv.spawn (h : ResultInv env R s) {step : Step} {todo : List StepId} {n : ℕ}
    (hm : s.main = .checkDeps step [] n todo) :
    ResultInv env R { s.spawn step with main := .scan todo } := by
  have hrun : s.main.Running := by
    rw [hm]
    trivial
  have hout := last_other s.trace (x := R.id) (e := some (.spawned step.id s.totalSpawned))
    (by simp [Event.outputOf])
  refine ⟨?_, ?_, ?_⟩
  · intro u hu huR
    obtain hu | hu := List.mem_append.mp hu
    · exact (carries_congr hout u.pc).mpr (h.carries u hu huR)
    · rw [List.mem_singleton.mp hu]
      trivial
  · intro _ i v harr
    obtain ⟨hmem, hv⟩ | hmem := harr
    · obtain hmem | hmem := List.mem_append.mp hmem
      · obtain ⟨u, hu, hi, hR⟩ | ⟨res, hres⟩ := h.stays hrun i v (.inl ⟨hmem, hv⟩)
        · exact .inl ⟨u, List.mem_append_left _ hu, hi, hR⟩
        · exact .inr ⟨res, List.mem_append_left _ hres⟩
      · obtain ⟨hR, hi⟩ := Event.spawned.inj (List.mem_singleton.mp hmem)
        exact .inl ⟨Task.spawned s.totalSpawned step,
          List.mem_append_right _ (List.mem_singleton_self _), hi.symm, hR.symm⟩
    · have hold : Event.continued R.id i v ∈ s.trace := by simpa [State.spawn] using hmem
      obtain ⟨u, hu, hi, hR⟩ | ⟨res, hres⟩ := h.stays hrun i v (.inr hold)
      · exact .inl ⟨u, List.mem_append_left _ hu, hi, hR⟩
      · exact .inr ⟨res, List.mem_append_left _ hres⟩
  · intro _ i res hmem
    obtain ⟨v, hv, hrecorded, hfin⟩ := h.final hrun i res (by simpa [State.spawn] using hmem)
    exact ⟨v, hv, hout.trans hrecorded, hfin⟩

theorem ResultInv.step {s' : State} {c : Choice env.Answer} (h : ResultInv env R s)
    (hat : AtReturn env R s)
    (hfirst : ∀ outputs targets, evaluateEdgesTargets env R outputs = .ok targets →
      ∃ rest, targets = .ret :: rest)
    (hok : ReturnsLast R.id env s c) (hs : Trans env s c s') : ResultInv env R s' := by
  obtain ⟨-, hdrops, hlast⟩ := hok
  have hmain : ∀ pc : MainPc, (pc.Running → s.main.Running) → ResultInv env R { s with main := pc } :=
    fun pc hpc => ⟨h.carries, fun hr => h.stays (hpc hr), fun hr => h.final (hpc hr)⟩
  cases hs with
  | cancel => exact ⟨h.carries, h.stays, h.final⟩
  | @task k t t' e hk hn =>
    by_cases htR : t.current.id = R.id
    · refine h.task_at hat hk (Task.next_move hn) htR hfirst ?_
      intro err hfail
      have hcur := hat.current_eq (List.mem_of_getElem? hk) htR
      simp only [dropsFailure, hk, Option.any_some, hcur, hfail, TaskPc.isFailed,
        beq_self_eq_true, Bool.true_and] at hdrops
      refine ⟨?_, ?_⟩
      · intro hact
        rw [hact] at hdrops
        cases hdrops
      · intro x hact
        rw [hact] at hdrops
        cases hdrops
    · exact h.task_elsewhere hat.ledger.ids hk (Task.next_move hn) htR
  | @answer k t seen a hk hpc =>
    by_cases htR : t.current.id = R.id
    · refine h.task_at hat hk (.answer a hpc) htR hfirst ?_
      intro err hfail
      rw [hpc] at hfail
      cases hfail
    · exact h.task_elsewhere hat.ledger.ids hk (.answer a hpc) htR
  | join hm hk hpc =>
    refine h.join hat hm hk hpc (fun hholds => hlast ?_)
    simp only [joinsOutput, hk, Option.any_some, hholds]
  | recv hm hk hfifo horder =>
    refine h.quiet rfl rfl (fun _ => by rw [hm]; trivial) rfl ?_ (by simp) ?_
    · exact last_other s.trace (e := some _) (by simp [Event.outputOf])
    · intro i v harr
      obtain ⟨hmem, hv⟩ | hmem := harr
      · exact .inl ⟨by simpa [State.receive] using hmem, hv⟩
      · exact .inr (by simpa [State.receive] using hmem)
  | depsMet hm _ => exact h.spawn hm
  | abort hm _ =>
    refine ⟨fun u hu => h.carries u (List.mem_of_mem_eraseIdx hu), ?_, ?_⟩
    · intro hr
      rw [hm] at hr
      exact hr.elim
    · intro hr
      rw [hm] at hr
      exact hr.elim
  | scanDone hm | scanFull hm | scanSkip hm | scanCheck hm | checkDep hm | depsUnmet hm | exit hm
  | loop hm => exact hmain _ (by rw [hm]; exact id)
  | seeCancel | stop => exact hmain _ (by simp [MainPc.Running])

theorem resultInv_start (env : ExecutorEnv) (R : Step) (input : Json) :
    ResultInv env R (start env input) := by
  unfold start
  split
  · refine ⟨?_, ?_, by simp [State.fresh, State.spawn]⟩
    · intro u hu _
      rw [List.mem_singleton.mp hu]
      trivial
    · intro _ i v harr
      obtain ⟨hmem, -⟩ | hmem := harr
      · obtain ⟨hR, hi⟩ := Event.spawned.inj (List.mem_singleton.mp hmem)
        exact .inl ⟨_, List.mem_singleton_self _, hi.symm, hR.symm⟩
      · simp [State.fresh, State.spawn] at hmem
  · refine ⟨by simp [State.fresh], fun hr => hr.elim, fun hr => hr.elim⟩

end ResultSteps

/-! ## The result of a run -/

section Runs
variable {env : ExecutorEnv} {s : State}

theorem Reachable.returned_final (h : Reachable env s) {out : Json}
    (hret : s.main = .returned (.ok out)) : s.finalOutput = out := by
  induction h with
  | start h =>
    obtain ⟨-, input, rfl⟩ := h
    unfold start at hret
    split at hret <;> cases hret
  | @tail s s' c _ _ hs ih =>
    cases hs with
    | exit =>
      cases hret
      rfl
    | task | answer =>
      rw [State.move_main] at hret
      rw [State.move_finalOutput]
      exact ih hret
    | join => exact absurd hret (State.join_main_ne (by simp) (by simp))
    | @recv k i m order => cases m <;> cases hret
    | cancel | abort => exact ih hret
    | _ => cases hret

theorem atReturn {R : Step} (hget : env.workflow.getStep R.id = some R)
    (h : ReachesBy (Trans env) (ReturnsLast R.id env) (Initial env) s) : AtReturn env R s := by
  have hreach : Reachable env s := h.reaches
  have hsole : SoleAt env R.id s.trace := by
    clear hreach
    induction h with
    | start h =>
      obtain ⟨-, input, rfl⟩ := h
      exact soleAt_start env R.id input
    | tail _ hok hs ih => exact ih.step hok.1 hs
  refine ⟨hreach.ledger, hreach.residence, hreach.arrivals, ?_, hget⟩
  intro i v j u hi hj
  exact arrival_unique hsole hreach.spawning hi hj

/-- A run that ends well after executing `R` returns what `R` recorded last. -/
theorem returns_last {R : Step} (hget : env.workflow.getStep R.id = some R)
    (hfirst : ∀ outputs targets, evaluateEdgesTargets env R outputs = .ok targets →
      ∃ rest, targets = .ret :: rest)
    (h : ReachesBy (Trans env) (ReturnsLast R.id env) (Initial env) s) {out : Json}
    (hret : s.main = .returned (.ok out)) (hbegan : ∃ i v, Event.began R.id i v ∈ s.trace) :
    lastOutput s.trace R.id = some out := by
  have hreach : Reachable env s := h.reaches
  have hinv : ResultInv env R s := by
    refine h.invariant ?_ (fun s c s' hr hi hok hs => hi.step (atReturn hget hr) hfirst hok hs)
    rintro s ⟨-, input, rfl⟩
    exact resultInv_start env R input
  have hrun : s.main.Running := by
    rw [hret]
    trivial
  obtain ⟨i, v, hbegan⟩ := hbegan
  obtain ⟨t, ht, -⟩ | ⟨res, hres⟩ := hinv.stays hrun i v (hreach.arrivals.began R.id i v hbegan)
  · rw [(hreach.loopInv.done out hret).2] at ht
    cases ht
  · obtain ⟨w, -, hrecorded, hfinal⟩ := hinv.final hrun i res hres
    rw [hreach.returned_final hret] at hfinal
    exact hfinal ▸ hrecorded

end Runs

/-- Exactly one node of the schema declares `return`. -/
structure SoleReturn (schema : WorkflowSchema) (x : StepId) : Prop where
  returns : (schema.nodes.lookup x).any (fun node => node.return_.isSome) = true
  only : ∀ e ∈ schema.nodes.entries, e.2.return_.isSome = true → e.1 = x

/-- A run that ends well after the return node was executed returns what the node recorded last. -/
theorem returns_recorded {lib : Externals} {config : EngineConfig} {schema : WorkflowSchema}
    {env : ExecutorEnv} (hparse : parse lib config schema = .ok env.workflow) {x : StepId}
    (hsole : SoleReturn schema x) {s : State} {out : Json}
    (h : ReachesBy (Trans env) (ReturnsLast x env) (Initial env) s)
    (hret : s.main = .returned (.ok out)) (hbegan : ∃ i v, Event.began x i v ∈ s.trace) :
    lastOutput s.trace x = some out := by
  obtain ⟨node, hnode, hisRet⟩ := (Option.any_eq_true ..).mp hsole.returns
  have hname : x ∈ nodeNames schema := List.mem_map_of_mem (AList.mem_lookup_iff.mp hnode)
  obtain ⟨R, hget⟩ := getStep_of_node hparse hname
  obtain rfl : R.id = x := Workflow.getStep_id hget
  obtain ⟨node', hnode', hc⟩ := step_compiled hparse (Workflow.getStep_mem hget)
  rw [hnode] at hnode'
  cases hnode'
  exact returns_last hget (fun _ _ h => return_first hc hisRet h) h hret hbegan

theorem output_of_last {trace : List Event} {x : StepId} {v : Json}
    (h : lastOutput trace x = some v) : Event.output x v ∈ trace := by
  obtain ⟨e, he, hv⟩ := List.mem_filterMap.mp (List.mem_of_getLast? h)
  cases e with
  | output y u =>
    simp only [Event.outputOf, Option.ite_none_right_eq_some, Option.some.injEq] at hv
    obtain ⟨rfl, rfl⟩ := hv
    exact he
  | _ => cases hv

/-- The return node has the last word, and it and the steps that it depends on take settled inputs. -/
def SettledReturn (vars : String → List String) (steps : List StepId) (x : StepId)
    (env : ExecutorEnv) (s : State) (c : Choice env.Answer) : Prop :=
  ReturnsLast x env s c ∧ ReadsSettled vars steps env s c

instance (vars : String → List String) (steps : List StepId) (x : StepId) (env : ExecutorEnv)
    (s : State) (c : Choice env.Answer) : Decidable (SettledReturn vars steps x env s c) :=
  inferInstanceAs (Decidable (ReturnsLast x env s c ∧ ReadsSettled vars steps env s c))

/-- In a workflow with one return node, a run that returns `Ok`, executes the node and meets the
first condition has the node's output as its result. Two such runs on the same input that meet the
second condition too have the same result, when the tools are functions of their inputs. -/
theorem done_carries_return {lib : Externals} {config : EngineConfig} {schema : WorkflowSchema}
    (env : ExecutorEnv) (hparse : parse lib config schema = .ok env.workflow) (x : StepId)
    (hsole : SoleReturn schema x) :
    (∀ s out, ReachesBy (Trans env) (ReturnsLast x env) (Initial env) s →
      s.main = .returned (.ok out) → (∃ i v, Event.began x i v ∈ s.trace) →
        lastOutput s.trace x = some out) ∧
    ∀ (vars : String → List String), RendersFrom lib vars → Deterministic lib env →
      ∀ (steps : List StepId), Upstream vars env.workflow x steps →
        ∀ (input : Json) (s₁ s₂ : State) (out₁ out₂ : Json),
        ReachesBy (Trans env) (SettledReturn vars steps x env) (InitialWith env input) s₁ →
        ReachesBy (Trans env) (SettledReturn vars steps x env) (InitialWith env input) s₂ →
        s₁.main = .returned (.ok out₁) → s₂.main = .returned (.ok out₂) →
        (∃ i v, Event.began x i v ∈ s₁.trace) → (∃ i v, Event.began x i v ∈ s₂.trace) →
          out₁ = out₂ := by
  refine ⟨fun s out h hret hbegan => returns_recorded hparse hsole h hret hbegan, ?_⟩
  intro vars hlib hdet steps hup input s₁ s₂ out₁ out₂ h₁ h₂ hret₁ hret₂ hbegan₁ hbegan₂
  have hvalue : ∀ s out, ReachesBy (Trans env) (SettledReturn vars steps x env) (InitialWith env input) s →
      s.main = .returned (.ok out) → (∃ i v, Event.began x i v ∈ s.trace) →
        Value vars env steps input x out := by
    intro s out h hret hbegan
    have hlast := returns_recorded hparse hsole
      ((initial_of_with h).mono fun _ _ hok => hok.1) hret hbegan
    exact (valued_of_reaches hup (SettledReturn vars steps x env) (fun _ _ hok => hok.2) h).recorded x hup.self out
      (output_of_last hlast)
  exact (hvalue s₁ out₁ h₁ hret₁ hbegan₁).unique hlib hdet (hvalue s₂ out₂ h₂ hret₂ hbegan₂)

/-! ## A result that is not the return node's -/

theorem StepContext.executeStep_congr {T : Type} [NamedTool T] (ctx : StepContext T)
    (lib : Externals) (answer : StepAnswer) (step : Step) {seen seen' : Outputs}
    (h : resolveInputs lib step.input seen = resolveInputs lib step.input seen') :
    ctx.executeStep lib answer step seen = ctx.executeStep lib answer step seen' := by
  unfold StepContext.executeStep StepContext.dispatch
  rw [h]

/-- The `echo` tool returns the payload it is called with. -/
def echoed (step : Step) (seen : Outputs) : StepAnswer :=
  answers ((resolveInputs plainExternals step.input seen).toOption.elim .null .obj)

def echoEnv (config : EngineConfig) (w : Workflow) : ExecutorEnv :=
  { plainEnv config w with
    executeStep := fun _ step seen => (plainEnv config w).executeStep (echoed step seen) step seen }

theorem echo_deterministic (config : EngineConfig) (w : Workflow) :
    Deterministic plainExternals (echoEnv config w) := by
  intro step a a' seen seen' h
  change StepContext.executeStep _ _ (echoed step seen) step seen =
    StepContext.executeStep _ _ (echoed step seen') step seen'
  rw [show echoed step seen = echoed step seen' by unfold echoed; rw [h]]
  exact StepContext.executeStep_congr _ _ _ _ h

/-- `a` starts `b`, which returns, and `c`, which does not. -/
def raceSchema : WorkflowSchema where
  workflow := "race"
  nodes := StrMap.ofList
    [("a", { then_ := some (.multiple ["b", "c"]) }),
      ("b", {
        with_ := some (.obj [("from", .str "\x7b\x7ba\x7d\x7d"), ("id", .str "b")])
        return_ := some (.str "done") }),
      ("c", { with_ := some (.obj [("id", .str "c")]) })]
    (by decide)

theorem race_soleReturn : SoleReturn raceSchema "b" := by
  constructor
  · decide
  · decide

/-- `a` has run and is joined, `b` and `c` are spawned. -/
def raceStart : List (Choice StepAnswer) :=
  runStep 0 ++ ([.task 0, .task 0, .task 0] : List (Choice StepAnswer)) ++
    ([.recv 0 ["a"], .main, .main, .main, .main, .main, .recv 0 ["a", "b"], .main, .main, .main,
      .main, .recv 0 ["a", "b", "c"], .main, .main, .main, .main, .main, .join 0, .main] :
      List (Choice StepAnswer))

def raceFinish : List (Choice StepAnswer) :=
  [.recv 0 ["a", "b", "c"], .main, .main, .main, .main, .main,
    .recv 0 ["a", "b", "c"], .main, .main, .main, .main, .main]

def raceB : List (Choice StepAnswer) := raceStart ++ runStep 0 ++ [.task 0] ++ runStep 1 ++ [.task 1]

def raceC : List (Choice StepAnswer) := raceStart ++ runStep 1 ++ [.task 1] ++ runStep 0 ++ [.task 0]

def joinReturnLast : List (Choice StepAnswer) := raceFinish ++ [.join 1, .main, .join 0, .main]

def joinReturnFirst : List (Choice StepAnswer) := raceFinish ++ [.join 0, .main, .join 0, .main]

def MainPc.returns (out : Json) : MainPc → Bool
  | .returned (.ok v) => v == out
  | _ => false

theorem returned_of_returns {pc : MainPc} {out : Json} (h : pc.returns out = true) :
    pc = .returned (.ok out) := by
  cases pc with
  | returned r =>
    cases r with
    | ok v =>
      obtain rfl := beq_iff_eq.mp h
      rfl
    | error err => cases h
  | _ => cases h

theorem began_of_begins {trace : List Event} {x : StepId}
    (h : trace.any (Event.begins x) = true) : ∃ i v, Event.began x i v ∈ trace := by
  obtain ⟨e, he, hx⟩ := List.any_eq_true.mp h
  cases e with
  | began y i v =>
    obtain rfl := beq_iff_eq.mp hx
    exact ⟨i, v, he⟩
  | _ => cases hx

def outB : Json := .obj [("from", .obj []), ("id", .str "b")]

def outC : Json := .obj [("id", .str "c")]

/-- Two runs of one workflow with a deterministic tool differ in their results: the second one
reports the output of `c`, which was joined last, instead of that of the return node `b`. -/
theorem race_done_differs : ∃ w s₁ s₂,
    parse plainExternals EngineConfig.default raceSchema = .ok w ∧ SoleReturn raceSchema "b" ∧
      Deterministic plainExternals (echoEnv EngineConfig.default w) ∧
      Reachable (echoEnv EngineConfig.default w) s₁ ∧
      Reachable (echoEnv EngineConfig.default w) s₂ ∧
      s₁.main = .returned (.ok outB) ∧ s₂.main = .returned (.ok outC) ∧
      (∃ i v, Event.began "b" i v ∈ s₁.trace) ∧ (∃ i v, Event.began "b" i v ∈ s₂.trace) ∧
      lastOutput s₂.trace "b" = some outB := by
  have hfirst : parsedRun (echoEnv EngineConfig.default) (fun _ _ _ => True) EngineConfig.default
      raceSchema (fun _ => raceB ++ joinReturnLast)
      (fun _ s => s.main.returns outB && s.trace.any (Event.begins "b")) = true := by
    decide +kernel
  have hsecond : parsedRun (echoEnv EngineConfig.default) (fun _ _ _ => True) EngineConfig.default
      raceSchema (fun _ => raceB ++ joinReturnFirst)
      (fun _ s => s.main.returns outC && s.trace.any (Event.begins "b") &&
        lastOutput s.trace "b" == some outB) = true := by
    decide +kernel
  obtain ⟨w, s₁, hw, hs₁, hp₁⟩ := parsedRun_reaches hfirst (fun _ => rfl) (by decide)
  obtain ⟨w', s₂, hw', hs₂, hp₂⟩ := parsedRun_reaches hsecond (fun _ => rfl) (by decide)
  rw [hw] at hw'
  cases hw'
  rw [Bool.and_eq_true] at hp₁
  rw [Bool.and_eq_true, Bool.and_eq_true, beq_iff_eq] at hp₂
  exact ⟨w, s₁, s₂, hw, race_soleReturn, echo_deterministic _ _, hs₁, hs₂,
    returned_of_returns hp₁.1, returned_of_returns hp₂.1.1, began_of_begins hp₁.2,
    began_of_begins hp₂.1.2, hp₂.2⟩

theorem race_upstream {w : Workflow}
    (hw : parse plainExternals EngineConfig.default raceSchema = .ok w) :
    Upstream (fun _ => []) w "b" ["b", "a"] := by
  have hclosed : (parse plainExternals EngineConfig.default raceSchema).toOption.all (fun w =>
      ["b", "a"].all fun y => (w.getStep y).all fun step =>
        (stepReads (fun _ => []) step).all fun k => k ∈ ["input", "b", "a"]) = true := by
    decide +kernel
  rw [hw] at hclosed
  refine ⟨by decide, ?_⟩
  intro y hy step hget k hk
  have hstep := List.all_eq_true.mp hclosed y hy
  rw [hget] at hstep
  exact of_decide_eq_true (List.all_eq_true.mp hstep k hk)

/-- With the return node joined last the result is its output, whichever of the branches ran first: a
value that depends on what `a` recorded. -/
theorem race_return_last : ∃ w s₁ s₂ out₁ out₂,
    parse plainExternals EngineConfig.default raceSchema = .ok w ∧
      Reachable (echoEnv EngineConfig.default w) s₁ ∧ Reachable (echoEnv EngineConfig.default w) s₂ ∧
      s₁.main = .returned (.ok out₁) ∧ s₂.main = .returned (.ok out₂) ∧
      lastOutput s₁.trace "b" = some out₁ ∧ out₁ = out₂ := by
  let vars : String → List String := fun _ => []
  have hfirst : parsedRun (echoEnv EngineConfig.default) (SettledReturn vars ["b", "a"] "b")
      EngineConfig.default raceSchema (fun _ => raceB ++ joinReturnLast)
      (fun _ s => s.main.returnedOk && s.trace.any (Event.begins "b")) = true := by
    decide +kernel
  have hsecond : parsedRun (echoEnv EngineConfig.default) (SettledReturn vars ["b", "a"] "b")
      EngineConfig.default raceSchema (fun _ => raceC ++ joinReturnLast)
      (fun _ s => s.main.returnedOk && s.trace.any (Event.begins "b")) = true := by
    decide +kernel
  obtain ⟨w, s₁, hw, hs₁, hp₁⟩ := parsedRun_reachesWith hfirst (fun _ => rfl) (by decide)
  obtain ⟨w', s₂, hw', hs₂, hp₂⟩ := parsedRun_reachesWith hsecond (fun _ => rfl) (by decide)
  rw [hw] at hw'
  cases hw'
  rw [Bool.and_eq_true] at hp₁ hp₂
  obtain ⟨out₁, hret₁⟩ := returned_of_returnedOk hp₁.1
  obtain ⟨out₂, hret₂⟩ := returned_of_returnedOk hp₂.1
  obtain ⟨hcarries, hsame⟩ :=
    done_carries_return (echoEnv EngineConfig.default w) hw "b" race_soleReturn
  have hlast := hcarries s₁ out₁ ((initial_of_with hs₁).mono fun _ _ hok => hok.1) hret₁
    (began_of_begins hp₁.2)
  exact ⟨w, s₁, s₂, out₁, out₂, hw, (initial_of_with hs₁).reaches, (initial_of_with hs₂).reaches,
    hret₁, hret₂, hlast, hsame vars (fun _ _ _ _ => rfl) (echo_deterministic _ _) ["b", "a"]
      (race_upstream hw) .null s₁ s₂ out₁ out₂ hs₁ hs₂ hret₁ hret₂ (began_of_begins hp₁.2)
      (began_of_begins hp₂.2)⟩

end Konf.Executor
