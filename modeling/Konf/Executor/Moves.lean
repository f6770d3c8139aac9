import Konf.Executor.Machine

/-! # What a task can do

The inversion of `Task.next` and `Task.answered`: every move of a node task, with its guard and its
effect, said once. Results about tasks are case analyses over `Task.Move`. -/

namespace Konf.Executor
open Konf.Substrate Konf.Transition
set_option autoImplicit false

def TaskPc.Open (pc : TaskPc) : Prop := ∀ msgs result, pc ≠ .sending msgs result

/-- The steps that `steps_executed` counts and that have not ended. -/
def TaskPc.unfinished : TaskPc → ℕ
  | .setVar _ | .enter | .readOutputs | .executing _ => 1
  | _ => 0

inductive Task.Move (env : ExecutorEnv) (s : State) (t : Task) : Task → Option Event → Prop
  | abandon {err : KonfluxError} (hpc : t.pc.Open) (hbetween : t.pc.unfinished = 0) :
      Move env s t (t.close [] (.error err)) none
  | fail {err : KonfluxError} (hpc : t.pc = .failed err) :
      Move env s t (t.close [] (.error err)) (some (.errored t.current.id err.display))
  | skip {err : KonfluxError} (hpc : t.pc = .failed err) (hact : t.current.onError = .skip) :
      Move env s t (t.close [] (.ok ⟨none, t.stepsExecuted⟩)) (some (.output t.current.id .null))
  | fallback {err : KonfluxError} {value : String} (hpc : t.pc = .failed err)
      (hact : t.current.onError = .fallback value) :
      Move env s t (t.close [] (.ok ⟨some (.str value), t.stepsExecuted⟩))
        (some (.output t.current.id (.str value)))
  | start {pc : TaskPc} (hpc : t.pc = .loopTop) (hc : s.cancelled = false)
      (hto : pc = .enter ∨
        ∃ var, pc = .setVar var ∧ t.current.repeat_.bind RepeatConfig.asVar = some var) :
      Move env s t { t with stepsExecuted := t.stepsExecuted + 1, pc := pc } none
  | setVar {var : String} (hpc : t.pc = .setVar var) :
      Move env s t { t with pc := .enter } (some (.bound var (Json.ofNat t.iteration)))
  | enter (hpc : t.pc = .enter) :
      Move env s t { t with pc := .readOutputs } (some (.began t.current.id t.id t.visit))
  | read (hpc : t.pc = .readOutputs) :
      Move env s t { t with pc := .executing s.outputs }
        (some (.read t.current.id t.id s.outputs))
  | answer {seen : Outputs} (a : env.Answer) (hpc : t.pc = .executing seen) :
      Move env s t (t.answered (env.executeStep a t.current seen)) none
  | record {val : Json} {pc : TaskPc} (hpc : t.pc = .succeeded val)
      (hto : pc = .checkRepeat val ∨ pc = .chooseNext val) :
      Move env s t { t with pc := pc } (some (.output t.current.id val))
  | again {val : Json} (hpc : t.pc = .checkRepeat val) :
      Move env s t { t with iteration := t.iteration + 1, pc := .loopTop } none
  | leaveRepeat {val : Json} {n : ℕ} (hpc : t.pc = .checkRepeat val) :
      Move env s t { t with iteration := n, pc := .chooseNext val } none
  | fanOut {val : Json} {targets : List EdgeTarget} (hpc : t.pc = .chooseNext val)
      (hedges : evaluateEdgesTargets env t.current s.outputs = .ok targets) :
      Move env s t
        (t.close (targets.filterMap spawnMessage) (.ok ⟨some val, t.stepsExecuted⟩)) none
  | follow {val : Json} {next : Step} (hpc : t.pc = .chooseNext val)
      (hedges : evaluateEdgesTargets env t.current s.outputs = .ok [.step next.id])
      (hnext : env.workflow.getStep next.id = some next) (hfew : next.dependsOn.length ≤ 1) :
      Move env s t (t.continueAt next).1 (t.continueAt next).2
  | goto {err : KonfluxError} {next : Step} (hpc : t.pc = .failed err)
      (hact : t.current.onError = .goto next.id)
      (hnext : env.workflow.getStep next.id = some next) :
      Move env s t (t.continueAt next).1 (t.continueAt next).2
  | send {m : FinishedInfo} {msgs : List FinishedInfo} {result : TaskResult}
      (hpc : t.pc = .sending (m :: msgs) result) :
      Move env s t { t with pc := .sending msgs result } (some (.sent t.id m))

section Inversion
variable {env : ExecutorEnv} {s : State} {t t' : Task} {e : Option Event}

theorem Task.follow_move {val : Json} {targets : List EdgeTarget} (hpc : t.pc = .chooseNext val)
    (hedges : evaluateEdgesTargets env t.current s.outputs = .ok targets) :
    Task.Move env s t (t.follow env val targets).1 (t.follow env val targets).2 := by
  unfold Task.follow
  split
  · rename_i target
    split
    · rename_i next hnext
      have hid := Workflow.getStep_id hnext
      subst hid
      split_ifs with hfew
      · exact .follow hpc hedges hnext hfew
      · exact .fanOut hpc hedges
    · exact .fanOut hpc hedges
  · exact .fanOut hpc hedges

theorem Task.recover_move {err : KonfluxError} (hpc : t.pc = .failed err) :
    Task.Move env s t (t.recover env err).1 (t.recover env err).2 := by
  have hopen : t.pc.Open := by
    rw [hpc]
    intro msgs result h
    cases h
  unfold Task.recover
  split
  · exact .fail hpc
  · rename_i hact
    exact .skip hpc hact
  · rename_i hact
    exact .fallback hpc hact
  · rename_i target hact
    split
    · rename_i next hnext
      have hid := Workflow.getStep_id hnext
      subst hid
      exact .goto hpc hact hnext
    · refine .abandon hopen ?_
      rw [hpc]
      rfl

theorem Task.repeatOrLeave_move {val : Json} (hpc : t.pc = .checkRepeat val) :
    Task.Move env s t (t.repeatOrLeave env val s.outputs) none := by
  unfold Task.repeatOrLeave
  split
  · exact .leaveRepeat hpc
  · split
    · exact .leaveRepeat hpc
    · split_ifs
      · exact .again hpc
      · exact .leaveRepeat hpc
    · refine .abandon ?_ (by rw [hpc]; rfl)
      rw [hpc]
      intro msgs result h
      cases h

/-- Every move of `spawn_node`'s loop is one of `Task.Move`. -/
theorem Task.next_move (h : t.next env s = some (t', e)) : Task.Move env s t t' e := by
  unfold Task.next at h
  split at h
  · rename_i hpc
    split_ifs at h with hc
    · cases h
      refine .abandon ?_ (by rw [hpc]; rfl)
      rw [hpc]
      intro msgs result h
      cases h
    · cases h
      refine .start hpc (Bool.not_eq_true _ ▸ hc) ?_
      split
      · rename_i var hvar
        exact .inr ⟨var, rfl, hvar⟩
      · exact .inl rfl
  · rename_i hpc
    cases h
    exact .setVar hpc
  · rename_i hpc
    cases h
    exact .enter hpc
  · rename_i hpc
    cases h
    exact .read hpc
  · cases h
  · rename_i hpc
    cases h
    refine .record hpc ?_
    split_ifs
    · exact .inl rfl
    · exact .inr rfl
  · rename_i hpc
    cases h
    exact Task.repeatOrLeave_move hpc
  · rename_i hpc
    split at h
    · rename_i hedges
      have hmove := Task.follow_move hpc hedges
      rw [Option.some.inj h] at hmove
      exact hmove
    · cases h
      refine .abandon ?_ (by rw [hpc]; rfl)
      rw [hpc]
      intro msgs result h
      cases h
  · rename_i hpc
    have hmove : Task.Move env s t (t.recover env _).1 (t.recover env _).2 :=
      Task.recover_move hpc
    rw [Option.some.inj h] at hmove
    exact hmove
  · cases h
  · rename_i hpc
    split_ifs at h
    cases h
    exact .send hpc

end Inversion

/-- The event that a choice makes a task emit. Conditions on steps are stated with it. -/
def emitted (env : ExecutorEnv) (s : State) : Choice env.Answer → Option Event
  | .task k => (s.tasks[k]?).bind fun t => (t.next env s).bind Prod.snd
  | _ => none

theorem emitted_task {env : ExecutorEnv} {s : State} {k : ℕ} {t t' : Task} {e : Option Event}
    (hk : s.tasks[k]? = some t) (hn : t.next env s = some (t', e)) :
    emitted env s (.task k) = e := by
  simp only [emitted, hk, hn, Option.bind_some]

/-! ## Transitions by what they change -/

theorem joinOutcome_main (env : ExecutorEnv) (s : State) (r : TaskResult) :
    (joinOutcome env s r).2.2 = .exitTest ∨ ∃ err, (joinOutcome env s r).2.2 = .shutdown err := by
  unfold joinOutcome
  cases r with
  | ok res =>
    simp only
    split_ifs
    · exact .inr ⟨_, rfl⟩
    · exact .inl rfl
  | error err => exact .inr ⟨_, rfl⟩

/-- A join leads to the exit test or to a shutdown. -/
theorem State.join_main_ne {env : ExecutorEnv} {s : State} {k : ℕ} {t : Task} {r : TaskResult}
    {m : MainPc} (hexit : m ≠ .exitTest) (hshut : ∀ err, m ≠ .shutdown err) :
    (s.join env k t r).main ≠ m := by
  obtain hm | ⟨err, hm⟩ := joinOutcome_main env s r
  · rw [State.join, hm]
    exact hexit.symm
  · rw [State.join, hm]
    exact (hshut err).symm

/-- A transition is silent (it changes only where the main loop stands, or the token), or it moves
one task, joins one, receives one message, spawns one step, or aborts one task. -/
inductive Kind (env : ExecutorEnv) (s : State) : Choice env.Answer → State → Prop
  | silent {c : Choice env.Answer} (pc : MainPc) (b : Bool) :
      Kind env s c { s with main := pc, cancelled := b }
  | task {c : Choice env.Answer} {k : ℕ} {t t' : Task} {e : Option Event}
      (hc : c = .task k ∨ ∃ a, c = .answer k a) (hk : s.tasks[k]? = some t)
      (hmove : Task.Move env s t t' e) : Kind env s c (s.move k t' e)
  | join {k : ℕ} {t : Task} {result : TaskResult} (hk : s.tasks[k]? = some t)
      (hpc : t.pc = .sending [] result) : Kind env s (.join k) (s.join env k t result)
  | recv {k i : ℕ} {m : FinishedInfo} {order : List StepId} (hk : s.channel[k]? = some (i, m))
      (hfifo : ∀ p ∈ s.channel.take k, p.1 ≠ i) : Kind env s (.recv k order) (s.receive k i m order)
  | spawn {step : Step} {todo : List StepId} {n : ℕ} (hm : s.main = .checkDeps step [] n todo)
      (hrun : canRunWith step n = true) : Kind env s .main { s.spawn step with main := .scan todo }
  | abort {k : ℕ} {err : KonfluxError} (hm : s.main = .shutdown err) :
      Kind env s (.abort k) { s with tasks := s.tasks.eraseIdx k }

theorem Trans.kind {env : ExecutorEnv} {s s' : State} {c : Choice env.Answer}
    (h : Trans env s c s') : Kind env s c s' := by
  cases h with
  | cancel => exact .silent s.main true
  | task hk hn => exact .task (.inl rfl) hk (Task.next_move hn)
  | answer a hk hpc => exact .task (.inr ⟨a, rfl⟩) hk (.answer a hpc)
  | join _ hk hpc => exact .join hk hpc
  | recv _ hk hfifo _ => exact .recv hk hfifo
  | depsMet hm hrun => exact .spawn hm hrun
  | abort hm _ => exact .abort hm
  | seeCancel | scanDone | scanFull | scanSkip | scanCheck | checkDep | depsUnmet | exit | loop
  | stop => exact .silent _ s.cancelled

/-! ## At rest -/

section Rest
variable {env : ExecutorEnv} {s s' : State} {c : Choice env.Answer} {r : Except KonfluxError Json}

/-- When `execute` has returned and no task is left, only the token can still change. -/
theorem Trans.at_rest (h : Trans env s c s') (hret : s.main = .returned r) (hidle : s.tasks = []) :
    s' = { s with cancelled := true } := by
  have hnone : ∀ (k : ℕ) (t : Task), s.tasks[k]? ≠ some t := by
    intro k t
    simp only [hidle, List.getElem?_nil, ne_eq, reduceCtorEq, not_false_eq_true]
  cases h with
  | cancel => rfl
  | task hk _ | answer _ hk _ => exact absurd hk (hnone _ _)
  | seeCancel hm _ | join hm _ _ | recv hm _ _ _ | scanDone hm | scanFull hm _ | scanSkip hm _ _
  | scanCheck hm _ _ _ | checkDep hm | depsMet hm _ | depsUnmet hm _ | exit hm _ _ | loop hm _
  | abort hm _ | stop hm _ =>
    rw [hret] at hm
    cases hm

theorem State.receive_main (s : State) (k i : ℕ) (m : FinishedInfo) (order : List StepId) :
    ∃ todo, (s.receive k i m order).main = .scan todo := by
  cases m with
  | node id => exact ⟨order, rfl⟩
  | spawnNext target => exact ⟨[target], rfl⟩

/-- The tasks have ended by the time `execute` returns. -/
def State.Idle (s : State) : Prop := ∀ r, s.main = .returned r → s.tasks = []

theorem start_idle (env : ExecutorEnv) (input : Json) : (start env input).Idle := by
  intro r hret
  unfold start at hret ⊢
  split at hret
  · cases hret
  · rfl

theorem State.Idle.step (hi : s.Idle) (h : Trans env s c s') : s'.Idle := by
  intro r hret
  cases h with
  | cancel => exact hi r hret
  | task hk _ | answer _ hk _ =>
    rw [State.move_main] at hret
    rw [hi r hret] at hk
    cases hk
  | join _ _ _ => exact absurd hret (State.join_main_ne (by simp) (by simp))
  | recv _ _ _ _ =>
    obtain ⟨todo, hm⟩ := s.receive_main _ _ _ _
    cases hm.symm.trans hret
  | exit _ _ hempty | stop _ hempty => exact hempty
  | abort hm _ => cases hm.symm.trans hret
  | seeCancel | scanDone | scanFull | scanSkip | scanCheck | checkDep | depsMet | depsUnmet
  | loop => cases hret

theorem Reachable.idle (h : Reachable env s) : s.Idle := by
  refine Reaches.invariant ?_ (fun s c s' _ hi hs => hi.step hs) h
  rintro s ⟨-, input, rfl⟩
  exact start_idle env input

end Rest

end Konf.Executor
