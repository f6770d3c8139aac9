import Konf.Executor.Accounting
import Konf.Executor.AtMostOnce

/-! # Activated steps run

A step whose incoming edge was taken should run before `execute` returns `Ok`. A step that the main
loop cannot spawn at once, for want of a free slot or of a dependency, waits for the next `Node`
message; the loop may return when the last one has been handled. The result is about the runs in
which the handling of the last outstanding `Node` message finds something to spawn, as long as some
activated step has not been entered. -/

namespace Konf.Executor
open Konf.Substrate Konf.Parser Konf.Transition
set_option autoImplicit false

/-! ## Arrivals begin -/

/-- The task has arrived at its step and not begun it, or has given up with an error. -/
def TaskPc.Unbegun : TaskPc → Prop
  | .loopTop | .setVar _ | .enter | .sending _ (.error _) => True
  | _ => False

def Begun (trace : List Event) (x : StepId) (i v : ℕ) : Prop := Event.began x i v ∈ trace

/-- As long as nothing has failed, every arrival has begun or its task is still about to. -/
def Launched (s : State) : Prop :=
  s.main.Running → ∀ x i v, Arrived s.trace x i v → Begun s.trace x i v ∨
    ∃ t ∈ s.tasks, t.current.id = x ∧ t.id = i ∧ t.visit = v ∧ t.pc.Unbegun

section Launch
variable {env : ExecutorEnv} {s : State}

/-- A task that has not begun its step begins it, or stays at it without beginning. -/
theorem Task.Move.unbegun {t t' : Task} {e : Option Event} (h : Task.Move env s t t' e)
    (hpc : t.pc.Unbegun) :
    e = some (.began t.current.id t.id t.visit) ∨
      (t'.current = t.current ∧ t'.id = t.id ∧ t'.visit = t.visit ∧ t'.pc.Unbegun) := by
  cases h with
  | enter => exact .inl rfl
  | abandon => exact .inr ⟨rfl, rfl, rfl, trivial⟩
  | start _ _ hto =>
    obtain rfl | ⟨var, rfl, -⟩ := hto
    · exact .inr ⟨rfl, rfl, rfl, trivial⟩
    · exact .inr ⟨rfl, rfl, rfl, trivial⟩
  | setVar => exact .inr ⟨rfl, rfl, rfl, trivial⟩
  | @send m msgs result hto =>
    rw [hto] at hpc
    cases result with
    | ok res => exact hpc.elim
    | error err => exact .inr ⟨rfl, rfl, rfl, trivial⟩
  | fail hto | skip hto | fallback hto | read hto | answer _ hto | record hto | again hto
  | leaveRepeat hto | fanOut hto | follow hto | goto hto =>
    rw [hto] at hpc
    exact hpc.elim

theorem Launched.task (h : Launched s) (hids : (s.tasks.map Task.id).Nodup) {k : ℕ} {t t' : Task}
    {e : Option Event} (hk : s.tasks[k]? = some t) (hmove : Task.Move env s t t' e) :
    Launched (s.move k t' e) := by
  intro hrun x i v harr
  rw [State.move_main] at hrun
  rw [State.move_trace] at harr
  rw [State.move_trace, State.move_tasks]
  have hlt : k < s.tasks.length := (List.getElem?_eq_some_iff.mp hk).1
  have ht' : t' ∈ s.tasks.set k t' := List.mem_set hlt t'
  have hcase : Arrived s.trace x i v ∨
      (t'.current.id = x ∧ t'.id = i ∧ t'.visit = v ∧ t'.pc = .loopTop) := by
    obtain ⟨hmem, hv⟩ | hmem := harr
    · obtain hmem | hmem := List.mem_append.mp hmem
      · exact .inl (.inl ⟨hmem, hv⟩)
      · exact absurd hmem (hmove.not_spawned x i)
    · obtain hmem | hmem := List.mem_append.mp hmem
      · exact .inl (.inr hmem)
      · rw [Option.mem_toList] at hmem
        cases hmem
        cases hmove with
        | follow | goto => exact .inr ⟨rfl, rfl, rfl, rfl⟩
  obtain hold | ⟨hx, hi, hv, hpc⟩ := hcase
  · obtain hbegun | ⟨u, hu, hx, hi, hv, hpc⟩ := h hrun x i v hold
    · exact .inl (List.mem_append_left _ hbegun)
    · by_cases hut : u.id = t.id
      · -- the waiting task is the one that moves
        have heq : u = t := List.inj_on_of_nodup_map hids hu (List.mem_of_getElem? hk) hut
        subst heq
        obtain he | ⟨hcur, hid, hvisit, hpc'⟩ := hmove.unbegun hpc
        · refine .inl (List.mem_append_right _ ?_)
          rw [he, ← hx, ← hi, ← hv]
          exact List.mem_singleton_self _
        · exact .inr ⟨t', ht', by rw [hcur, hx], by rw [hid, hi], by rw [hvisit, hv], hpc'⟩
      · exact .inr ⟨u, (Indexed.mem_set hids hk).mpr (.inr ⟨hu, hut⟩), hx, hi, hv, hpc⟩
  · refine .inr ⟨t', ht', hx, hi, hv, ?_⟩
    rw [hpc]
    trivial

theorem Launched.step {s' : State} {c : Choice env.Answer} (h : Launched s) (hledger : Ledger s)
    (hs : Trans env s c s') : Launched s' := by
  have hmain : ∀ pc : MainPc, (pc.Running → s.main.Running) → Launched { s with main := pc } :=
    fun pc hpc hrun => h (hpc hrun)
  have hold : ∀ {e : Event} {x i v}, (∀ y j, e ≠ .spawned y j) → (∀ y j u, e ≠ .continued y j u) →
      Arrived (s.trace ++ [e]) x i v → Arrived s.trace x i v := by
    intro e x i v hspawn hcont harr
    obtain ⟨hmem, hv⟩ | hmem := harr
    · obtain hmem | hmem := List.mem_append.mp hmem
      · exact .inl ⟨hmem, hv⟩
      · exact absurd (List.mem_singleton.mp hmem).symm (hspawn x i)
    · obtain hmem | hmem := List.mem_append.mp hmem
      · exact .inr hmem
      · exact absurd (List.mem_singleton.mp hmem).symm (hcont x i v)
  cases hs with
  | cancel => exact h
  | task hk hn => exact h.task hledger.ids hk (Task.next_move hn)
  | answer a hk hpc => exact h.task hledger.ids hk (.answer a hpc)
  | @join k t result hm hk hpc =>
    intro hrun x i v harr
    cases result with
    | error err => exact hrun.elim
    | ok res =>
      have harr' := hold (by simp) (by simp) harr
      obtain hbegun | ⟨u, hu, hx, hi, hv, hpc'⟩ := h (by rw [hm]; trivial) x i v harr'
      · exact .inl (List.mem_append_left _ hbegun)
      · refine .inr ⟨u, (Indexed.mem_eraseIdx hledger.ids hk).mpr ⟨hu, ?_⟩, hx, hi, hv, hpc'⟩
        intro hut
        have heq : u = t :=
          List.inj_on_of_nodup_map hledger.ids hu (List.mem_of_getElem? hk) hut
        rw [heq, hpc] at hpc'
        exact hpc'
  | recv hm hk hfifo horder =>
    intro _ x i v harr
    obtain hbegun | hwait := h (by rw [hm]; trivial) x i v (hold (by simp) (by simp) harr)
    · exact .inl (List.mem_append_left _ hbegun)
    · exact .inr hwait
  | @depsMet step todo n hm hrun =>
    intro _ x i v harr
    by_cases hnew : x = step.id ∧ i = s.totalSpawned ∧ v = 0
    · obtain ⟨rfl, rfl, rfl⟩ := hnew
      exact .inr ⟨Task.spawned s.totalSpawned step,
        List.mem_append_right _ (List.mem_singleton_self _), rfl, rfl, rfl, trivial⟩
    · have harr' : Arrived s.trace x i v := by
        obtain ⟨hmem, hv⟩ | hmem := harr
        · obtain hmem | hmem := List.mem_append.mp hmem
          · exact .inl ⟨hmem, hv⟩
          · cases List.mem_singleton.mp hmem
            exact absurd ⟨rfl, rfl, hv⟩ hnew
        · exact .inr (by simpa [State.spawn] using hmem)
      obtain hbegun | ⟨u, hu, hrest⟩ := h (by rw [hm]; trivial) x i v harr'
      · exact .inl (List.mem_append_left _ hbegun)
      · exact .inr ⟨u, List.mem_append_left _ hu, hrest⟩
  | abort hm _ =>
    intro hrun
    rw [hm] at hrun
    exact hrun.elim
  | scanDone hm | scanFull hm | scanSkip hm | scanCheck hm | checkDep hm | depsUnmet hm | exit hm
  | loop hm => exact hmain _ (by rw [hm]; exact id)
  | seeCancel | stop => exact hmain _ (by simp [MainPc.Running])

theorem launched_start (env : ExecutorEnv) (input : Json) : Launched (start env input) := by
  unfold start
  split
  · intro _ x i v harr
    obtain ⟨hmem, hv⟩ | hmem := harr
    · cases List.mem_singleton.mp hmem
      exact .inr ⟨_, List.mem_singleton_self _, rfl, rfl, hv.symm, trivial⟩
    · simp [State.fresh, State.spawn] at hmem
  · intro hrun
    exact hrun.elim

theorem Reachable.launched (h : Reachable env s) : Launched s := by
  refine h.invariant ?_ (fun s a s' hr hi hs => hi.step (Reachable.ledger hr) hs)
  rintro s ⟨-, input, rfl⟩
  exact launched_start env input

theorem begun_of_returned (h : Reachable env s) {out : Json} (hret : s.main = .returned (.ok out))
    {x : StepId} {i v : ℕ} (harr : Arrived s.trace x i v) : Begun s.trace x i v := by
  have hrun : s.main.Running := by
    rw [hret]
    trivial
  obtain hbegun | ⟨t, ht, -⟩ := h.launched hrun x i v harr
  · exact hbegun
  · rw [(h.loopInv.done out hret).2] at ht
    cases ht

end Launch

/-! ## Requests reach the main loop -/

section Requests
variable {env : ExecutorEnv} {s : State}

theorem Task.Move.not_received {t t' : Task} {e : Option Event} (h : Task.Move env s t t' e)
    (i : ℕ) (m : FinishedInfo) : Event.received i m ∉ e.toList := by
  rw [Option.mem_toList]
  intro heq
  cases heq
  cases h

theorem Reachable.received_reachable (h : Reachable env s) : ∀ i x,
    Event.received i (.spawnNext x) ∈ s.trace → x ∈ s.reachableNodes := by
  induction h with
  | start h =>
    obtain ⟨-, input, rfl⟩ := h
    unfold start
    split <;> simp [State.fresh, State.spawn]
  | tail _ _ hs ih =>
    intro i x hmem
    cases hs.kind with
    | silent pc b => exact ih i x hmem
    | task _ hk hmove =>
      rw [State.move_trace, List.mem_append] at hmem
      rw [State.move_reachableNodes]
      exact ih i x (hmem.resolve_right (hmove.not_received i _))
    | join hk hpc => exact ih i x (by simpa [State.join] using hmem)
    | @recv k j m order hk hfifo =>
      cases m with
      | node n => exact ih i x (by simpa [State.receive] using hmem)
      | spawnNext target =>
        obtain hmem | hmem := List.mem_append.mp hmem
        · exact List.mem_insert_of_mem (ih i x hmem)
        · cases List.mem_singleton.mp hmem
          exact List.mem_insert_self
    | spawn hm hrun => exact ih i x (by simpa [State.spawn] using hmem)
    | abort hm => exact ih i x hmem

theorem requested_reachable (h : Reachable env s) (hchan : s.channel = []) {x : StepId}
    (hreq : requested s.trace x = true) : x ∈ s.reachableNodes := by
  obtain ⟨e, he, hx⟩ := List.any_eq_true.mp hreq
  cases e with
  | sent i m =>
    cases m with
    | node n => cases hx
    | spawnNext y =>
      obtain rfl := beq_iff_eq.mp hx
      have hsent : FinishedInfo.spawnNext y ∈ sentBy s.trace i :=
        List.mem_filterMap.mpr ⟨_, he, if_pos rfl⟩
      rw [h.ledger.fifo i, hchan, queuedBy, List.filter_nil, List.map_nil, List.append_nil] at hsent
      obtain ⟨e', he', hm⟩ := List.mem_filterMap.mp hsent
      cases e' with
      | received j m =>
        rw [Event.receivedFrom] at hm
        split_ifs at hm
        cases hm
        exact h.received_reachable j y he'
      | _ => cases hm
  | _ => cases hx

end Requests

/-! ## The last message -/

/-- The step was spawned, or some task moved on to it. -/
def State.entered (s : State) (x : StepId) : Bool :=
  decide (x ∈ s.executedNodes) || continuedTo s.trace x

def handlesNode {Answer : Type} (s : State) : Choice Answer → Bool
  | .recv k _ => match s.channel[k]? with
    | some (_, .node _) => true
    | _ => false
  | _ => false

/-- When the main loop handles the last outstanding `Node` message while some reachable step has not
been entered, it has a free slot and a step that can run. -/
def LastNodeSpawns (env : ExecutorEnv) (s : State) (c : Choice env.Answer) : Prop :=
  handlesNode s c = true → s.totalFinished + 1 = s.totalSpawned →
    (∀ x ∈ s.reachableNodes, s.entered x = true) ∨
      (s.tasks.length < env.config.maxConcurrentNodes ∧
        ∃ x ∈ s.reachableNodes, x ∉ s.executedNodes ∧ (env.workflow.getStep x).any s.canRun = true)

instance (env : ExecutorEnv) (s : State) (c : Choice env.Answer) :
    Decidable (LastNodeSpawns env s c) :=
  inferInstanceAs (Decidable (handlesNode s c = true → s.totalFinished + 1 = s.totalSpawned →
    (∀ x ∈ s.reachableNodes, s.entered x = true) ∨
      (s.tasks.length < env.config.maxConcurrentNodes ∧
        ∃ x ∈ s.reachableNodes, x ∉ s.executedNodes ∧
          (env.workflow.getStep x).any s.canRun = true)))

/-- The step is not spawned yet and all its dependencies have completed. -/
def Ready (env : ExecutorEnv) (s : State) (x : StepId) : Prop :=
  x ∉ s.executedNodes ∧ ∃ step, env.workflow.getStep x = some step ∧
    ∀ d ∈ step.dependsOn, s.isCompleted d = true

/-- The loop is going to spawn something before its next exit test. -/
def Spawns (env : ExecutorEnv) (s : State) : Prop :=
  s.tasks.length < env.config.maxConcurrentNodes ∧
    match s.main with
    | .scan todo => ∃ x ∈ todo, Ready env s x
    | .checkDeps step deps n todo =>
      (n + deps.length = step.dependsOn.length ∧ ∀ d ∈ deps, s.isCompleted d = true) ∨
        ∃ x ∈ todo, Ready env s x
    | _ => False

/-- With all `Node` messages received, every reachable step is entered or another is spawned. -/
def Settled (env : ExecutorEnv) (s : State) : Prop :=
  s.main.Running → s.totalSpawned = s.totalFinished →
    (∀ x ∈ s.reachableNodes, s.entered x = true) ∨ Spawns env s

section Settling
variable {env : ExecutorEnv} {s : State}

theorem State.entered_mono {s' : State} {more : List Event} {x : StepId}
    (h : s.entered x = true) (hexec : s'.executedNodes = s.executedNodes)
    (htrace : s'.trace = s.trace ++ more) : s'.entered x = true := by
  rw [State.entered, Bool.or_eq_true] at h ⊢
  rw [hexec, htrace, continuedTo_append, Bool.or_eq_true]
  exact h.imp id .inl

theorem Settled.move (h : Settled env s) (k : ℕ) (t : Task) (e : Option Event) :
    Settled env (s.move k t e) := by
  have hready : ∀ x, Ready env s x → Ready env (s.move k t e) x := by
    rintro x ⟨hx, step, hstep, hdeps⟩
    refine ⟨by simpa using hx, step, hstep, ?_⟩
    intro d hd
    exact s.isCompleted_move k t e (hdeps d hd)
  intro hrun heq
  rw [State.move_main] at hrun
  rw [State.move_totalSpawned, State.move_totalFinished] at heq
  obtain hall | ⟨hroom, hspawns⟩ := h hrun heq
  · left
    rw [State.move_reachableNodes]
    intro x hx
    exact State.entered_mono (hall x hx) (State.move_executedNodes ..) (State.move_trace ..)
  · right
    refine ⟨by simpa using hroom, ?_⟩
    rw [State.move_main]
    cases hm : s.main with
    | scan todo =>
      rw [hm] at hspawns
      obtain ⟨x, hx, hr⟩ := hspawns
      exact ⟨x, hx, hready x hr⟩
    | checkDeps step deps n todo =>
      rw [hm] at hspawns
      obtain ⟨hn, hdeps⟩ | ⟨x, hx, hr⟩ := hspawns
      · exact .inl ⟨hn, fun d hd => s.isCompleted_move k t e (hdeps d hd)⟩
      · exact .inr ⟨x, hx, hready x hr⟩
    | _ =>
      rw [hm] at hspawns
      exact hspawns

/-- Handling a `Node` message that leaves no other outstanding. -/
theorem Settled.node {k i : ℕ} {n : StepId} {order : List StepId}
    (hjoin : ∀ step ∈ env.workflow.steps, step.join = .all)
    (horder : order.Perm s.reachableNodes)
    (hlast : s.totalFinished + 1 = s.totalSpawned →
      (∀ x ∈ s.reachableNodes, s.entered x = true) ∨
        (s.tasks.length < env.config.maxConcurrentNodes ∧
          ∃ x ∈ s.reachableNodes, x ∉ s.executedNodes ∧
            (env.workflow.getStep x).any s.canRun = true)) :
    Settled env (s.receive k i (.node n) order) := by
  intro _ heq
  obtain hall | ⟨hroom, x, hx, hnew, hrun⟩ := hlast heq.symm
  · left
    intro x hx
    exact State.entered_mono (hall x hx) rfl rfl
  · right
    obtain ⟨step, hstep, hrun⟩ := (Option.any_eq_true ..).mp hrun
    refine ⟨hroom, x, horder.mem_iff.mpr hx, hnew, step, hstep, ?_⟩
    exact all_completed (hjoin step (Workflow.getStep_mem hstep)) hrun (Nat.le_refl _)

theorem Settled.scan (h : Settled env s) {x : StepId} {todo : List StepId}
    (hm : s.main = .scan (x :: todo)) (heq : s.totalSpawned = s.totalFinished) :
    (∀ x ∈ s.reachableNodes, s.entered x = true) ∨
      (s.tasks.length < env.config.maxConcurrentNodes ∧
        (Ready env s x ∨ ∃ y ∈ todo, Ready env s y)) := by
  have hrun : s.main.Running := by
    rw [hm]
    trivial
  obtain hall | ⟨hroom, hspawns⟩ := h hrun heq
  · exact .inl hall
  · rw [hm] at hspawns
    obtain ⟨y, hy, hr⟩ := hspawns
    obtain rfl | hy := List.mem_cons.mp hy
    · exact .inr ⟨hroom, .inl hr⟩
    · exact .inr ⟨hroom, .inr ⟨y, hy, hr⟩⟩

theorem Settled.check (h : Settled env s) {step : Step} {deps todo : List StepId} {n : ℕ}
    (hm : s.main = .checkDeps step deps n todo) (heq : s.totalSpawned = s.totalFinished) :
    (∀ x ∈ s.reachableNodes, s.entered x = true) ∨
      (s.tasks.length < env.config.maxConcurrentNodes ∧
        ((n + deps.length = step.dependsOn.length ∧ ∀ d ∈ deps, s.isCompleted d = true) ∨
          ∃ x ∈ todo, Ready env s x)) := by
  have hrun : s.main.Running := by
    rw [hm]
    trivial
  refine (h hrun heq).imp id ?_
  rintro ⟨hroom, hspawns⟩
  rw [hm] at hspawns
  exact ⟨hroom, hspawns⟩

theorem canRunWith_length {step : Step} (hjoin : step.join = .all) :
    canRunWith step step.dependsOn.length = true := by
  unfold canRunWith
  rw [hjoin]
  split_ifs
  · rfl
  · exact beq_self_eq_true _

/-- Between two rounds nothing is about to be spawned. -/
theorem Settled.entered (h : Settled env s) (hm : s.main = .select ∨ s.main = .exitTest)
    (heq : s.totalSpawned = s.totalFinished) : ∀ x ∈ s.reachableNodes, s.entered x = true := by
  have hrun : s.main.Running := by
    cases hm with
    | inl hm | inr hm =>
      rw [hm]
      trivial
  obtain hall | ⟨-, hspawns⟩ := h hrun heq
  · exact hall
  · cases hm with
    | inl hm | inr hm =>
      rw [hm] at hspawns
      exact hspawns.elim

theorem Settled.scanSkip (h : Settled env s) {x : StepId} {todo : List StepId}
    (hm : s.main = .scan (x :: todo)) (hskip : x ∈ s.executedNodes ∨ env.workflow.getStep x = none) :
    Settled env { s with main := .scan todo } := by
  intro _ heq
  obtain hall | ⟨hroom, ⟨hnew, step, hstep, -⟩ | hlater⟩ := h.scan hm heq
  · exact .inl hall
  · obtain hx | hnone := hskip
    · exact absurd hx hnew
    · rw [hnone] at hstep
      cases hstep
  · exact .inr ⟨hroom, hlater⟩

theorem Settled.scanCheck (h : Settled env s) {x : StepId} {todo : List StepId} {step : Step}
    (hm : s.main = .scan (x :: todo)) (hstep : env.workflow.getStep x = some step) :
    Settled env { s with main := .checkDeps step step.dependsOn 0 todo } := by
  intro _ heq
  obtain hall | ⟨hroom, ⟨-, step', hstep', hdeps⟩ | hlater⟩ := h.scan hm heq
  · exact .inl hall
  · rw [hstep] at hstep'
    cases hstep'
    exact .inr ⟨hroom, .inl ⟨by omega, hdeps⟩⟩
  · exact .inr ⟨hroom, .inr hlater⟩

theorem Settled.checkDep (h : Settled env s) {step : Step} {d : StepId} {deps todo : List StepId}
    {n : ℕ} (hm : s.main = .checkDeps step (d :: deps) n todo) :
    Settled env
      { s with main := .checkDeps step deps (if s.isCompleted d then n + 1 else n) todo } := by
  intro _ heq
  obtain hall | ⟨hroom, ⟨hn, hdeps⟩ | hlater⟩ := h.check hm heq
  · exact .inl hall
  · refine .inr ⟨hroom, .inl ⟨?_, fun d' hd' => hdeps d' (List.mem_cons_of_mem _ hd')⟩⟩
    rw [List.length_cons] at hn
    rw [if_pos (hdeps d List.mem_cons_self)]
    omega
  · exact .inr ⟨hroom, .inr hlater⟩

theorem Settled.depsUnmet (h : Settled env s) {step : Step} {todo : List StepId} {n : ℕ}
    (hm : s.main = .checkDeps step [] n todo) (hjoin : step.join = .all)
    (hrun : canRunWith step n = false) : Settled env { s with main := .scan todo } := by
  intro _ heq
  obtain hall | ⟨hroom, ⟨hn, -⟩ | hlater⟩ := h.check hm heq
  · exact .inl hall
  · -- all dependencies were counted, so `can_run` would have said yes
    rw [List.length_nil, Nat.add_zero] at hn
    rw [hn, canRunWith_length hjoin] at hrun
    cases hrun
  · exact .inr ⟨hroom, hlater⟩

theorem Settled.step {s' : State} {c : Choice env.Answer} (h : Settled env s)
    (hledger : Ledger s) (hjoin : ∀ step ∈ env.workflow.steps, step.join = .all)
    (hres : Residence env s) (hok : LastNodeSpawns env s c) (hs : Trans env s c s') :
    Settled env s' := by
  cases hs with
  | cancel => exact h
  | task hk hn => exact h.move _ _ _
  | answer a hk hpc => exact h.move _ _ _
  | join hm hk hpc =>
    intro _ heq
    left
    intro x hx
    exact State.entered_mono (h.entered (.inl hm) heq x hx) rfl rfl
  | @recv k i m order hm hk hfifo horder =>
    cases m with
    | node n =>
      refine Settled.node hjoin horder (hok ?_)
      simp only [handlesNode, hk]
    | spawnNext target =>
      -- with equal counters the channel would be empty
      intro _ heq
      rw [hledger.channel_nil heq] at hk
      cases hk
  | scanDone hm =>
    intro _ heq
    left
    have hrun : s.main.Running := by
      rw [hm]
      trivial
    obtain hall | ⟨-, hspawns⟩ := h hrun heq
    · exact hall
    · rw [hm] at hspawns
      obtain ⟨x, hx, -⟩ := hspawns
      cases hx
  | scanFull hm hfull =>
    intro _ heq
    obtain hall | ⟨hroom, -⟩ := h.scan hm heq
    · exact .inl hall
    · change s.tasks.length < env.config.maxConcurrentNodes at hroom
      omega
  | scanSkip hm _ hskip => exact h.scanSkip hm hskip
  | scanCheck hm _ _ hstep => exact h.scanCheck hm hstep
  | checkDep hm => exact h.checkDep hm
  | depsMet hm _ =>
    intro _ heq
    have hle := hledger.finished_le
    have heq' : s.totalSpawned + 1 = s.totalFinished := heq
    omega
  | depsUnmet hm hrun =>
    have hstep := Workflow.getStep_mem (hres.checking _ _ _ _ hm).1
    exact h.depsUnmet hm (hjoin _ hstep) hrun
  | exit hm | loop hm =>
    intro _ heq
    exact .inl (h.entered (.inr hm) heq)
  | seeCancel | stop =>
    intro hrun
    exact hrun.elim
  | abort hm _ =>
    intro hrun
    rw [hm] at hrun
    exact hrun.elim

theorem settled_start (env : ExecutorEnv) (input : Json) : Settled env (start env input) := by
  unfold start
  split
  · intro _ heq
    cases heq
  · intro hrun
    exact hrun.elim

end Settling

/-- In every run of a parsed workflow in which the last outstanding `Node` message always finds
something to spawn while an activated step is missing, `execute` returns `Ok` only after every step
with a taken incoming edge has begun. -/
theorem activated_steps_begin {lib : Externals} {config : EngineConfig} {schema : WorkflowSchema}
    (env : ExecutorEnv) (hparse : parse lib config schema = .ok env.workflow) (s : State)
    (h : ReachesBy (Trans env) (LastNodeSpawns env) (Initial env) s) {out : Json}
    (hret : s.main = .returned (.ok out)) (x : StepId)
    (hx : continuedTo s.trace x = true ∨ requested s.trace x = true) :
    ∃ i v, Event.began x i v ∈ s.trace := by
  have hreach : Reachable env s := h.reaches
  have hjoin : ∀ step ∈ env.workflow.steps, step.join = .all := by
    intro step hstep
    obtain ⟨node, -, hc⟩ := step_compiled hparse hstep
    exact hc.join
  have hsettled : Settled env s := by
    refine h.invariant ?_ ?_
    · rintro s ⟨-, input, rfl⟩
      exact settled_start env input
    · intro s c s' hr hi hok hs
      have hr' : Reachable env s := hr.reaches
      exact hi.step hr'.ledger hjoin hr'.residence hok hs
  have hdone := hreach.loopInv.done out hret
  have hrun : s.main.Running := by
    rw [hret]
    trivial
  have hbegan : ∀ i v, Arrived s.trace x i v → ∃ i v, Event.began x i v ∈ s.trace :=
    fun i v harr => ⟨i, v, begun_of_returned hreach hret harr⟩
  have hcont : continuedTo s.trace x = true → ∃ i v, Event.began x i v ∈ s.trace := by
    intro hc
    obtain ⟨e, he, hx⟩ := List.any_eq_true.mp hc
    cases e with
    | continued y i v =>
      obtain rfl := beq_iff_eq.mp hx
      exact hbegan i v (.inr he)
    | _ => cases hx
  obtain hc | hreq := hx
  · exact hcont hc
  · have hmem := requested_reachable hreach (hreach.ledger.channel_nil hdone.1) hreq
    obtain hall | ⟨-, hspawns⟩ := hsettled hrun hdone.1
    · have hent := hall x hmem
      rw [State.entered, Bool.or_eq_true, decide_eq_true_eq] at hent
      obtain hexec | hc := hent
      · obtain ⟨i, hi⟩ := (hreach.spawning.executed x).mp hexec
        exact hbegan i 0 (.inl ⟨hi, rfl⟩)
      · exact hcont hc
    · rw [hret] at hspawns
      exact hspawns.elim

/-! ## A lost step -/

def fanSchema : WorkflowSchema where
  workflow := "fan"
  nodes := StrMap.ofList
    [("a", { then_ := some (.multiple ["b", "c"]) }),
      ("b", { return_ := some (.str "done") }),
      ("c", {})]
    (by decide)

/-- Both requests and then the `Node` message are handled before the finished task is joined. With
one slot the task itself takes it, so nothing is spawned. -/
def lostScript : List (Choice StepAnswer) :=
  runStep 0 ++ ([.task 0, .task 0, .task 0] : List (Choice StepAnswer)) ++
    ([.recv 0 ["a"], .main, .main, .recv 0 ["a", "b"], .main, .main,
      .recv 0 ["a", "b", "c"], .main, .main, .join 0, .main] : List (Choice StepAnswer))

/-- With free slots the same workflow runs to its end. -/
def fanScript : List (Choice StepAnswer) :=
  runStep 0 ++ ([.task 0, .task 0, .task 0] : List (Choice StepAnswer)) ++
    ([.recv 0 ["a"], .main, .main, .main, .main, .recv 0 ["a", "b"], .main, .main, .main, .main,
      .recv 0 ["a", "b", "c"], .main, .main, .main, .main, .main, .join 0, .main] :
      List (Choice StepAnswer)) ++
    runStep 0 ++ ([.task 0, .recv 0 ["a", "b", "c"], .main, .main, .main, .main, .main,
      .join 0, .main] : List (Choice StepAnswer)) ++
    runStep 0 ++ ([.task 0, .recv 0 ["a", "b", "c"], .main, .main, .main, .main, .main,
      .join 0, .main] : List (Choice StepAnswer))

def MainPc.returnedOk : MainPc → Bool
  | .returned (.ok _) => true
  | _ => false

theorem returned_of_returnedOk {pc : MainPc} (h : pc.returnedOk = true) :
    ∃ out, pc = .returned (.ok out) := by
  cases pc with
  | returned r =>
    cases r with
    | ok out => exact ⟨out, rfl⟩
    | error err => cases h
  | _ => cases h

def oneSlot : EngineConfig := { EngineConfig.default with maxConcurrentNodes := 1 }

/-- With `max_concurrent_nodes = 1` a run returns `Ok` although a requested step never began. -/
theorem fan_step_lost : ∃ w s out,
    parse plainExternals oneSlot fanSchema = .ok w ∧ Reachable (plainEnv oneSlot w) s ∧
      s.main = .returned (.ok out) ∧ requested s.trace "b" = true ∧
      ¬∃ i v, Event.began "b" i v ∈ s.trace := by
  have hrun : parsedRun (plainEnv oneSlot) (fun _ _ _ => True) oneSlot
      fanSchema (fun _ => lostScript)
      (fun _ s => s.main.returnedOk && requested s.trace "b" &&
        !s.trace.any (Event.begins "b")) = true := by
    decide +kernel
  obtain ⟨w, s, hw, hs, hp⟩ := parsedRun_reaches hrun (fun _ => rfl) (by decide)
  rw [Bool.and_eq_true, Bool.and_eq_true, Bool.not_eq_true'] at hp
  obtain ⟨⟨hret, hreq⟩, hnone⟩ := hp
  obtain ⟨out, hout⟩ := returned_of_returnedOk hret
  refine ⟨w, s, out, hw, hs, hout, hreq, ?_⟩
  rintro ⟨i, v, hmem⟩
  have hany : s.trace.any (Event.begins "b") = true :=
    List.any_eq_true.mpr ⟨_, hmem, rfl⟩
  rw [hnone] at hany
  cases hany

theorem fan_steps_begin : ∃ w s out,
    parse plainExternals EngineConfig.default fanSchema = .ok w ∧
      ReachesBy (Trans (plainEnv EngineConfig.default w)) (LastNodeSpawns _)
        (Initial (plainEnv EngineConfig.default w)) s ∧
      s.main = .returned (.ok out) ∧ requested s.trace "b" = true ∧
      ∃ i v, Event.began "b" i v ∈ s.trace := by
  have hrun : parsedRun (plainEnv EngineConfig.default) LastNodeSpawns EngineConfig.default
      fanSchema (fun _ => fanScript)
      (fun _ s => s.main.returnedOk && requested s.trace "b") = true := by
    decide +kernel
  obtain ⟨w, s, hw, hs, hp⟩ := parsedRun_reaches hrun (fun _ => rfl) (by decide)
  rw [Bool.and_eq_true] at hp
  obtain ⟨out, hout⟩ := returned_of_returnedOk hp.1
  exact ⟨w, s, out, hw, hs, hout, hp.2, activated_steps_begin
    (plainEnv EngineConfig.default w) hw s hs hout "b" (.inr hp.2)⟩

end Konf.Executor
