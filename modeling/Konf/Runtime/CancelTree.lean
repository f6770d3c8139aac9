import Konf.Runtime.Terminal

/-! # Cancellation and nested runs

The runs of a runtime, in the order in which they were started; a run's id is its place in that order.
A step that calls a workflow as a tool starts a run of its own (`workflow_tool.rs`): with its own token,
and with no parent in the process table. `Runtime::cancel` cancels the run's token and goes on to the
runs that name it as their parent, of which there are none. The task that made the call is aborted, and
the nested run goes on. -/

namespace Konf.Runtime
open Konf.Substrate Konf.Executor Konf.Transition Konf.Fallible
set_option autoImplicit false

/-- A run of the process table. `caller` is a ghost: the run and the task whose step called it. -/
structure TreeRun where
  launch : Launch
  live : LiveRun
  parentId : Option ℕ
  caller : Option (ℕ × ℕ)

def TreeRun.root (l : Launch) : TreeRun := ⟨l, l.start, none, none⟩

/-- The run that a workflow called as a tool starts. -/
def TreeRun.nested (l : Launch) (run task : ℕ) (scope : ExecutionScope) (ctx : ExecutionContext)
    (wf : Workflow) (input : Json) : TreeRun :=
  let inner : Launch := { l with
    scope := scope, ctx := ctx, workflow := wf, input := input, streaming := false }
  ⟨inner, inner.start, none, some (run, task)⟩

def TreeRun.withLive (t : TreeRun) (live : LiveRun) : TreeRun := { t with live := live }

def TreeRun.cancelToken (t : TreeRun) : TreeRun :=
  t.withLive { t.live with worker := t.live.worker.cancel }

abbrev Forest : Type := List TreeRun

namespace Forest

def childrenOf (f : Forest) (i : ℕ) : List ℕ :=
  (List.range f.length).filter fun j => (f[j]?.bind TreeRun.parentId) == some i

/-- `Runtime::cancel`, to a depth of parent links. A run that is not running is left alone. -/
def cancel : ℕ → Forest → ℕ → Forest
  | 0, f, _ => f
  | depth + 1, f, i => match f[i]? with
    | none => f
    | some t =>
      if t.live.status.isRunning then
        let f : Forest := f.set i t.cancelToken
        (f.childrenOf i).foldl (fun f j =>
          if f[j]?.any fun u => u.live.status.isTerminal then f else cancel depth f j) f
      else f

def taskAt (f : Forest) (i k : ℕ) : Option Task := (f[i]?).bind fun t => t.live.worker.tasks[k]?

def begun (f : Forest) (j : ℕ) : List StepId := (f[j]?.map fun t => t.live.worker.begun).getD []

end Forest

/-- `move` is a move of one run; with `work cancel` it is a cancellation that had looked at the status
before. -/
inductive ForestMove
  | start (l : Launch)
  | move (i : ℕ) (m : LifeMove)
  | nest (i k : ℕ)
  | cancel (i : ℕ)

inductive ForestStep (f : Forest) : ForestMove → Forest → Prop
  | start (l : Launch) : ForestStep f (.start l) (f ++ [.root l])
  | move {i : ℕ} {t : TreeRun} {m : LifeMove} {live : LiveRun} (hi : f[i]? = some t)
      (h : LifeStep t.launch t.live m live) : ForestStep f (.move i m) (f.set i (t.withLive live))
  | nest {i k : ℕ} {t : TreeRun} {task : Task} {seen : Outputs} {fresh : Uuid} {tool : Tool}
      {env received : Envelope} {wf : Workflow} {table : ProcessTable} {child : ExecutionScope}
      {ctx : ExecutionContext} (hi : f[i]? = some t) (hk : f.taskAt i k = some task)
      (hpc : task.pc = .executing seen)
      (hd : (t.launch.sys.stepContext t.launch.scope t.launch.ctx t.launch.workflow).dispatch
        t.launch.sys.lib fresh task.current seen = .ok (tool, env))
      (hcall : tool.deliver env = .ok (.workflow wf, received))
      (hnest : Handoff t.launch.sys table (.invoked (.workflow wf) received)
        (.running child ctx wf)) :
      ForestStep f (.nest i k)
        (f ++ [.nested t.launch i task.id child ctx wf received.payload])
  | cancel (i : ℕ) : ForestStep f (.cancel i) (f.cancel f.length i)

inductive Forest.InTree (f : Forest) (root : ℕ) : ℕ → Prop
  | root : InTree f root root
  | nested {i j task : ℕ} {u : TreeRun} (h : InTree f root i) (hj : f[j]? = some u)
      (hcaller : u.caller = some (i, task)) : InTree f root j

/-! ## Evaluation -/

/-- The forest after a move. A nested run is admitted against an empty process table. -/
def Forest.apply (f : Forest) : ForestMove → Option Forest
  | .start l => some (f ++ [.root l])
  | .move i m => (f[i]?).bind fun t =>
    (t.live.apply t.launch m).map fun live => f.set i (t.withLive live)
  | .nest i k => (f[i]?).bind fun t => (f.taskAt i k).bind fun task => match task.pc with
    | .executing seen => do
      let l := t.launch
      let (tool, env) ← ((l.sys.stepContext l.scope l.ctx l.workflow).dispatch l.sys.lib 0
        task.current seen).toOption
      let (base, received) ← (tool.deliver env).toOption
      let caller := ExecutionScope.fromEnvelope received
      let child ← (caller.childScope caller.capabilities none).toOption
      let _ ← (child.validateStart ∅).toOption
      match base with
      | .workflow wf =>
        some (f ++ [.nested l i task.id child (.fromEnvelope received) wf received.payload])
      | _ => none
    | _ => none
  | .cancel i => some (f.cancel f.length i)

theorem Forest.apply_sound {f f' : Forest} {m : ForestMove} (h : f.apply m = some f') :
    ForestStep f m f' := by
  cases m with
  | start l =>
    cases h
    exact .start l
  | move i m =>
    obtain ⟨t, hi, h⟩ := Option.bind_eq_some_iff.mp h
    obtain ⟨live, hlive, rfl⟩ := Option.map_eq_some_iff.mp h
    exact .move hi (LiveRun.apply_sound hlive)
  | nest i k =>
    obtain ⟨t, hi, h⟩ := Option.bind_eq_some_iff.mp h
    obtain ⟨task, hk, h⟩ := Option.bind_eq_some_iff.mp h
    split at h
    · rename_i seen hpc
      obtain ⟨⟨tool, env⟩, hd, h⟩ := Option.bind_eq_some_iff.mp h
      obtain ⟨⟨base, received⟩, hcall, h⟩ := Option.bind_eq_some_iff.mp h
      obtain ⟨child, hchild, h⟩ := Option.bind_eq_some_iff.mp h
      obtain ⟨⟨⟩, hstart, h⟩ := Option.bind_eq_some_iff.mp h
      split at h
      · cases h
        exact .nest hi hk hpc (ok_of_toOption hd) (ok_of_toOption hcall)
          (.nest (ok_of_toOption hchild) (ok_of_toOption hstart))
      · cases h
    · cases h
  | cancel i =>
    cases h
    exact .cancel i

/-! ## Calls that are waited for -/

def isExecuting : TaskPc → Bool
  | .executing _ => true
  | _ => false

def Forest.nestedSettled (f : Forest) (i task : ℕ) : Bool :=
  f.all fun u => !(u.caller == some (i, task)) || u.live.worker.settled

/-- When the call of a task ends, answered or aborted, the runs it started have returned. -/
def Forest.awaits (f : Forest) : ForestMove → Bool
  | .move i (.work (.answer k _)) | .move i (.work (.abort k)) => match f.taskAt i k with
    | some task => !isExecuting task.pc || f.nestedSettled i task.id
    | none => true
  | _ => true

def Awaited (f : Forest) (m : ForestMove) : Prop := f.awaits m = true

/-! ## What a move does to the runs -/

section Moves
variable {f f' : Forest} {m : ForestMove}

theorem childrenOf_nil (h : ∀ u ∈ f, u.parentId = none) (i : ℕ) : f.childrenOf i = [] := by
  refine List.filter_eq_nil_iff.mpr ?_
  intro j _
  cases hj : f[j]? with
  | none => simp
  | some u => simp [h u (List.mem_of_getElem? hj)]

theorem LiveRun.cancel_token (l : Launch) (r : LiveRun) :
    r = { r with worker := r.worker.cancel } ∨
      LifeStep l r (.work .cancel) { r with worker := r.worker.cancel } := by
  cases hw : r.worker with
  | absent | panicked =>
    left
    rw [Worker.cancel, ← hw]
  | running s => exact .inr (.work hw .cancel)

/-- Without parent links a cancellation reaches the run itself and no other. -/
theorem cancel_eq (h : ∀ u ∈ f, u.parentId = none) (depth i : ℕ) :
    f.cancel depth i = f ∨ ∃ t, f[i]? = some t ∧ f.cancel depth i = f.set i t.cancelToken := by
  cases depth with
  | zero => exact .inl rfl
  | succ depth =>
    rw [Forest.cancel]
    cases hi : f[i]? with
    | none => exact .inl rfl
    | some t =>
      simp only
      split_ifs with hrunning
      · right
        have hlinks : ∀ u ∈ f.set i t.cancelToken, u.parentId = none := by
          intro u hu
          obtain hu | rfl := List.mem_or_eq_of_mem_set hu
          · exact h u hu
          · exact h t (List.mem_of_getElem? hi)
        rw [childrenOf_nil hlinks]
        exact ⟨t, rfl, rfl⟩
      · exact .inl rfl

/-- A move starts a run without a caller, moves one run, or starts a run for an executing task. -/
inductive ForestStep.Kind (f : Forest) : ForestMove → Forest → Prop
  | idle {m : ForestMove} : Kind f m f
  | root {m : ForestMove} (l : Launch) : Kind f m (f ++ [.root l])
  | move {m : ForestMove} {i : ℕ} {t : TreeRun} {lm : LifeMove} {live : LiveRun}
      (hm : m = .move i lm ∨ lm = .work .cancel) (hi : f[i]? = some t)
      (h : LifeStep t.launch t.live lm live) : Kind f m (f.set i (t.withLive live))
  | nest {m : ForestMove} {i k : ℕ} {task : Task} {seen : Outputs} {u : TreeRun}
      (hk : f.taskAt i k = some task) (hpc : task.pc = .executing seen)
      (hcaller : u.caller = some (i, task.id)) (hparent : u.parentId = none)
      (hlive : u.live = u.launch.start) : Kind f m (f ++ [u])

theorem ForestStep.kind (h : ForestStep f m f') (hlinks : ∀ u ∈ f, u.parentId = none) :
    ForestStep.Kind f m f' := by
  cases h with
  | start l => exact .root l
  | move hi h => exact .move (.inl rfl) hi h
  | nest hi hk hpc _ _ _ => exact .nest hk hpc rfl rfl rfl
  | cancel i =>
    obtain heq | ⟨t, hi, heq⟩ := cancel_eq hlinks f.length i
    · rw [heq]
      exact .idle
    · rw [heq]
      obtain hsame | hstep := t.live.cancel_token t.launch
      · obtain ⟨hlt, hget⟩ := List.getElem?_eq_some_iff.mp hi
        have hset : f.set i t.cancelToken = f := by
          rw [TreeRun.cancelToken, ← hsame, ← hget]
          exact List.set_getElem_self hlt
        rw [hset]
        exact .idle
      · exact .move (.inr rfl) hi hstep

end Moves

/-! ## Unsettled runs are waited for -/

theorem executing_stays {env : ExecutorEnv} {s s' : State} {c : Choice env.Answer} {task : Task}
    {seen : Outputs} (h : Trans env s c s') (hmem : task ∈ s.tasks)
    (hpc : task.pc = .executing seen) :
    task ∈ s'.tasks ∨ ∃ k, s.tasks[k]? = some task ∧ (c = .abort k ∨ ∃ a, c = .answer k a) := by
  obtain ⟨n, hn⟩ := List.mem_iff_getElem?.mp hmem
  have herase : ∀ k, k ≠ n → task ∈ s.tasks.eraseIdx k := by
    intro k hne
    exact List.mem_eraseIdx_iff_getElem?.mpr ⟨n, Ne.symm hne, hn⟩
  have hset : ∀ k t, k ≠ n → task ∈ s.tasks.set k t := by
    intro k t hne
    exact List.mem_of_getElem? ((List.getElem?_set_ne hne).trans hn)
  cases h with
  | @task k t t' e hk hnext =>
    refine .inl ?_
    rw [State.move_tasks]
    refine hset k t' ?_
    rintro rfl
    cases hk.symm.trans hn
    rw [Task.next, hpc] at hnext
    cases hnext
  | @answer k t seen' a hk hpc' =>
    by_cases hne : k = n
    · subst hne
      exact .inr ⟨k, hn, .inr ⟨a, rfl⟩⟩
    · rw [State.move_tasks]
      exact .inl (hset k _ hne)
  | @join k t result _ hk hpc' =>
    refine .inl (herase k ?_)
    rintro rfl
    cases hk.symm.trans hn
    cases hpc.symm.trans hpc'
  | @abort k t err _ hk =>
    by_cases hne : k = n
    · subst hne
      exact .inr ⟨k, hn, .inl rfl⟩
    · exact .inl (herase k hne)
  | depsMet _ _ => exact .inl (List.mem_append_left _ hmem)
  | _ => exact .inl hmem

/-- Run `i` has a task with this id in a tool call. -/
def Forest.Calling (f : Forest) (i id : ℕ) : Prop :=
  ∃ t task seen, f[i]? = some t ∧ task ∈ t.live.worker.tasks ∧ task.id = id ∧
    task.pc = .executing seen

/-- Every run is one its executor can come to, and none has a parent in the process table. -/
structure Forest.Sane (f : Forest) : Prop where
  sound : ∀ u ∈ f, u.live.worker.Sound u.launch
  links : ∀ u ∈ f, u.parentId = none

/-- A nested run has returned, or the call that started it goes on. -/
structure ForestInv (f : Forest) : Prop where
  sane : f.Sane
  called : ∀ u ∈ f, ∀ i id, u.caller = some (i, id) → u.live.worker.settled = true ∨ f.Calling i id

section Step
variable {f f' : Forest} {m : ForestMove}

theorem Forest.Sane.append (hi : f.Sane) {u : TreeRun} (hlive : u.live = u.launch.start)
    (hparent : u.parentId = none) : Forest.Sane (f ++ [u]) := by
  refine ⟨?_, ?_⟩
  · intro v hv
    obtain hv | rfl := List.mem_append.mp hv |>.imp_right List.mem_singleton.mp
    · exact hi.sound v hv
    · rw [hlive]
      exact v.launch.start_sound
  · intro v hv
    obtain hv | rfl := List.mem_append.mp hv |>.imp_right List.mem_singleton.mp
    · exact hi.links v hv
    · exact hparent

theorem Forest.Sane.move (hi : f.Sane) {n : ℕ} {t : TreeRun} {lm : LifeMove} {live : LiveRun}
    (ht : t ∈ f) (hstep : LifeStep t.launch t.live lm live) :
    Forest.Sane (f.set n (t.withLive live)) := by
  refine ⟨?_, ?_⟩
  · intro u hu
    obtain hu | rfl := List.mem_or_eq_of_mem_set hu
    · exact hi.sound u hu
    · exact hstep.sound (hi.sound t ht)
  · intro u hu
    obtain hu | rfl := List.mem_or_eq_of_mem_set hu
    · exact hi.links u hu
    · exact hi.links t ht

theorem Forest.Calling.append {i id : ℕ} (h : f.Calling i id) (u : TreeRun) :
    Forest.Calling (f ++ [u]) i id := by
  obtain ⟨t, task, seen, hi, hrest⟩ := h
  have hlt := (List.getElem?_eq_some_iff.mp hi).1
  exact ⟨t, task, seen, (List.getElem?_append_left hlt).trans hi, hrest⟩

theorem Forest.calling_of_taskAt {i k : ℕ} {task : Task} {seen : Outputs}
    (hk : f.taskAt i k = some task) (hpc : task.pc = .executing seen) : f.Calling i task.id := by
  obtain ⟨t, hi, htask⟩ := Option.bind_eq_some_iff.mp hk
  exact ⟨t, task, seen, hi, List.mem_of_getElem? htask, rfl, hpc⟩

theorem Forest.Calling.not_settled {i id : ℕ} {t : TreeRun} (h : f.Calling i id)
    (hi : f[i]? = some t) (hs : t.live.worker.Sound t.launch) : t.live.worker.settled = false := by
  obtain ⟨t', task, seen, hi', hmem, -⟩ := h
  cases hi.symm.trans hi'
  by_contra hset
  rw [hs.tasks_nil (Bool.not_eq_false _ ▸ hset)] at hmem
  cases hmem

/-- A move of one run keeps the calls of all runs, or ends a call whose runs have returned. -/
theorem Forest.Calling.move {i id n : ℕ} {t : TreeRun} {lm : LifeMove} {live : LiveRun}
    (h : f.Calling i id) (hn : f[n]? = some t) (hstep : LifeStep t.launch t.live lm live)
    (hok : Awaited f (.move n lm)) :
    Forest.Calling (f.set n (t.withLive live)) i id ∨ f.nestedSettled i id = true := by
  obtain ⟨t', task, seen, hi, hmem, hid, hpc⟩ := h
  by_cases hne : n = i
  · subst hne
    cases hn.symm.trans hi
    have hget : (f.set n (t.withLive live))[n]? = some (t.withLive live) :=
      List.getElem?_set_self (List.getElem?_eq_some_iff.mp hn).1
    obtain hw | ⟨c, s, s', rfl, hw, htrans, hw'⟩ := hstep.worker_cases
    · refine .inl ⟨_, task, seen, hget, ?_, hid, hpc⟩
      rw [TreeRun.withLive, hw]
      exact hmem
    · rw [hw] at hmem
      obtain hstays | ⟨k, hk, hends⟩ := executing_stays htrans hmem hpc
      · refine .inl ⟨_, task, seen, hget, ?_, hid, hpc⟩
        rw [TreeRun.withLive, hw']
        exact hstays
      · have htask : f.taskAt n k = some task := by
          rw [Forest.taskAt, hn, Option.bind_some, hw]
          exact hk
        have hawaits : (!isExecuting task.pc || f.nestedSettled n task.id) = true := by
          obtain rfl | ⟨a, rfl⟩ := hends
          · simpa [Awaited, Forest.awaits, htask] using hok
          · simpa [Awaited, Forest.awaits, htask] using hok
        rw [hpc, hid] at hawaits
        exact .inr hawaits
  · exact .inl ⟨t', task, seen, (List.getElem?_set_ne hne).trans hi, hmem, hid, hpc⟩

theorem Forest.settled_of_nestedSettled {i id : ℕ} {u : TreeRun}
    (h : f.nestedSettled i id = true) (hu : u ∈ f) (hcaller : u.caller = some (i, id)) :
    u.live.worker.settled = true := by
  have hu := List.all_eq_true.mp h u hu
  simpa [hcaller] using hu

theorem ForestInv.append (hi : ForestInv f) {u : TreeRun} (hlive : u.live = u.launch.start)
    (hparent : u.parentId = none)
    (hcaller : ∀ i id, u.caller = some (i, id) → f.Calling i id) : ForestInv (f ++ [u]) := by
  refine ⟨hi.sane.append hlive hparent, ?_⟩
  intro v hv i id hv'
  obtain hv | rfl := List.mem_append.mp hv |>.imp_right List.mem_singleton.mp
  · exact (hi.called v hv i id hv').imp_right fun h => h.append u
  · exact .inr ((hcaller i id hv').append v)

theorem ForestInv.move (hi : ForestInv f) {n : ℕ} {t : TreeRun} {lm : LifeMove} {live : LiveRun}
    (hn : f[n]? = some t) (hstep : LifeStep t.launch t.live lm live)
    (hok : Awaited f (.move n lm)) : ForestInv (f.set n (t.withLive live)) := by
  have ht : t ∈ f := List.mem_of_getElem? hn
  have hcalled : ∀ u ∈ f, ∀ i id, u.caller = some (i, id) → u.live.worker.settled = true ∨
      Forest.Calling (f.set n (t.withLive live)) i id := by
    intro u hu i id hcaller
    obtain hset | hcalling := hi.called u hu i id hcaller
    · exact .inl hset
    · obtain hcalling | hsettled := hcalling.move hn hstep hok
      · exact .inr hcalling
      · exact .inl (Forest.settled_of_nestedSettled hsettled hu hcaller)
  refine ⟨hi.sane.move ht hstep, ?_⟩
  intro u hu i id hcaller
  obtain hu | rfl := List.mem_or_eq_of_mem_set hu
  · exact hcalled u hu i id hcaller
  · exact (hcalled t ht i id hcaller).imp_left (hstep.settled (hi.sane.sound t ht))

theorem ForestInv.step (hi : ForestInv f) (hok : Awaited f m) (h : ForestStep f m f') :
    ForestInv f' := by
  cases h.kind hi.sane.links with
  | idle => exact hi
  | root l => exact hi.append rfl rfl nofun
  | move hm hn hstep =>
    obtain rfl | rfl := hm
    · exact hi.move hn hstep hok
    · exact hi.move hn hstep rfl
  | nest hk hpc hcaller hparent hlive =>
    refine hi.append hlive hparent ?_
    intro i id hsame
    cases hcaller.symm.trans hsame
    exact Forest.calling_of_taskAt hk hpc

theorem reaches_forestInv (h : ReachesBy ForestStep Awaited (· = []) f) : ForestInv f := by
  induction h with
  | start h =>
    subst h
    have hnone : ∀ u : TreeRun, u ∉ ([] : Forest) := fun u => List.not_mem_nil
    exact ⟨⟨fun u hu => absurd hu (hnone u), fun u hu => absurd hu (hnone u)⟩,
      fun u hu => absurd hu (hnone u)⟩
  | tail _ hok hstep ih => exact ih.step hok hstep

/-- When a run has returned, so have all runs of its tree. -/
theorem tree_settled (hi : ForestInv f) {root j : ℕ} {t u : TreeRun} (hroot : f[root]? = some t)
    (hset : t.live.worker.settled = true) (hj : f.InTree root j) (hu : f[j]? = some u) :
    u.live.worker.settled = true := by
  induction hj generalizing u with
  | root =>
    cases hroot.symm.trans hu
    exact hset
  | @nested i j task v hin hv hcaller ih =>
    cases hv.symm.trans hu
    obtain hsettled | hcalling := hi.called v (List.mem_of_getElem? hv) i task hcaller
    · exact hsettled
    · obtain ⟨t', task', seen, hi', -⟩ := id hcalling
      have hbusy := hcalling.not_settled hi' (hi.sane.sound t' (List.mem_of_getElem? hi'))
      rw [ih hi'] at hbusy
      cases hbusy

/-- What a settled tree keeps: its runs have the steps they had, and no run joins it. -/
structure TreeRests (f : Forest) (root : ℕ) (f' : Forest) : Prop where
  sane : f'.Sane
  rests : ∀ j, f.InTree root j → ∃ u u', f[j]? = some u ∧ f'[j]? = some u' ∧
    u'.live.worker.settled = true ∧ u'.live.worker.trace = u.live.worker.trace
  closed : ∀ j u i task, f'[j]? = some u → u.caller = some (i, task) → f.InTree root i →
    f.InTree root j

theorem TreeRests.append {root : ℕ} (hi : TreeRests f root f') {u : TreeRun}
    (hlive : u.live = u.launch.start) (hparent : u.parentId = none)
    (hcaller : ∀ i id, u.caller = some (i, id) → f'.Calling i id) :
    TreeRests f root (f' ++ [u]) := by
  refine ⟨hi.sane.append hlive hparent, ?_, ?_⟩
  · intro j hj
    obtain ⟨v, v', hv, hv', hrest⟩ := hi.rests j hj
    have hlt := (List.getElem?_eq_some_iff.mp hv').1
    exact ⟨v, v', hv, (List.getElem?_append_left hlt).trans hv', hrest⟩
  · intro j v i task hj hv hin
    by_cases hlt : j < f'.length
    · rw [List.getElem?_append_left hlt] at hj
      exact hi.closed j v i task hj hv hin
    · -- the new run has an executing caller, so its caller is not of the tree
      rw [List.getElem?_append_right (by omega)] at hj
      have hsame : v = u := List.mem_singleton.mp (List.mem_of_getElem? hj)
      subst hsame
      obtain ⟨w, w', -, hw', hset, -⟩ := hi.rests i hin
      have hbusy :=
        (hcaller i task hv).not_settled hw' (hi.sane.sound w' (List.mem_of_getElem? hw'))
      rw [hset] at hbusy
      cases hbusy

theorem TreeRests.move {root n : ℕ} (hi : TreeRests f root f') {t : TreeRun} {lm : LifeMove}
    {live : LiveRun} (hn : f'[n]? = some t) (hstep : LifeStep t.launch t.live lm live) :
    TreeRests f root (f'.set n (t.withLive live)) := by
  have ht := List.mem_of_getElem? hn
  have hlt := (List.getElem?_eq_some_iff.mp hn).1
  refine ⟨hi.sane.move ht hstep, ?_, ?_⟩
  · intro j hj
    obtain ⟨v, v', hv, hv', hset, htrace⟩ := hi.rests j hj
    by_cases hne : n = j
    · subst hne
      cases hn.symm.trans hv'
      have hsound := hi.sane.sound t ht
      exact ⟨v, _, hv, List.getElem?_set_self hlt, hstep.settled hsound hset,
        (hstep.trace hsound hset).trans htrace⟩
    · exact ⟨v, v', hv, (List.getElem?_set_ne hne).trans hv', hset, htrace⟩
  · intro j v i task hj hv hin
    by_cases hne : n = j
    · subst hne
      cases (List.getElem?_set_self hlt).symm.trans hj
      exact hi.closed n t i task hn hv hin
    · exact hi.closed j v i task ((List.getElem?_set_ne hne).symm.trans hj) hv hin

theorem TreeRests.step {root : ℕ} {f'' : Forest} (hi : TreeRests f root f')
    (h : ForestStep f' m f'') : TreeRests f root f'' := by
  cases h.kind hi.sane.links with
  | idle => exact hi
  | root l => exact hi.append rfl rfl nofun
  | move _ hn hstep => exact hi.move hn hstep
  | nest hk hpc hcaller hparent hlive =>
    refine hi.append hlive hparent ?_
    intro i id hsame
    cases hcaller.symm.trans hsame
    exact Forest.calling_of_taskAt hk hpc

theorem Forest.InTree.exists_run {root j : ℕ} {t : TreeRun} (hroot : f[root]? = some t)
    (hj : f.InTree root j) : ∃ u, f[j]? = some u := by
  cases hj with
  | root => exact ⟨t, hroot⟩
  | nested _ hj _ => exact ⟨_, hj⟩

/-- Once a run has returned, its tree rests for good. -/
theorem settled_tree_rests (hi : ForestInv f) {root : ℕ} {t : TreeRun} (hroot : f[root]? = some t)
    (hset : t.live.worker.settled = true) (hlater : Reaches ForestStep (· = f) f') :
    TreeRests f root f' := by
  induction hlater with
  | start h =>
    subst h
    refine ⟨hi.sane, ?_, ?_⟩
    · intro j hj
      obtain ⟨u, hu⟩ := hj.exists_run hroot
      exact ⟨u, u, hu, hu, tree_settled hi hroot hset hj hu, rfl⟩
    · intro j u i task hu hcaller hin
      exact .nested hin hu hcaller
  | tail _ _ hstep ih => exact ih.step hstep

end Step

/-- The run's token is cancelled, and its executor has returned a cancellation. -/
def TreeRun.cancelReturned (t : TreeRun) : Bool :=
  match t.live.worker with
  | .running s => s.cancelled && match s.main with
    | .returned (.error e) => e.isCancelled
    | _ => false
  | _ => false

theorem TreeRun.settled_of_cancelReturned {t : TreeRun} (h : t.cancelReturned = true) :
    t.live.worker.settled = true := by
  unfold TreeRun.cancelReturned at h
  split at h
  · rename_i s hw
    rw [Bool.and_eq_true] at h
    have hmain := h.2
    split at hmain
    · rename_i e hm
      rw [hw]
      simp [Worker.settled, Worker.result, hm]
    · cases hmain
  · cases h

/-- If every call of a workflow is waited for, then once a cancelled run has returned, no run of its
tree begins another step, and no run joins the tree. -/
theorem cancelled_tree_rests (f f' : Forest) (root : ℕ) (t : TreeRun)
    (h : ReachesBy ForestStep Awaited (· = []) f) (hroot : f[root]? = some t)
    (hcancel : t.cancelReturned = true) (hlater : Reaches ForestStep (· = f) f') (j : ℕ)
    (hj : f'.InTree root j) : f'.begun j = f.begun j := by
  have hset := TreeRun.settled_of_cancelReturned hcancel
  have hrests := settled_tree_rests (reaches_forestInv h) hroot hset hlater
  have hin : f.InTree root j := by
    induction hj with
    | root => exact .root
    | nested _ hj hcaller ih => exact hrests.closed _ _ _ _ hj hcaller ih
  obtain ⟨u, u', hu, hu', -, htrace⟩ := hrests.rests j hin
  simp only [Forest.begun, hu, hu', Option.map_some, Option.getD_some, Worker.begun, htrace]

/-! ## A cancelled caller -/

/-- A workflow whose one step calls the workflow of two steps. -/
def callingLaunch : Launch where
  sys := baseSystem [.plain "echo", .workflow pairWf]
  scope := callerScope
  ctx := demoContext
  workflow := oneStep "outer" (Step.new "call" "workflow:pair")
  input := .null
  streaming := false

/-- The outer run comes to its call, which starts the nested run. -/
def callScript : List ForestMove :=
  [.start callingLaunch, .move 0 (.work (.task 0)), .move 0 (.work (.task 0)),
    .move 0 (.work (.task 0)), .nest 0 0]

def cancelScript : List ForestMove :=
  [.cancel 0, .move 0 (.work .seeCancel), .move 0 (.work (.abort 0)), .move 0 (.work .main)]

/-- The forest in which run 0 has called run 1 and has returned its cancellation. -/
def Forest.outerCancelled (f : Forest) : Bool :=
  (f[0]?.any TreeRun.cancelReturned) && f[1]?.any fun u => u.caller.any fun c => c.1 == 0

theorem Forest.outerCancelled_spec {f : Forest} (h : f.outerCancelled = true) :
    (∃ t, f[0]? = some t ∧ t.cancelReturned = true) ∧ f.InTree 0 1 := by
  rw [Forest.outerCancelled, Bool.and_eq_true] at h
  obtain ⟨u, hu, hcaller⟩ := (Option.any_eq_true ..).mp h.2
  obtain ⟨⟨i, task⟩, hcaller, hzero⟩ := (Option.any_eq_true ..).mp hcaller
  cases beq_iff_eq.mp hzero
  exact ⟨(Option.any_eq_true ..).mp h.1, .nested .root hu hcaller⟩

instance (f : Forest) (m : ForestMove) : Decidable (Awaited f m) :=
  inferInstanceAs (Decidable (f.awaits m = true))

/-- The nested run has returned when its caller is cancelled: nothing of the tree moves on. -/
theorem returned_tree_rests : ∃ f f', ReachesBy ForestStep Awaited (· = []) f ∧
    Reaches ForestStep (· = f) f' ∧ f.InTree 0 1 ∧ f'.begun 1 = f.begun 1 := by
  have hrun : (exec (fun (f : Forest) m => if Awaited f m then f.apply m else none) []
      (callScript ++ (pairScript .null).map (.move 1) ++ cancelScript)).any (fun f =>
        f.outerCancelled && (exec Forest.apply f [.move 1 .recv, .cancel 1]).any
          Forest.outerCancelled) = true := by
    decide +kernel
  obtain ⟨f, hexec, hf⟩ := (Option.any_eq_true ..).mp hrun
  rw [Bool.and_eq_true] at hf
  obtain ⟨f', hexec', hf'⟩ := (Option.any_eq_true ..).mp hf.2
  have hreach : ReachesBy ForestStep Awaited (· = []) f :=
    exec_guarded_reachesBy (fun _ _ _ => Forest.apply_sound) (.start rfl) hexec
  have hlater : Reaches ForestStep (· = f) f' :=
    exec_reaches (fun _ _ _ => Forest.apply_sound) (.start rfl) hexec'
  obtain ⟨⟨t, hroot, hcancel⟩, htree⟩ := Forest.outerCancelled_spec hf.1
  have htree' := (Forest.outerCancelled_spec hf').2
  exact ⟨f, f', hreach, hlater, htree,
    cancelled_tree_rests f f' 0 t hreach hroot hcancel hlater 1 htree'⟩

/-- The outer run is cancelled while the first step of the nested run executes: the outer run returns
its cancellation, and the nested run begins its second step. -/
theorem nested_run_outlives_cancel : ∃ f f' root t j, Reaches ForestStep (· = []) f ∧
    f[root]? = some t ∧ t.cancelReturned = true ∧ Reaches ForestStep (· = f) f' ∧
    f'.InTree root j ∧ f.begun j = ["a"] ∧ f'.begun j = ["a", "b"] := by
  have hrun : (exec Forest.apply []
      (callScript ++ [.move 1 (.work (.task 0)), .move 1 (.work (.task 0))] ++ cancelScript)).any
      (fun f => f.outerCancelled && decide (f.begun 1 = ["a"]) &&
        (exec Forest.apply f
          [.move 1 (.work (.task 0)), .move 1 (.work (.answer 0 (answers .null))),
            .move 1 (.work (.task 0)), .move 1 (.work (.task 0)), .move 1 (.work (.task 0)),
            .move 1 (.work (.task 0))]).any fun f' =>
          f'.outerCancelled && decide (f'.begun 1 = ["a", "b"])) = true := by
    decide +kernel
  obtain ⟨f, hexec, hf⟩ := (Option.any_eq_true ..).mp hrun
  rw [Bool.and_eq_true, Bool.and_eq_true] at hf
  obtain ⟨f', hexec', hf'⟩ := (Option.any_eq_true ..).mp hf.2
  rw [Bool.and_eq_true] at hf'
  obtain ⟨⟨t, hroot, hcancel⟩, -⟩ := Forest.outerCancelled_spec hf.1.1
  have htree := (Forest.outerCancelled_spec hf'.1).2
  exact ⟨f, f', 0, t, 1, exec_reaches (fun _ _ _ => Forest.apply_sound) (.start rfl) hexec, hroot,
    hcancel, exec_reaches (fun _ _ _ => Forest.apply_sound) (.start rfl) hexec', htree,
    of_decide_eq_true hf.1.2, of_decide_eq_true hf'.2⟩

end Konf.Runtime
