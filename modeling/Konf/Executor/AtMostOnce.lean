import Konf.Executor.Ledger
import Konf.Executor.HappensBefore

/-! # At most one entry into each step

`executed_nodes` keeps the main loop from spawning a step twice. A task that moves on by itself
neither reads nor writes it, so a step can still be entered twice when one of its incoming edges is
taken inside a task. The result is about the runs in which an edge taken inside a task is the only
taken edge into its target. -/

namespace Konf.Executor
open Konf.Substrate Konf.Parser Konf.Transition
set_option autoImplicit false

/-- Each step has one entry: all its executions share the task and the visit, so that they are the
consecutive iterations of one `repeat`. -/
def EnteredOnce (trace : List Event) : Prop :=
  ∀ x i v j u, Event.began x i v ∈ trace → Event.began x j u ∈ trace → i = j ∧ v = u

/-! ## Edges taken -/

def Event.continuesTo (x : StepId) : Event → Bool
  | .continued y _ _ => y == x
  | _ => false

def Event.requests (x : StepId) : Event → Bool
  | .sent _ (.spawnNext y) => y == x
  | _ => false

def continuedTo (trace : List Event) (x : StepId) : Bool := trace.any (Event.continuesTo x)

/-- Some task asked the main loop to spawn the step. -/
def requested (trace : List Event) (x : StepId) : Bool := trace.any (Event.requests x)

theorem continuedTo_of_mem {trace : List Event} {x : StepId} {i v : ℕ}
    (h : Event.continued x i v ∈ trace) : continuedTo trace x = true :=
  List.any_eq_true.mpr ⟨_, h, beq_self_eq_true x⟩

theorem requested_of_mem {trace : List Event} {x : StepId} {i : ℕ}
    (h : Event.sent i (.spawnNext x) ∈ trace) : requested trace x = true :=
  List.any_eq_true.mpr ⟨_, h, beq_self_eq_true x⟩

theorem requested_append (l l' : List Event) (x : StepId) :
    requested (l ++ l') x = (requested l x || requested l' x) := List.any_append

theorem continuedTo_append (l l' : List Event) (x : StepId) :
    continuedTo (l ++ l') x = (continuedTo l x || continuedTo l' x) := List.any_append

def Event.soleEdge (env : ExecutorEnv) (s : State) : Event → Bool
  | .continued x _ _ =>
    x != env.workflow.entry && !continuedTo s.trace x && !requested s.trace x
  | .sent _ (.spawnNext x) => !continuedTo s.trace x
  | _ => true

def Event.target : Event → Option StepId
  | .continued x _ _ | .sent _ (.spawnNext x) => some x
  | _ => none

/-- An edge taken inside a task goes to a step other than the entry and is the only taken edge into
it: none was taken before, and no later one asks the main loop for it. -/
def SoleEdge (env : ExecutorEnv) (s : State) (c : Choice env.Answer) : Prop :=
  ∀ e ∈ emitted env s c, e.soleEdge env s = true

instance (env : ExecutorEnv) (s : State) (c : Choice env.Answer) : Decidable (SoleEdge env s c) :=
  inferInstanceAs (Decidable (∀ e ∈ emitted env s c, e.soleEdge env s = true))

/-! ## Arrivals -/

/-- Visit `v` of task `i` is at the step: the task was spawned there or moved on to it. -/
def Arrived (trace : List Event) (x : StepId) (i v : ℕ) : Prop :=
  (Event.spawned x i ∈ trace ∧ v = 0) ∨ Event.continued x i v ∈ trace

theorem Arrived.append {trace : List Event} {x : StepId} {i v : ℕ} (h : Arrived trace x i v)
    (more : List Event) : Arrived (trace ++ more) x i v :=
  h.imp (fun h => ⟨List.mem_append_left _ h.1, h.2⟩) (fun h => List.mem_append_left _ h)

/-- Every task is at a place where it arrived, and every execution belongs to an arrival. -/
structure Arrivals (s : State) : Prop where
  tasks : ∀ t ∈ s.tasks, Arrived s.trace t.current.id t.id t.visit
  began : ∀ x i v, Event.began x i v ∈ s.trace → Arrived s.trace x i v
  joined : ∀ i x r, Event.joined i x r ∈ s.trace → ∃ v, Arrived s.trace x i v

section ArrivalSteps
variable {env : ExecutorEnv} {s : State}

theorem Task.Move.arrival {t t' : Task} {e : Option Event} (h : Task.Move env s t t' e) :
    (t'.current = t.current ∧ t'.id = t.id ∧ t'.visit = t.visit) ∨
      e = some (.continued t'.current.id t'.id t'.visit) := by
  cases h with
  | follow | goto => exact .inr rfl
  | @answer seen a _ =>
    refine .inl ?_
    unfold Task.answered
    cases env.executeStep a t.current seen <;> exact ⟨rfl, rfl, rfl⟩
  | _ => exact .inl ⟨rfl, rfl, rfl⟩

theorem Task.Move.continued_eq {t t' : Task} {e : Option Event} (h : Task.Move env s t t' e)
    {x : StepId} {i v : ℕ} (he : e = some (.continued x i v)) :
    x = t'.current.id ∧ i = t'.id ∧ v = t'.visit := by
  cases h with
  | follow | goto =>
    cases he
    exact ⟨rfl, rfl, rfl⟩
  | _ => cases he

theorem Task.Move.began_eq {t t' : Task} {x : StepId} {i v : ℕ}
    (h : Task.Move env s t t' (some (.began x i v))) :
    x = t.current.id ∧ i = t.id ∧ v = t.visit := by
  cases h with
  | enter => exact ⟨rfl, rfl, rfl⟩

theorem Task.Move.not_joined {t t' : Task} {e : Option Event} (h : Task.Move env s t t' e)
    (i : ℕ) (x : StepId) (r : TaskResult) : Event.joined i x r ∉ e.toList := by
  rw [Option.mem_toList]
  intro heq
  cases heq
  cases h

theorem Arrivals.step {s' : State} {c : Choice env.Answer} (h : Arrivals s)
    (hs : Trans env s c s') : Arrivals s' := by
  have hbegan : ∀ {more : List Event}, (∀ x i v, Event.began x i v ∉ more) →
      ∀ x i v, Event.began x i v ∈ s.trace ++ more → Arrived (s.trace ++ more) x i v := by
    intro more hnone x i v hmem
    obtain hmem | hmem := List.mem_append.mp hmem
    · exact (h.began x i v hmem).append _
    · exact absurd hmem (hnone x i v)
  have hjoined : ∀ {more : List Event}, (∀ i x r, Event.joined i x r ∉ more) →
      ∀ i x r, Event.joined i x r ∈ s.trace ++ more → ∃ v, Arrived (s.trace ++ more) x i v := by
    intro more hnone i x r hmem
    obtain hmem | hmem := List.mem_append.mp hmem
    · obtain ⟨v, hv⟩ := h.joined i x r hmem
      exact ⟨v, hv.append _⟩
    · exact absurd hmem (hnone i x r)
  cases hs.kind with
  | silent pc b => exact ⟨h.tasks, h.began, h.joined⟩
  | @task _ k t t' e _ hk hmove =>
    have ht := h.tasks t (List.mem_of_getElem? hk)
    refine ⟨?_, ?_, ?_⟩
    · intro u hu
      rw [State.move_tasks] at hu
      rw [State.move_trace]
      obtain hu | rfl := List.mem_or_eq_of_mem_set hu
      · exact (h.tasks u hu).append _
      · obtain ⟨hcur, hid, hvisit⟩ | he := hmove.arrival
        · rw [hcur, hid, hvisit]
          exact ht.append _
        · rw [he]
          exact .inr (List.mem_append_right _ (List.mem_singleton_self _))
    · intro x i v hmem
      rw [State.move_trace] at hmem ⊢
      obtain hmem | hmem := List.mem_append.mp hmem
      · exact (h.began x i v hmem).append _
      · rw [Option.mem_toList] at hmem
        cases hmem
        obtain ⟨rfl, rfl, rfl⟩ := hmove.began_eq
        exact ht.append _
    · rw [State.move_trace]
      exact hjoined hmove.not_joined
  | @join k t result hk hpc =>
    refine ⟨fun u hu => (h.tasks u (List.mem_of_mem_eraseIdx hu)).append _, hbegan (by simp), ?_⟩
    intro i x r hmem
    obtain hmem | hmem := List.mem_append.mp hmem
    · obtain ⟨v, hv⟩ := h.joined i x r hmem
      exact ⟨v, hv.append _⟩
    · cases List.mem_singleton.mp hmem
      exact ⟨t.visit, (h.tasks t (List.mem_of_getElem? hk)).append _⟩
  | recv hk hfifo =>
    exact ⟨fun u hu => (h.tasks u hu).append _, hbegan (by simp), hjoined (by simp)⟩
  | spawn hm hrun =>
    refine ⟨?_, hbegan (by simp), hjoined (by simp)⟩
    intro u hu
    obtain hu | hu := List.mem_append.mp hu
    · exact (h.tasks u hu).append _
    · rw [List.mem_singleton.mp hu]
      exact .inl ⟨List.mem_append_right _ (List.mem_singleton_self _), rfl⟩
  | abort hm => exact ⟨fun u hu => h.tasks u (List.mem_of_mem_eraseIdx hu), h.began, h.joined⟩

theorem arrivals_start (env : ExecutorEnv) (input : Json) : Arrivals (start env input) := by
  unfold start
  split
  · constructor <;> simp [State.fresh, State.spawn, Task.spawned, Arrived]
  · constructor <;> simp [State.fresh]

theorem Reachable.arrivals (h : Reachable env s) : Arrivals s := by
  refine h.invariant ?_ (fun s a s' _ hi hs => hi.step hs)
  rintro s ⟨-, input, rfl⟩
  exact arrivals_start env input

end ArrivalSteps

/-! ## Who is spawned -/

/-- The steps the main loop may still spawn before its next `select`. -/
def MainPc.pending : MainPc → List StepId
  | .scan todo => todo
  | .checkDeps step _ _ todo => step.id :: todo
  | _ => []

/-- The main loop spawns a step once, and only the entry or a step some task asked for. -/
structure Spawning (env : ExecutorEnv) (s : State) : Prop where
  executed : ∀ x, x ∈ s.executedNodes ↔ ∃ i, Event.spawned x i ∈ s.trace
  once : ∀ x i j, Event.spawned x i ∈ s.trace → Event.spawned x j ∈ s.trace → i = j
  source : ∀ x i, Event.spawned x i ∈ s.trace → x = env.workflow.entry ∨ requested s.trace x = true
  reach : ∀ x ∈ s.reachableNodes, x = env.workflow.entry ∨ requested s.trace x = true
  pending : ∀ x ∈ s.main.pending, x ∈ s.reachableNodes

section SpawningSteps
variable {env : ExecutorEnv} {s : State}

theorem Ledger.sent_of_queued (h : Ledger s) {k i : ℕ} {m : FinishedInfo}
    (hk : s.channel[k]? = some (i, m)) : Event.sent i m ∈ s.trace := by
  have hq : m ∈ queuedBy s.channel i :=
    List.mem_map.mpr ⟨(i, m), List.mem_filter.mpr ⟨List.mem_of_getElem? hk, by simp⟩, rfl⟩
  have hsent : m ∈ sentBy s.trace i := by
    rw [h.fifo i]
    exact List.mem_append_right _ hq
  obtain ⟨e, he, hm⟩ := List.mem_filterMap.mp hsent
  cases e with
  | sent j m' =>
    rw [Event.sentFrom] at hm
    split_ifs at hm with hj
    cases hm
    rw [← hj]
    exact he
  | _ => cases hm

theorem Spawning.quiet (h : Spawning env s) {s' : State} {more : List Event}
    (hexec : s'.executedNodes = s.executedNodes) (hreach : s'.reachableNodes = s.reachableNodes)
    (htrace : s'.trace = s.trace ++ more) (hmore : ∀ x i, Event.spawned x i ∉ more)
    (hpend : ∀ x ∈ s'.main.pending, x ∈ s.reachableNodes) : Spawning env s' := by
  have hold : ∀ x i, Event.spawned x i ∈ s'.trace ↔ Event.spawned x i ∈ s.trace := by
    intro x i
    rw [htrace, List.mem_append]
    exact ⟨fun h => h.resolve_right (hmore x i), .inl⟩
  have hreq : ∀ x, requested s.trace x = true → requested s'.trace x = true := by
    intro x hx
    rw [htrace, requested_append, hx]
    rfl
  refine ⟨?_, ?_, ?_, ?_, ?_⟩
  · intro x
    simp only [hexec, hold]
    exact h.executed x
  · intro x i j
    rw [hold, hold]
    exact h.once x i j
  · intro x i
    rw [hold]
    exact fun hmem => (h.source x i hmem).imp id (hreq x)
  · intro x hx
    rw [hreach] at hx
    exact (h.reach x hx).imp id (hreq x)
  · rw [hreach]
    exact hpend

theorem Spawning.request (h : Spawning env s) {k i : ℕ} {target : StepId} (order : List StepId)
    (hsent : Event.sent i (.spawnNext target) ∈ s.trace) :
    Spawning env (s.receive k i (.spawnNext target) order) := by
  have hold : ∀ x j, Event.spawned x j ∈ s.trace ++ [.received i (.spawnNext target)] ↔
      Event.spawned x j ∈ s.trace := by simp
  have hreq : ∀ x, requested s.trace x = true →
      requested (s.trace ++ [.received i (.spawnNext target)]) x = true := by
    intro x hx
    rw [requested_append, hx]
    rfl
  refine ⟨?_, ?_, ?_, ?_, ?_⟩
  · intro x
    simp only [State.receive, hold]
    exact h.executed x
  · intro x a b
    simp only [State.receive, hold]
    exact h.once x a b
  · intro x a hmem
    rw [State.receive, hold] at hmem
    exact (h.source x a hmem).imp id (hreq x)
  · intro x hx
    obtain rfl | hx := List.mem_insert_iff.mp hx
    · exact .inr (hreq x (requested_of_mem hsent))
    · exact (h.reach x hx).imp id (hreq x)
  · intro x hx
    rw [List.mem_singleton.mp hx]
    exact List.mem_insert_self

theorem Spawning.spawn (h : Spawning env s) (hres : Residence env s) {step : Step}
    {todo : List StepId} {n : ℕ} (hm : s.main = .checkDeps step [] n todo) :
    Spawning env { s.spawn step with main := .scan todo } := by
  have hfresh := (hres.checking _ _ _ _ hm).2
  have hpend : ∀ x ∈ step.id :: todo, x ∈ s.reachableNodes := by
    have hp := h.pending
    rw [hm] at hp
    exact hp
  have hnew : ∀ i, Event.spawned step.id i ∉ s.trace := by
    intro i hmem
    exact hfresh ((h.executed step.id).mpr ⟨i, hmem⟩)
  have hmem : ∀ x i, Event.spawned x i ∈ (s.spawn step).trace ↔
      Event.spawned x i ∈ s.trace ∨ (x = step.id ∧ i = s.totalSpawned) := by
    intro x i
    simp [State.spawn]
  have hreq : ∀ x, requested s.trace x = true → requested (s.spawn step).trace x = true := by
    intro x hx
    rw [State.spawn, requested_append, hx]
    rfl
  refine ⟨?_, ?_, ?_, ?_, ?_⟩
  · intro x
    simp only [hmem]
    rw [show (s.spawn step).executedNodes = step.id :: s.executedNodes from rfl, List.mem_cons,
      h.executed x]
    constructor
    · rintro (rfl | ⟨i, hi⟩)
      · exact ⟨s.totalSpawned, .inr ⟨rfl, rfl⟩⟩
      · exact ⟨i, .inl hi⟩
    · rintro ⟨i, hi | ⟨rfl, -⟩⟩
      · exact .inr ⟨i, hi⟩
      · exact .inl rfl
  · intro x i j hi hj
    rw [hmem] at hi hj
    obtain hi | ⟨rfl, rfl⟩ := hi
    · obtain hj | ⟨rfl, rfl⟩ := hj
      · exact h.once x i j hi hj
      · exact absurd hi (hnew i)
    · obtain hj | ⟨-, rfl⟩ := hj
      · exact absurd hj (hnew j)
      · rfl
  · intro x i hi
    rw [hmem] at hi
    obtain hi | ⟨rfl, -⟩ := hi
    · exact (h.source x i hi).imp id (hreq x)
    · exact (h.reach _ (hpend _ List.mem_cons_self)).imp id (hreq _)
  · intro x hx
    exact (h.reach x hx).imp id (hreq x)
  · intro x hx
    exact hpend x (List.mem_cons_of_mem _ hx)

theorem Task.Move.not_spawned {t t' : Task} {e : Option Event} (h : Task.Move env s t t' e)
    (x : StepId) (i : ℕ) : Event.spawned x i ∉ e.toList := by
  rw [Option.mem_toList]
  intro heq
  cases heq
  cases h

theorem Spawning.step {s' : State} {c : Choice env.Answer} (h : Spawning env s)
    (hledger : Ledger s) (hres : Residence env s) (hs : Trans env s c s') : Spawning env s' := by
  have hmain : ∀ pc : MainPc, (∀ x ∈ pc.pending, x ∈ s.reachableNodes) →
      Spawning env { s with main := pc } := fun pc hpc =>
    h.quiet rfl rfl (List.append_nil _).symm (by simp) hpc
  have hpend := h.pending
  cases hs with
  | cancel => exact ⟨h.executed, h.once, h.source, h.reach, h.pending⟩
  | task hk hn =>
    refine h.quiet ?_ ?_ (State.move_trace ..) (Task.next_move hn).not_spawned ?_
    · simp
    · simp
    · simpa using hpend
  | answer a hk hpc =>
    exact ⟨h.executed, h.once, h.source, h.reach, h.pending⟩
  | join hm hk hpc =>
    refine h.quiet rfl rfl rfl (by simp) ?_
    obtain hexit | ⟨err, hshut⟩ := joinOutcome_main env s _
    · rw [State.join, hexit]
      simp [MainPc.pending]
    · rw [State.join, hshut]
      simp [MainPc.pending]
  | @recv k i m order hm hk hfifo horder =>
    cases m with
    | node n => exact h.quiet rfl rfl rfl (by simp) (fun x hx => horder.mem_iff.mp hx)
    | spawnNext target => exact h.request order (hledger.sent_of_queued hk)
  | scanSkip hm =>
    rw [hm] at hpend
    exact hmain _ (fun x hx => hpend x (List.mem_cons_of_mem _ hx))
  | scanCheck hm hroom hx hstep =>
    rw [hm] at hpend
    refine hmain _ ?_
    have hid := Workflow.getStep_id hstep
    subst hid
    exact hpend
  | checkDep hm =>
    rw [hm] at hpend
    exact hmain _ hpend
  | depsMet hm _ => exact h.spawn hres hm
  | depsUnmet hm =>
    rw [hm] at hpend
    exact hmain _ (fun x hx => hpend x (List.mem_cons_of_mem _ hx))
  | abort hm _ => exact ⟨h.executed, h.once, h.source, h.reach, h.pending⟩
  | seeCancel | scanDone | scanFull | exit | loop | stop =>
    exact hmain _ (by simp [MainPc.pending])

theorem spawning_start (env : ExecutorEnv) (input : Json) : Spawning env (start env input) := by
  unfold start
  split
  · rename_i entry hentry
    have hid := Workflow.getStep_id hentry
    constructor <;> simp [State.fresh, State.spawn, hid, MainPc.pending]
    intro x i j _ hi _ hj
    rw [hi, hj]
  · constructor <;> simp [State.fresh, MainPc.pending]

theorem Reachable.spawning (h : Reachable env s) : Spawning env s := by
  refine h.invariant ?_ (fun s a s' hr hi hs =>
    hi.step (Reachable.ledger hr) (Reachable.residence hr) hs)
  rintro s ⟨-, input, rfl⟩
  exact spawning_start env input

end SpawningSteps

/-! ## One entry -/

/-- An edge to `x` taken inside a task excludes every other edge to `x`. -/
structure SoleAt (env : ExecutorEnv) (x : StepId) (trace : List Event) : Prop where
  exclusive : continuedTo trace x = true → x ≠ env.workflow.entry ∧ requested trace x = false
  unique : ∀ i v j u, Event.continued x i v ∈ trace → Event.continued x j u ∈ trace →
    i = j ∧ v = u

section SoleSteps
variable {env : ExecutorEnv} {s : State} {x : StepId}

theorem SoleAt.other {trace : List Event} (h : SoleAt env x trace) {e : Event}
    (hcont : e.continuesTo x = false) (hreq : e.requests x = false) :
    SoleAt env x (trace ++ [e]) := by
  have hmem : ∀ i v, Event.continued x i v ∈ trace ++ [e] → Event.continued x i v ∈ trace := by
    intro i v hmem
    obtain hmem | hmem := List.mem_append.mp hmem
    · exact hmem
    · rw [← List.mem_singleton.mp hmem] at hcont
      simp [Event.continuesTo] at hcont
  refine ⟨?_, ?_⟩
  · rw [continuedTo_append, requested_append]
    simpa [continuedTo, requested, hcont, hreq] using h.exclusive
  · intro i v j u hi hj
    exact h.unique i v j u (hmem _ _ hi) (hmem _ _ hj)

theorem soleAt_continued {i v : ℕ}
    (hsole : (Event.continued x i v).soleEdge env s = true) :
    SoleAt env x (s.trace ++ [.continued x i v]) := by
  rw [Event.soleEdge, Bool.and_eq_true, Bool.and_eq_true, bne_iff_ne, Bool.not_eq_true',
    Bool.not_eq_true'] at hsole
  obtain ⟨⟨hentry, hcont⟩, hreq⟩ := hsole
  have hnone : ∀ j u, Event.continued x j u ∉ s.trace := by
    intro j u hmem
    rw [continuedTo_of_mem hmem] at hcont
    cases hcont
  refine ⟨?_, ?_⟩
  · intro _
    rw [requested_append, hreq]
    exact ⟨hentry, rfl⟩
  · intro j u j' u' hj hj'
    simp only [List.mem_append, hnone, List.mem_singleton, false_or] at hj hj'
    cases hj
    cases hj'
    exact ⟨rfl, rfl⟩

theorem SoleAt.request (h : SoleAt env x s.trace) {i : ℕ}
    (hsole : (Event.sent i (.spawnNext x)).soleEdge env s = true) :
    SoleAt env x (s.trace ++ [.sent i (.spawnNext x)]) := by
  rw [Event.soleEdge, Bool.not_eq_true'] at hsole
  refine ⟨?_, ?_⟩
  · intro hcont
    rw [continuedTo_append, hsole] at hcont
    cases hcont
  · intro j u j' u' hj hj'
    exact h.unique j u j' u' (by simpa using hj) (by simpa using hj')

theorem SoleAt.emit (h : SoleAt env x s.trace) {e : Option Event}
    (hsole : ∀ ev ∈ e, ev.target = some x → ev.soleEdge env s = true) :
    SoleAt env x (s.trace ++ e.toList) := by
  cases e with
  | none => simpa using h
  | some ev =>
    by_cases htarget : ev.target = some x
    · have hev := hsole ev rfl htarget
      cases ev with
      | continued y i v =>
        cases htarget
        exact soleAt_continued hev
      | sent i m =>
        cases m with
        | spawnNext y =>
          cases htarget
          exact h.request hev
        | node n => cases htarget
      | _ => cases htarget
    · refine h.other ?_ ?_
      · cases ev with
        | continued y i v => exact beq_eq_false_iff_ne.mpr fun hy => htarget (congrArg some hy)
        | _ => rfl
      · cases ev with
        | sent i m =>
          cases m with
          | spawnNext y => exact beq_eq_false_iff_ne.mpr fun hy => htarget (congrArg some hy)
          | node n => rfl
        | _ => rfl

/-- The condition is needed only for the edges into `x`. -/
theorem SoleAt.step {s' : State} {c : Choice env.Answer} (h : SoleAt env x s.trace)
    (hok : ∀ e ∈ emitted env s c, e.target = some x → e.soleEdge env s = true)
    (hs : Trans env s c s') : SoleAt env x s'.trace := by
  cases hs with
  | task hk hn =>
    rw [State.move_trace]
    refine h.emit ?_
    rw [← emitted_task hk hn]
    exact hok
  | join | depsMet | recv => exact h.other rfl rfl
  | _ => exact h

theorem soleAt_start (env : ExecutorEnv) (x : StepId) (input : Json) :
    SoleAt env x (start env input).trace := by
  unfold start
  split
  · constructor <;> simp [State.fresh, State.spawn, continuedTo, Event.continuesTo]
  · constructor <;> simp [State.fresh, continuedTo]

/-- Arrivals at such a step are unique: a spawned step is the entry or requested, and neither is
moved on to inside a task. -/
theorem arrival_unique (hsole : SoleAt env x s.trace) (hspawn : Spawning env s) {i v j u : ℕ}
    (hi : Arrived s.trace x i v) (hj : Arrived s.trace x j u) : i = j ∧ v = u := by
  have hmixed : ∀ a b w, Event.spawned x a ∈ s.trace → Event.continued x b w ∉ s.trace := by
    intro a b w ha hb
    obtain ⟨hentry, hreq⟩ := hsole.exclusive (continuedTo_of_mem hb)
    obtain heq | hreq' := hspawn.source x a ha
    · exact hentry heq
    · rw [hreq] at hreq'
      cases hreq'
  obtain ⟨hi, rfl⟩ | hi := hi
  · obtain ⟨hj, rfl⟩ | hj := hj
    · exact ⟨hspawn.once x i j hi hj, rfl⟩
    · exact absurd hj (hmixed i j u hi)
  · obtain ⟨hj, rfl⟩ | hj := hj
    · exact absurd hi (hmixed j i v hj)
    · exact hsole.unique i v j u hi hj

end SoleSteps

/-- In every run in which each edge taken inside a task is the only taken edge into its target, no
step is entered twice. -/
theorem entered_once (env : ExecutorEnv) (s : State)
    (h : ReachesBy (Trans env) (SoleEdge env) (Initial env) s) : EnteredOnce s.trace := by
  have hreach : Reachable env s := h.reaches
  have hsole : ∀ x, SoleAt env x s.trace := by
    intro x
    induction h with
    | start h =>
      obtain ⟨-, input, rfl⟩ := h
      exact soleAt_start env x input
    | tail hr hok hs ih => exact (ih hr.reaches).step (fun e he _ => hok e he) hs
  intro x i v j u hi hj
  have hbegan := hreach.arrivals.began
  exact arrival_unique (hsole x) hreach.spawning (hbegan x i v hi) (hbegan x j u hj)

/-! ## A step entered twice -/

/-- `a` starts `b` and `c`; both go on to `d`, which reads no other node's output. -/
def diamondSchema : WorkflowSchema where
  workflow := "diamond"
  nodes := StrMap.ofList
    [("a", { then_ := some (.multiple ["b", "c"]) }),
      ("b", { then_ := some (.unconditional "d") }),
      ("c", { then_ := some (.unconditional "d") }),
      ("d", { return_ := some (.str "done") })]
    (by decide)

/-- The same graph; `d` reads the outputs of both branches. -/
def joinSchema : WorkflowSchema where
  workflow := "join"
  nodes := StrMap.ofList
    [("a", { then_ := some (.multiple ["b", "c"]) }),
      ("b", { then_ := some (.unconditional "d") }),
      ("c", { then_ := some (.unconditional "d") }),
      ("d", { with_ := some (.obj
                [("p", .str "\x7b\x7bb.y\x7d\x7d"), ("q", .str "\x7b\x7bc.y\x7d\x7d")]),
              return_ := some (.str "done") })]
    (by decide)

/-- Task `k` runs its step and chooses what comes next. -/
def runStep (k : ℕ) : List (Choice StepAnswer) :=
  [.task k, .task k, .task k, .answer k (answers .null), .task k, .task k]

def diamondScript : List (Choice StepAnswer) :=
  forkStart ++ runStep 1 ++ ([.task 1, .task 1] : List (Choice StepAnswer)) ++ runStep 2 ++
    ([.task 2, .task 2] : List (Choice StepAnswer))

/-- Both branches ask for `d`; the first request spawns it, the second finds it executed. -/
def joinScript : List (Choice StepAnswer) :=
  forkStart ++ runStep 1 ++ ([.task 1] : List (Choice StepAnswer)) ++ runStep 2 ++
    ([.task 2] : List (Choice StepAnswer)) ++
    ([.recv 0 ["a", "b", "c"], .main, .main, .main, .main, .main, .main] :
      List (Choice StepAnswer)) ++
    ([.recv 0 ["a", "b", "c", "d"], .main, .main, .main] : List (Choice StepAnswer)) ++
    ([.task 3, .task 3] : List (Choice StepAnswer))

def Event.beganAs (x : StepId) (i v : ℕ) : Event → Bool
  | .began y j u => y == x && j == i && u == v
  | _ => false

theorem began_of_any {trace : List Event} {x : StepId} {i v : ℕ}
    (h : trace.any (Event.beganAs x i v) = true) : Event.began x i v ∈ trace := by
  obtain ⟨e, he, hbegan⟩ := List.any_eq_true.mp h
  cases e with
  | began y j u =>
    rw [Event.beganAs, Bool.and_eq_true, Bool.and_eq_true, beq_iff_eq, beq_iff_eq,
      beq_iff_eq] at hbegan
    obtain ⟨⟨rfl, rfl⟩, rfl⟩ := hbegan
    exact he
  | _ => cases hbegan

/-- Both branches of a diamond enter the joining step, each in its own task. -/
theorem diamond_entered_twice : ∃ w s,
    parse plainExternals EngineConfig.default diamondSchema = .ok w ∧
      Reachable (plainEnv EngineConfig.default w) s ∧ ¬EnteredOnce s.trace := by
  have hrun : parsedRun (plainEnv EngineConfig.default) (fun _ _ _ => True) EngineConfig.default
      diamondSchema (fun _ => diamondScript)
      (fun _ s => s.trace.any (Event.beganAs "d" 1 1) && s.trace.any (Event.beganAs "d" 2 1)) =
      true := by
    decide +kernel
  obtain ⟨w, s, hw, hs, hp⟩ := parsedRun_reaches hrun (fun _ => rfl) (by decide)
  rw [Bool.and_eq_true] at hp
  refine ⟨w, s, hw, hs, fun honce => ?_⟩
  obtain ⟨htask, -⟩ := honce "d" 1 1 2 1 (began_of_any hp.1) (began_of_any hp.2)
  cases htask

/-- With two dependencies the joining step is entered once. -/
theorem join_entered_once : ∃ w s,
    parse plainExternals EngineConfig.default joinSchema = .ok w ∧
      ReachesBy (Trans (plainEnv EngineConfig.default w)) (SoleEdge _)
        (Initial (plainEnv EngineConfig.default w)) s ∧
      s.trace.any (Event.begins "d") = true ∧ EnteredOnce s.trace := by
  have hrun : parsedRun (plainEnv EngineConfig.default) SoleEdge EngineConfig.default
      joinSchema (fun _ => joinScript)
      (fun _ s => s.trace.any (Event.begins "d")) = true := by
    decide +kernel
  obtain ⟨w, s, hw, hs, hp⟩ := parsedRun_reaches hrun (fun _ => rfl) (by decide)
  exact ⟨w, s, hw, hs, hp, entered_once (plainEnv EngineConfig.default w) s hs⟩

end Konf.Executor
