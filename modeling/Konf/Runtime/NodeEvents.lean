import Konf.Runtime.Hooks

/-! # Paired node events

A start is recorded before anything of a step can fail, its end only after the last attempt, and the
end removes every active node with its id. So a start stays without its end, and its node stays active,
when the step returns before the first attempt, when its tool panics, and when its task is aborted; an
end removes too much when the same node runs in two tasks at once; and a run is terminal before its
steps have ended when the watcher stops early. Without these, starts and ends pair up. -/

namespace Konf.Runtime
open Konf.Substrate Konf.Executor Konf.Text Konf.Transition Konf.Journal
set_option autoImplicit false

def ActiveNode.key (node : ActiveNode) : String × String := (node.nodeId, node.toolName)

/-- Every start is followed by at most one end of its execution, and by one before the run is
terminal. The active nodes are those of the executions that have started and not ended. -/
structure NodesPaired (o : Observed) : Prop where
  paired : ∀ x, Paired (phases o.log x)
  active : (o.activeNodes.map ActiveNode.key).Perm ((openStarts o.log).map fun e => e.event.node)
  ended : o.run.status.isTerminal = true → ∀ x, phases o.log x ≠ [.started]
  cleared : o.run.status.isTerminal = true → o.activeNodes = []

/-- A step is answered that passes its checks and does not panic, and no other task is at the same
node; a call in flight is not aborted. -/
def endsCleanly (l : Launch) (s : State) : Choice StepAnswer → Bool
  | .answer k a => (s.tasks[k]?).all fun t => match t.pc with
    | .executing seen => l.stepContext.reports l.sys.lib a t.current seen && s.tasks.all fun u =>
        u.id == t.id || u.pc.inFlight == 0 || u.current.id != t.current.id
    | _ => true
  | .abort k => (s.tasks[k]?).all fun t => t.pc.inFlight == 0
  | _ => true

def Worker.allows (p : State → Bool) : Worker → Bool
  | .running s => p s
  | .absent | .panicked => true

/-- Steps end cleanly, and the watcher does not stop before `execute` has returned. -/
def EndsCleanly (l : Launch) (o : Observed) : ObservedMove → Prop
  | .work c _ => o.run.worker.allows (fun s => endsCleanly l s c) = true
  | .aside m => StaysOn l o.run m
  | .retry _ _ _ | .append _ _ | .drop _ | .finish _ | .others _ => True

instance (l : Launch) (o : Observed) : (m : ObservedMove) → Decidable (EndsCleanly l o m)
  | .work _ _ => inferInstanceAs (Decidable (_ = true))
  | .aside m => inferInstanceAs (Decidable (StaysOn l o.run m))
  | .retry _ _ _ | .append _ _ | .drop _ | .finish _ | .others _ => inferInstanceAs (Decidable True)

theorem EndsCleanly.staysOn {l : Launch} {o : Observed} {m : ObservedMove} (h : EndsCleanly l o m) :
    m.StaysOn l o := by
  cases m with
  | aside m => exact h
  | _ => trivial

/-! ## Active nodes -/

section Active
variable {l : Launch} {runId : RunId} {o o' : Observed} {m : ObservedMove}

theorem markRetrying_key (nodeId : String) (attempt : ℕ) (nodes : List ActiveNode) :
    (markRetrying nodeId attempt nodes).map ActiveNode.key = nodes.map ActiveNode.key := by
  induction nodes with
  | nil => rfl
  | cons node nodes ih =>
    simp only [markRetrying]
    split_ifs
    · rfl
    · rw [List.map_cons, ih, List.map_cons]

theorem onNodes_retry {e : ExecutorEvent} (hb : e.boundary = none) (nodes : List ActiveNode) :
    (onNodes e nodes).map ActiveNode.key = nodes.map ActiveNode.key := by
  cases e with
  | toolRetry nodeId tool attempt error => exact markRetrying_key nodeId attempt nodes
  | _ => cases hb

theorem onNodes_end {e : ExecutorEvent} (hb : e.boundary = some .ended) (nodes : List ActiveNode) :
    (onNodes e nodes).map ActiveNode.key =
      (nodes.map ActiveNode.key).filter fun key => key.1 != e.node.1 := by
  cases e with
  | nodeCompleted | nodeFailed =>
    rw [List.filter_map]
    rfl
  | _ => cases hb

/-- The invariant: what is open is in flight, and what is open is active. -/
structure Observed.Tidy (o : Observed) : Prop where
  opened : ∀ s, o.run.worker = .running s → ∀ e ∈ openStarts o.log,
    ∃ t ∈ s.tasks, 0 < t.pc.inFlight ∧ t.execution = e.execution ∧
      e.event = .nodeStarted t.current.id t.current.tool
  active : (o.activeNodes.map ActiveNode.key).Perm ((openStarts o.log).map fun e => e.event.node)

theorem opened_kept {s s' : State} {c : Choice StepAnswer} {log : List NodeEvent}
    (hopened : ∀ e ∈ openStarts log, ∃ t ∈ s.tasks, 0 < t.pc.inFlight ∧
      t.execution = e.execution ∧ e.event = .nodeStarted t.current.id t.current.tool)
    (hl : Ledger s) (h : Trans l.env s c s') (hanswer : ∀ k a, c ≠ .answer k a)
    (hclean : endsCleanly l s c = true) : ∀ e ∈ openStarts log, ∃ t ∈ s'.tasks,
      0 < t.pc.inFlight ∧ t.execution = e.execution ∧
        e.event = .nodeStarted t.current.id t.current.tool := by
  intro e he
  obtain ⟨t, ht, hfly, hexec, hevent⟩ := hopened e he
  have habort : ∀ k t, c = .abort k → s.tasks[k]? = some t → t.pc.inFlight = 0 := by
    rintro k t rfl hk
    simp only [endsCleanly, hk, Option.all_some, beq_iff_eq] at hclean
    exact hclean
  obtain ⟨t', ht', hfly', hexec', hcurrent⟩ := h.kept hl.ids hanswer habort ht hfly
  refine ⟨t', ht', hfly', hexec'.trans hexec, ?_⟩
  rw [hcurrent]
  exact hevent

/-- A task enters its step: a new start, and a new active node. -/
theorem Observed.Tidy.enter (hi : o.Tidy) {s s' : State} {k : ℕ} {t : Task} {stamp : Stamp}
    {e : Option Event} (hw : o.run.worker = .running s) (hl : Ledger s) (ht : t.Tallied)
    (hlog : Logged s o.log) (hk : s.tasks[k]? = some t) (hpc : t.pc = .enter)
    (hs' : s' = s.move k { t with pc := .readOutputs } e) (h : Trans l.env s (.task k) s')
    (r' : LiveRun) (hw' : r'.worker = .running s') :
    ({ o with run := r' }.onEvent l runId stamp
      ⟨t.execution, .nodeStarted t.current.id t.current.tool⟩).Tidy := by
  have hstarts := openStarts_start (e := ⟨t.execution, .nodeStarted t.current.id t.current.tool⟩)
    (hlog.fresh ht (List.mem_of_getElem? hk) hpc) rfl
  refine ⟨?_, ?_⟩
  · intro s₁ hs₁ ev hev
    cases hw'.symm.trans hs₁
    change ev ∈ openStarts (o.log ++ [_]) at hev
    rw [hstarts, List.mem_append, List.mem_singleton] at hev
    obtain hev | rfl := hev
    · exact opened_kept (hi.opened s hw) hl h (fun _ _ hc => by cases hc) rfl ev hev
    · refine ⟨{ t with pc := .readOutputs }, ?_, Nat.one_pos, rfl, rfl⟩
      rw [hs', State.move_tasks]
      exact (Indexed.mem_set hl.ids hk).mpr (.inl rfl)
  · change (List.map ActiveNode.key (o.activeNodes ++ [_])).Perm
      (List.map _ (openStarts (o.log ++ [_])))
    rw [hstarts, List.map_append, List.map_append]
    exact hi.active.append_right _

/-- A reported answer: its start is no longer open, and its node no longer active. -/
theorem Observed.Tidy.answer (hi : o.Tidy) {s s' : State} {k : ℕ} {a : StepAnswer} {t : Task}
    {seen : Outputs} {stamp : Stamp} {e : ExecutorEvent} (hw : o.run.worker = .running s)
    (hl : Ledger s) (hlog : Logged s o.log) (hk : s.tasks[k]? = some t) (hpc : t.pc = .executing seen)
    (hend : l.finalEvent a t.current seen = some e) {t' : Task} (hs' : s' = s.move k t' none)
    (hclean : endsCleanly l s (.answer k a) = true) (r' : LiveRun) (hw' : r'.worker = .running s') :
    ({ o with run := r' }.onEvent l runId stamp ⟨t.execution, e⟩).Tidy := by
  have hmem : t ∈ s.tasks := List.mem_of_getElem? hk
  have hb : e.boundary = some .ended := finalEvent_boundary hend
  have hnode : e.node = (t.current.id, t.current.tool) := finalEvent_node hend
  have hstarts := openStarts_end (e := ⟨t.execution, e⟩)
    (hlog.flying t hmem (by rw [hpc]; exact Nat.one_pos)) hb
  have hsole : ∀ u ∈ s.tasks, 0 < u.pc.inFlight → u.current.id = t.current.id → u = t := by
    intro u hu hfly hsame
    simp only [endsCleanly, hk, Option.all_some, hpc, Bool.and_eq_true, List.all_eq_true,
      Bool.or_eq_true, beq_iff_eq, bne_iff_ne] at hclean
    obtain (hid | hnone) | hne := hclean.2 u hu
    · exact List.inj_on_of_nodup_map hl.ids hu hmem hid
    · omega
    · exact absurd hsame hne
  -- an open start is of this execution when it is of this node
  have hthis : ∀ ev ∈ openStarts o.log,
      (ev.event.node.1 != e.node.1) = decide (ev.execution ≠ t.execution) := by
    intro ev hev
    obtain ⟨u, hu, hfly, hexec, hevent⟩ := hi.opened s hw ev hev
    rw [hnode, hevent, ← hexec]
    change (u.current.id != t.current.id) = _
    by_cases hut : u = t
    · subst hut
      simp
    · have hid : u.id ≠ t.id := fun heq => hut (List.inj_on_of_nodup_map hl.ids hu hmem heq)
      have hne : u.current.id ≠ t.current.id := fun heq => hut (hsole u hu hfly heq)
      have hne' : u.execution ≠ t.execution := fun heq => hid (congrArg StepExecution.task heq)
      rw [decide_eq_true hne', bne_iff_ne.mpr hne]
  refine ⟨?_, ?_⟩
  · intro s₁ hs₁ ev hev
    cases hw'.symm.trans hs₁
    change ev ∈ openStarts (o.log ++ [_]) at hev
    rw [hstarts, List.mem_filter] at hev
    obtain ⟨u, hu, hfly, hexec, hevent⟩ := hi.opened s hw ev hev.1
    refine ⟨u, ?_, hfly, hexec, hevent⟩
    rw [hs', State.move_tasks]
    refine (Indexed.mem_set hl.ids hk).mpr (.inr ⟨hu, fun hid => ?_⟩)
    have hut := List.inj_on_of_nodup_map hl.ids hu hmem hid
    exact of_decide_eq_true hev.2 (by rw [← hexec, hut])
  · change (List.map ActiveNode.key (onNodes e o.activeNodes)).Perm
      (List.map _ (openStarts (o.log ++ [_])))
    rw [hstarts, onNodes_end hb, ← List.filter_congr hthis]
    refine (hi.active.filter _).trans ?_
    rw [List.filter_map]
    exact .refl _

theorem Observed.Tidy.step (hi : o.Tidy) (hsound : o.Sound l) (hok : EndsCleanly l o m)
    (h : ObservedStep l runId o m o') : o'.Tidy := by
  obtain ⟨c, s, s', stamp, rfl, hw, htrans, hw', ho'⟩ | ⟨s, t, e, stamp, hw, ht, hfly, hretry, rfl⟩ |
    ⟨hw, hlog, hnodes⟩ := h.log_cases
  · have hreach := hsound.worker s hw
    have htallies := Reachable.tallies hreach
    have hl := Reachable.ledger hreach
    have hclean : endsCleanly l s c = true := by
      have hallowed : o.run.worker.allows (fun s => endsCleanly l s c) = true := hok
      rw [hw] at hallowed
      exact hallowed
    rw [ho']
    have hraises : Raises l.env l.finalEvent s c s' (raised l.finalEvent s c) :=
      htrans.raises l.finalEvent htallies.tallied hl.ids
    generalize raised l.finalEvent s c = event at hraises ⊢
    obtain @⟨k, t, e, hk, hpc⟩ | @⟨k, t, seen, a, hk, hpc, -⟩ | ⟨hanswer, -⟩ := hraises
    · exact hi.enter hw hl (htallies.tallied t (List.mem_of_getElem? hk)) (hsound.logged s hw) hk hpc
        rfl htrans o'.run hw'
    · have hreports : l.stepContext.reports l.sys.lib a t.current seen = true := by
        simp only [endsCleanly, hk, Option.all_some, hpc, Bool.and_eq_true] at hclean
        exact hclean.1
      obtain ⟨e, hend⟩ := finalEvent_of_reports hreports
      rw [show l.finalEvent a t.current seen = some e from hend]
      exact hi.answer hw hl (hsound.logged s hw) hk hpc hend rfl hclean o'.run hw'
    · refine ⟨?_, hi.active⟩
      intro s₁ hs₁
      cases hw'.symm.trans hs₁
      exact opened_kept (hi.opened s hw) hl htrans hanswer hclean
  · have hstarts : openStarts (o.log ++ [⟨t.execution, e⟩]) = openStarts o.log :=
      openStarts_retry hretry
    refine ⟨?_, ?_⟩
    · intro s₁ hs₁ ev hev
      change ev ∈ openStarts (o.log ++ [_]) at hev
      rw [hstarts] at hev
      exact hi.opened s₁ hs₁ ev hev
    · change (List.map ActiveNode.key (onNodes e o.activeNodes)).Perm
        (List.map _ (openStarts (o.log ++ [_])))
      rw [hstarts, onNodes_retry hretry]
      exact hi.active
  · refine ⟨?_, ?_⟩
    · rw [hw, hlog]
      exact hi.opened
    · rw [hlog, hnodes]
      exact hi.active

/-- Once `execute` has returned no task is left, so nothing is open. -/
theorem Observed.Tidy.openStarts_nil (hi : o.Tidy) (hsound : o.Sound l)
    (hset : o.run.worker.settled = true) : openStarts o.log = [] := by
  have htasks := hsound.worker.tasks_nil hset
  rw [List.eq_nil_iff_forall_not_mem]
  intro e he
  cases hw : o.run.worker with
  | running s =>
    obtain ⟨t, ht, -⟩ := hi.opened s hw e he
    rw [hw] at htasks
    rw [show s.tasks = [] from htasks] at ht
    cases ht
  | absent | panicked =>
    rw [hsound.silent (by rw [hw]; rfl)] at he
    cases he

end Active

/-- In every observed run whose steps end cleanly and whose watcher stays on, starts and ends pair up
and the active nodes are the open ones. -/
theorem node_events_paired (l : Launch) (runId : RunId) (o : Observed)
    (h : ReachesBy (ObservedStep l runId) (EndsCleanly l) l.ObservedStart o) : NodesPaired o := by
  obtain ⟨hlife, hsound⟩ := observed_sound (fun _ _ => EndsCleanly.staysOn) h
  have htidy : o.Tidy := by
    refine h.invariant ?_ ?_
    · rintro _ ⟨j, rfl⟩
      refine ⟨?_, .refl _⟩
      intro s _ e he
      cases he
    · intro o m o' hr htidy hok hstep
      exact htidy.step (observed_sound (fun _ _ => EndsCleanly.staysOn) hr).2 hok hstep
  have hnone : o.run.status.isTerminal = true → openStarts o.log = [] := by
    intro hterm
    obtain ⟨-, hset | hwatched⟩ := settled_or_watched hlife
    · exact htidy.openStarts_nil hsound hset
    · rw [hwatched.status] at hterm
      cases hterm
  refine ⟨hsound.paired, htidy.active, ?_, ?_⟩
  · intro hterm x hx
    obtain ⟨e, he, hexec, hb⟩ := mem_phases (b := .started) (by rw [hx]; exact List.mem_singleton_self _)
    have hopen : e ∈ openStarts o.log := mem_openStarts.mpr ⟨he, hb, by rw [hexec]; exact hx⟩
    rw [hnone hterm] at hopen
    cases hopen
  · intro hterm
    have hactive := htidy.active
    rw [hnone hterm] at hactive
    exact List.map_eq_nil_iff.mp hactive.eq_nil

/-! ## Two runs -/

def demoStamp : Stamp := ⟨5, "2025-01-01T00:00:00Z", 0⟩

/-- The same move of an observed run. -/
def observedMove : LifeMove → ObservedMove
  | .work c => .work c demoStamp
  | m => .aside m

def pairMoves : List ObservedMove :=
  (pairScript .null ++ ([.recv, .drained "", .record] : List LifeMove)).map observedMove

/-- Two steps that end, and the run that ends after them. -/
theorem pair_events_paired : ∃ o,
    ReachesBy (ObservedStep pairLaunch 7) (EndsCleanly pairLaunch) pairLaunch.ObservedStart o ∧
      o.run.status.isTerminal = true ∧ o.log.length = 4 ∧ NodesPaired o := by
  have hrun : (pairLaunch.observe 7 (EndsCleanly pairLaunch) pairMoves).any (fun o =>
      o.run.status.isTerminal && decide (o.log.length = 4)) = true := by
    decide +kernel
  obtain ⟨o, hobserve, ho⟩ := (Option.any_eq_true ..).mp hrun
  rw [Bool.and_eq_true] at ho
  have hreach := Launch.observe_reaches hobserve
  exact ⟨o, hreach, ho.1, of_decide_eq_true ho.2, node_events_paired pairLaunch 7 o hreach⟩

/-- The tool of the only step is not granted. -/
def deniedLaunch : Launch :=
  { pairLaunch with workflow := oneStep "denied" (Step.new "a" "shell:exec") }

def deniedScript : List LifeMove :=
  [.work (.task 0), .work (.task 0), .work (.task 0), .work (.answer 0 (answers .null)),
    .work (.task 0), .work (.task 0), .work (.join 0), .work .main, .hangUp, .drained "", .record]

/-- The run has failed; its step has started and not ended, and is still listed as active. -/
theorem denied_step_stays_active : ∃ o,
    Reaches (ObservedStep deniedLaunch 7) deniedLaunch.ObservedStart o ∧
      o.run.status.isTerminal = true ∧ phases o.log ⟨0, 1⟩ = [.started] ∧
      o.activeNodes = [⟨"a", "shell:exec", .running⟩] := by
  have hrun : (deniedLaunch.observe 7 (fun _ _ => True) (deniedScript.map observedMove)).any
      (fun o => o.run.status.isTerminal && decide (phases o.log ⟨0, 1⟩ = [.started] ∧
        o.activeNodes = [⟨"a", "shell:exec", .running⟩])) = true := by
    decide +kernel
  obtain ⟨o, hobserve, ho⟩ := (Option.any_eq_true ..).mp hrun
  rw [Bool.and_eq_true] at ho
  exact ⟨o, Launch.observe_reaches hobserve, ho.1, of_decide_eq_true ho.2⟩

end Konf.Runtime
