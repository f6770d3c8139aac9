import Konf.Executor.AtMostOnce

/-! # Declared control flow

A file can mark a node with `entry: true`, and let a node wait for others with `join`. The compiler
reads neither. The workflow is entered at the first node of the file, and `can_run` asks for the nodes
that the `with` value of a step refers to, which a join may or may not repeat. So a marked entry is
honoured exactly when it stands first, and a join in the runs that hand over to its node only when the
nodes waited for are done, as far as `can_run` has not asked for them itself. -/

namespace Konf.Executor
open Konf.Substrate Konf.Parser Konf.Transition
set_option autoImplicit false

def entryNodes (schema : WorkflowSchema) : List String :=
  (schema.nodes.entries.filter fun e => e.2.entry = some true).map Sigma.fst

/-- The nodes that a node declares to wait for, all of them. -/
def waitsFor (schema : WorkflowSchema) (name : String) : List String :=
  match (schema.nodes.lookup name).bind NodeSchema.join with
  | some join => if join.policy = some "all" then join.waitFor else []
  | none => []

def Event.begunStep : Event → Option StepId
  | .began x _ _ => some x
  | _ => none

def firstBegun (trace : List Event) : Option StepId := trace.findSome? Event.begunStep

/-- If exactly one node is marked as entry, it is the first that is executed. -/
def EntryHonoured (schema : WorkflowSchema) (trace : List Event) : Prop :=
  ∀ name, entryNodes schema = [name] → ∀ x, firstBegun trace = some x → x = name

/-- A node that waits for others begins after all of them have completed. -/
def JoinHonoured (schema : WorkflowSchema) (trace : List Event) : Prop :=
  BeginsAfter (waitsFor schema) trace

/-! ## The first step -/

def EntryStandsFirst (schema : WorkflowSchema) : Prop :=
  ∀ name, entryNodes schema = [name] → schema.nodes.keys.head? = some name

/-- The task has not begun a step, or has given up before. -/
def TaskPc.Waiting : TaskPc → Prop
  | .loopTop | .setVar _ | .enter => True
  | .sending msgs _ => ∀ m ∈ msgs, ∃ n, m = .node n
  | _ => False

/-- Nobody has asked for another step. -/
structure Still (s : State) : Prop where
  waiting : ∀ t ∈ s.tasks, t.pc.Waiting
  continued : ∀ x, continuedTo s.trace x = false
  requested : ∀ x, requested s.trace x = false

section First
variable {env : ExecutorEnv} {s s' : State} {c : Choice env.Answer}

theorem firstBegun_append (l l' : List Event) :
    firstBegun (l ++ l') = (firstBegun l).or (firstBegun l') := List.findSome?_append

theorem Still.append (h : Still s) (htasks : ∀ t ∈ s'.tasks, t.pc.Waiting) {more : List Event}
    (htrace : s'.trace = s.trace ++ more)
    (hmore : ∀ x, continuedTo more x = false ∧ Konf.Executor.requested more x = false) : Still s' := by
  refine ⟨htasks, ?_, ?_⟩
  · intro x
    rw [htrace, continuedTo_append, h.continued, (hmore x).1, Bool.or_false]
  · intro x
    rw [htrace, requested_append, h.requested, (hmore x).2, Bool.or_false]

theorem Task.Move.waiting {t t' : Task} {e : Option Event} (h : Task.Move env s t t' e)
    (hpc : t.pc.Waiting) (hnone : firstBegun e.toList = none) :
    t'.pc.Waiting ∧ ∀ x, continuedTo e.toList x = false ∧ requested e.toList x = false := by
  cases h with
  | enter => cases hnone
  | abandon =>
    refine ⟨?_, fun x => ⟨rfl, rfl⟩⟩
    intro m hm
    exact ⟨_, List.mem_singleton.mp hm⟩
  | start _ _ hto =>
    refine ⟨?_, fun x => ⟨rfl, rfl⟩⟩
    obtain rfl | ⟨var, rfl, -⟩ := hto
    · trivial
    · trivial
  | setVar => exact ⟨trivial, fun x => ⟨rfl, rfl⟩⟩
  | @send m msgs result hto =>
    rw [hto] at hpc
    obtain ⟨n, rfl⟩ := hpc m List.mem_cons_self
    exact ⟨fun m hm => hpc m (List.mem_cons_of_mem _ hm), fun x => ⟨rfl, rfl⟩⟩
  | fail hto | skip hto | fallback hto | read hto | answer _ hto | record hto | again hto
  | leaveRepeat hto | fanOut hto | follow hto | goto hto =>
    rw [hto] at hpc
    exact hpc.elim

theorem Still.step (h : Still s) (hs : Trans env s c s') (hnone : firstBegun s'.trace = none) :
    Still s' := by
  cases hs.kind with
  | silent pc b => exact ⟨h.waiting, h.continued, h.requested⟩
  | @task _ k t t' e _ hk hmove =>
    rw [State.move_trace, firstBegun_append, Option.or_eq_none_iff] at hnone
    obtain ⟨hpc, hquiet⟩ := hmove.waiting (h.waiting t (List.mem_of_getElem? hk)) hnone.2
    refine h.append ?_ (State.move_trace ..) hquiet
    intro u hu
    rw [State.move_tasks] at hu
    obtain hu | rfl := List.mem_or_eq_of_mem_set hu
    · exact h.waiting u hu
    · exact hpc
  | join hk hpc =>
    exact h.append (fun u hu => h.waiting u (List.mem_of_mem_eraseIdx hu)) rfl (fun x => ⟨rfl, rfl⟩)
  | recv hk hfifo => exact h.append h.waiting rfl (fun x => ⟨rfl, rfl⟩)
  | spawn hm hrun =>
    refine h.append ?_ rfl (fun x => ⟨rfl, rfl⟩)
    intro u hu
    cases List.mem_append.mp hu with
    | inl hu => exact h.waiting u hu
    | inr hu =>
      rw [List.mem_singleton.mp hu]
      trivial
  | abort hm =>
    exact ⟨fun u hu => h.waiting u (List.mem_of_mem_eraseIdx hu), h.continued, h.requested⟩

theorem still_start (env : ExecutorEnv) (input : Json) :
    Still (start env input) ∧ firstBegun (start env input).trace = none := by
  unfold start
  split
  · refine ⟨⟨?_, fun x => rfl, fun x => rfl⟩, rfl⟩
    intro t ht
    rw [List.mem_singleton.mp ht]
    trivial
  · exact ⟨⟨by simp [State.fresh], fun x => rfl, fun x => rfl⟩, rfl⟩

theorem Trans.begins (hs : Trans env s c s') : ∃ more, s'.trace = s.trace ++ more ∧
    ∀ x, firstBegun more = some x → ∃ t ∈ s.tasks, t.current.id = x := by
  cases hs.kind with
  | silent pc b => exact ⟨[], (List.append_nil _).symm, by simp [firstBegun]⟩
  | @task _ k t t' e _ hk hmove =>
    refine ⟨e.toList, State.move_trace .., ?_⟩
    intro x hx
    refine ⟨t, List.mem_of_getElem? hk, ?_⟩
    cases hmove with
    | enter =>
      cases hx
      rfl
    | _ => cases hx
  | join hk hpc => exact ⟨_, rfl, by simp [firstBegun, Event.begunStep]⟩
  | recv hk hfifo => exact ⟨_, rfl, by simp [firstBegun, Event.begunStep]⟩
  | spawn hm hrun => exact ⟨_, rfl, by simp [firstBegun, Event.begunStep]⟩
  | abort hm => exact ⟨[], (List.append_nil _).symm, by simp [firstBegun]⟩

structure Starts (env : ExecutorEnv) (s : State) : Prop where
  still : firstBegun s.trace = none → Still s
  first : ∀ x, firstBegun s.trace = some x → x = env.workflow.entry

theorem Starts.step (h : Starts env s) (harr : Arrivals s) (hspawn : Spawning env s)
    (hs : Trans env s c s') : Starts env s' := by
  obtain ⟨more, htrace, hmore⟩ := hs.begins
  have happend : firstBegun s'.trace = (firstBegun s.trace).or (firstBegun more) := by
    rw [htrace, firstBegun_append]
  refine ⟨?_, ?_⟩
  · intro hnone
    have hboth := happend.symm.trans hnone
    rw [Option.or_eq_none_iff] at hboth
    exact (h.still hboth.1).step hs hnone
  · intro x hx
    rw [happend] at hx
    cases hold : firstBegun s.trace with
    | some y =>
      rw [hold, Option.some_or] at hx
      cases hx
      exact h.first _ hold
    | none =>
      rw [hold, Option.none_or] at hx
      obtain ⟨t, ht, rfl⟩ := hmore x hx
      have hstill := h.still hold
      -- nobody has moved on or asked for a step, so the task was spawned as the entry
      obtain ⟨hspawned, -⟩ | hcontinued := harr.tasks t ht
      · cases hspawn.source _ _ hspawned with
        | inl hentry => exact hentry
        | inr hreq =>
          rw [hstill.requested] at hreq
          cases hreq
      · have hmoved := continuedTo_of_mem hcontinued
        rw [hstill.continued] at hmoved
        cases hmoved

theorem Reachable.starts (h : Reachable env s) : Starts env s := by
  refine Reaches.invariant ?_ ?_ h
  · rintro s ⟨-, input, rfl⟩
    obtain ⟨hstill, hnone⟩ := still_start env input
    refine ⟨fun _ => hstill, ?_⟩
    intro x hx
    rw [hnone] at hx
    cases hx
  · intro s c s' hr hi hs
    exact hi.step (Reachable.arrivals hr) (Reachable.spawning hr) hs

variable {lib : Externals} {config : EngineConfig} {schema : WorkflowSchema}

/-- Once a step has begun, the marked entry is honoured exactly when it stands first. -/
theorem entryHonoured_iff (hparse : parse lib config schema = .ok env.workflow)
    (h : Reachable env s) (hbegun : firstBegun s.trace ≠ none) :
    EntryHonoured schema s.trace ↔ EntryStandsFirst schema := by
  obtain ⟨-, hhead⟩ := compile_ok (parse_ok hparse).2
  obtain ⟨x, hx⟩ := Option.ne_none_iff_exists'.mp hbegun
  have hentry := (Reachable.starts h).first x hx
  constructor
  · intro honoured name hname
    rw [hhead, ← hentry, honoured name hname x hx]
  · intro hfirst name hname y hy
    have hsome := hfirst name hname
    rw [hhead] at hsome
    rw [(Reachable.starts h).first y hy]
    exact Option.some.inj hsome

end First

/-! ## Handing over to a join -/

/-- `can_run` has asked for the node, under a name that stands for nothing else. -/
def Asked (w : Workflow) (step : Step) (d : StepId) : Prop :=
  d ∈ step.dependsOn ∧ d ≠ "input" ∧
    ∀ other ∈ w.steps, other.repeat_.bind RepeatConfig.asVar ≠ some d

instance (w : Workflow) (step : Step) (d : StepId) : Decidable (Asked w step d) :=
  inferInstanceAs (Decidable (d ∈ step.dependsOn ∧ d ≠ "input" ∧
    ∀ other ∈ w.steps, other.repeat_.bind RepeatConfig.asVar ≠ some d))

/-- A node that waits for others is handed over to when they have completed: a task that moves on to
it finds all of them recorded, and the main loop those that `can_run` has not asked for. -/
def JoinsReady (schema : WorkflowSchema) (env : ExecutorEnv) (s : State) (c : Choice env.Answer) :
    Prop :=
  (∀ step ∈ spawnedBy s c, ∀ d ∈ waitsFor schema step.id,
    Asked env.workflow step d ∨ Recorded s.trace d) ∧
  ∀ e ∈ emitted env s c, ∀ x ∈ e.continuedStep, ∀ d ∈ waitsFor schema x, Recorded s.trace d

instance (schema : WorkflowSchema) (env : ExecutorEnv) (s : State) (c : Choice env.Answer) :
    Decidable (JoinsReady schema env s c) :=
  inferInstanceAs (Decidable ((∀ step ∈ spawnedBy s c, ∀ d ∈ waitsFor schema step.id,
    Asked env.workflow step d ∨ Recorded s.trace d) ∧
    ∀ e ∈ emitted env s c, ∀ x ∈ e.continuedStep, ∀ d ∈ waitsFor schema x, Recorded s.trace d))

/-- Where the marked entry stands first and the first node waits for none, the declared control flow is
honoured in every run that hands over to a waiting node only when it is ready. -/
theorem declared_flow_honoured {lib : Externals} {config : EngineConfig} {schema : WorkflowSchema}
    (env : ExecutorEnv) (hparse : parse lib config schema = .ok env.workflow)
    (hentry : EntryStandsFirst schema)
    (hfirst : ∀ name, schema.nodes.keys.head? = some name → waitsFor schema name = []) (s : State)
    (h : ReachesBy (Trans env) (JoinsReady schema env) (Initial env) s) :
    EntryHonoured schema s.trace ∧ JoinHonoured schema s.trace := by
  have hjoin : ∀ step ∈ env.workflow.steps, step.join = .all := by
    intro step hstep
    obtain ⟨node, -, hc⟩ := step_compiled hparse hstep
    exact hc.join
  have hinv : Awaited (waitsFor schema) s := by
    refine h.invariant ?_ ?_
    · rintro s ⟨-, input, rfl⟩
      exact awaited_start env input (hfirst _ (compile_ok (parse_ok hparse).2).2)
    · intro s c s' hr hi hok hs
      refine hi.step hs ?_ hok.2
      intro step hstep d hd
      obtain ⟨n, todo, hm, hrun⟩ := spawnedBy_eq hstep
      have hmem := Workflow.getStep_mem ((Reachable.residence hr.reaches).checking _ _ _ _ hm).1
      -- what `can_run` asked for is done, the rest is a condition on the run
      obtain ⟨hdep, hinput, hvar⟩ | hrec := hok.1 step hstep d hd
      · exact (Reachable.completion hr.reaches).deps_recorded (hjoin step hmem) hm hrun hdep hinput hvar
      · exact hrec
  refine ⟨?_, hinv.after⟩
  by_cases hbegun : firstBegun s.trace = none
  · intro name _ x hx
    rw [hbegun] at hx
    cases hx
  · exact (entryHonoured_iff hparse h.reaches hbegun).mpr hentry

/-- `a` is marked and starts `b` and `c`; `d` waits for both of them and reads what they return. -/
def gatherSchema : WorkflowSchema where
  workflow := "gather"
  nodes := StrMap.ofList
    [("a", { entry := some true, then_ := some (.multiple ["b", "c"]) }),
      ("b", { then_ := some (.unconditional "d") }),
      ("c", { then_ := some (.unconditional "d") }),
      ("d", { with_ := some (.obj
                [("p", .str "\x7b\x7bb.y\x7d\x7d"), ("q", .str "\x7b\x7bc.y\x7d\x7d")])
              join := some ⟨["b", "c"], some "all"⟩
              return_ := some (.str "done") })]
    (by decide)

theorem gather_honoured : ∃ w s,
    parse plainExternals EngineConfig.default gatherSchema = .ok w ∧
      entryNodes gatherSchema = ["a"] ∧ waitsFor gatherSchema "d" = ["b", "c"] ∧
      ReachesBy (Trans (plainEnv EngineConfig.default w)) (JoinsReady gatherSchema _)
        (Initial (plainEnv EngineConfig.default w)) s ∧
      s.trace.any (Event.begins "d") = true ∧
      EntryHonoured gatherSchema s.trace ∧ JoinHonoured gatherSchema s.trace := by
  have hrun : parsedRun (plainEnv EngineConfig.default) (JoinsReady gatherSchema)
      EngineConfig.default gatherSchema (fun _ => joinScript)
      (fun _ s => s.trace.any (Event.begins "d")) = true := by
    decide +kernel
  obtain ⟨w, s, hw, hs, hp⟩ := parsedRun_reaches hrun (fun _ => rfl) (by decide)
  have hmarked : entryNodes gatherSchema = ["a"] := by decide
  have hentry : EntryStandsFirst gatherSchema := by
    intro name hname
    rw [hmarked] at hname
    cases hname
    rfl
  refine ⟨w, s, hw, hmarked, by decide, hs, hp, ?_⟩
  refine declared_flow_honoured (plainEnv EngineConfig.default w) hw hentry ?_ s hs
  intro name hname
  cases hname
  rfl

/-! ## Declarations that nobody reads -/

/-- The example of the workflow reference for `entry`. -/
def setupSchema : WorkflowSchema where
  workflow := "setup"
  nodes := StrMap.ofList
    [("setup", { do_ := some (.single "echo"), then_ := some (.unconditional "main") }),
      ("main", { entry := some true
                 do_ := some (.single "ai:complete")
                 with_ := some (.obj [("prompt", .str "\x7b\x7binput.message\x7d\x7d")])
                 return_ := some (.bool true) })]
    (by decide)

/-- Both branches of a diamond go on to a node that waits for them and reads no output. -/
def barrierSchema : WorkflowSchema where
  workflow := "barrier"
  nodes := StrMap.ofList
    [("a", { then_ := some (.multiple ["b", "c"]) }),
      ("b", { then_ := some (.unconditional "d") }),
      ("c", { then_ := some (.unconditional "d") }),
      ("d", { join := some ⟨["b", "c"], some "all"⟩, return_ := some (.str "done") })]
    (by decide)

/-- The marked entry is not where the run starts, and a branch goes on past the join while the other
has not begun. -/
theorem declared_flow_ignored :
    (∃ w s, parse plainExternals EngineConfig.default setupSchema = .ok w ∧
      Reachable (plainEnv EngineConfig.default w) s ∧ ¬EntryHonoured setupSchema s.trace) ∧
    ∃ w s, parse plainExternals EngineConfig.default barrierSchema = .ok w ∧
      Reachable (plainEnv EngineConfig.default w) s ∧ ¬JoinHonoured barrierSchema s.trace := by
  have hsetup : parsedRun (plainEnv EngineConfig.default) (fun _ _ _ => True) EngineConfig.default
      setupSchema (fun _ => [.task 0, .task 0])
      (fun _ s => decide (firstBegun s.trace = some "setup")) = true := by
    decide +kernel
  have hbarrier : parsedRun (plainEnv EngineConfig.default) (fun _ _ _ => True)
      EngineConfig.default barrierSchema (fun _ => forkScript)
      (fun _ s => s.trace.getLast?.any (Event.begins "d") &&
        !decide (Recorded s.trace.dropLast "c")) = true := by
    decide +kernel
  constructor
  · obtain ⟨w, s, hw, hs, hp⟩ := parsedRun_reaches hsetup (fun _ => rfl) (by decide)
    refine ⟨w, s, hw, hs, ?_⟩
    intro honoured
    have hmain := honoured "main" (by decide) "setup" (of_decide_eq_true hp)
    revert hmain
    decide
  · obtain ⟨w, s, hw, hs, hp⟩ := parsedRun_reaches hbarrier (fun _ => rfl) (by decide)
    rw [Bool.and_eq_true] at hp
    refine ⟨w, s, hw, hs, ?_⟩
    intro honoured
    obtain ⟨i, v, hsplit⟩ := began_last hp.1
    have hdone := honoured _ _ _ _ _ hsplit "c" (by decide)
    simp [hdone] at hp

end Konf.Executor
