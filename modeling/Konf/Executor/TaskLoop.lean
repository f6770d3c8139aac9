import Konf.Executor.Residence
import Konf.Executor.ParsedRun
import Konf.Parser.Reachability

/-! # The loop of a node task

A node task goes round its loop for three reasons: its step repeats, it goes on inline at the only
successor, or it jumps to the `catch` target. The first is bounded by `repeat.max` and stays at the
step. The other two descend in the graph that the validator has searched, and start the count anew. So
the iterations of a task fall into one block for each step of a path, and a task that is not waiting
for its tool comes to the end of its loop. -/

namespace Konf.Executor
open Konf.Substrate Konf.Parser Konf.Transition Konf.Search Relation
set_option autoImplicit false

/-! ## Moves of one task -/

/-- A task moves by itself, in whatever state it finds the rest of the run, or its tool returns. -/
inductive Task.Advances (env : ExecutorEnv) (t : Task) : Task → Prop
  | own {s : State} {t' : Task} {e : Option Event} (h : t.next env s = some (t', e)) :
      Advances env t t'
  | answer {seen : Outputs} (a : env.Answer) (hpc : t.pc = .executing seen) :
      Advances env t (t.answered (env.executeStep a t.current seen))

def TaskPc.atTop : TaskPc → Bool
  | .loopTop => true
  | _ => false

-- the moves left in an iteration
def TaskPc.rank : TaskPc → ℕ
  | .loopTop => 8
  | .setVar _ => 7
  | .enter => 6
  | .readOutputs => 5
  | .executing _ => 4
  | .succeeded _ | .failed _ => 3
  | .checkRepeat _ => 2
  | .chooseNext _ => 1
  | .sending _ _ => 0

/-- The rounds that a step may take: one, or as many as its `repeat` allows. -/
def rounds (s : Step) : ℕ := max 1 ((s.repeat_.map RepeatConfig.max).getD 0)

/-- What a move means for the loop: it stays in the iteration, goes round at the same step, or goes on
at a successor. -/
inductive Task.Turn (env : ExecutorEnv) (t t' : Task) : Prop
  | within (hcurrent : t'.current = t.current) (htop : t'.pc.atTop = false)
      (hiter : t.iteration ≤ t'.iteration) (hrank : t.pc.Open → t'.pc.rank < t.pc.rank)
  | again (hcurrent : t'.current = t.current) (htop : t'.pc.atTop = true)
      (hiter : t'.iteration = t.iteration + 1) (hrank : t.pc.rank = 2)
      (hmore : t.iteration + 1 < rounds t.current)
  | onward (htop : t'.pc.atTop = true) (hiter : t'.iteration = 0)
      (hnext : env.workflow.getStep t'.current.id = some t'.current)
      (hsuccessor : t'.current.id ∈ t.current.targets ∨ t.current.onError = .goto t'.current.id)

section Turns
variable {env : ExecutorEnv} {s : State} {t t' : Task} {e : Option Event}

theorem walkEdges_target {step : Step} {outputs : Outputs} {edges : List Edge}
    {found targets : List EdgeTarget} {x : StepId}
    (h : walkEdges env step outputs edges found = .ok targets) (hx : .step x ∈ targets) :
    .step x ∈ found ∨ ∃ e ∈ edges, e.target = .step x := by
  induction edges generalizing found with
  | nil =>
    rw [walkEdges] at h
    cases h
    split_ifs at hx with hempty
    · cases List.mem_singleton.mp hx
    · exact .inl hx
  | cons edge rest ih =>
    rw [walkEdges] at h
    have hlift : (∃ e ∈ rest, e.target = .step x) → ∃ e ∈ edge :: rest, e.target = .step x := by
      rintro ⟨e, he, htarget⟩
      exact ⟨e, List.mem_cons_of_mem _ he, htarget⟩
    have hnew : .step x ∈ found ++ [edge.target] →
        .step x ∈ found ∨ ∃ e ∈ edge :: rest, e.target = .step x := by
      intro hmem
      obtain hmem | hmem := List.mem_append.mp hmem
      · exact .inl hmem
      · exact .inr ⟨edge, List.mem_cons_self, (List.mem_singleton.mp hmem).symm⟩
    cases hcond : edge.condition with
    | none =>
      rw [hcond] at h
      obtain hmem | hmem := ih h
      · exact hnew hmem
      · exact .inr (hlift hmem)
    | some condition =>
      rw [hcond] at h
      simp only at h
      split at h
      · cases h
        exact hnew hx
      · exact (ih h).imp_right hlift
      · cases h

theorem evaluateEdgesTargets_target {step : Step} {outputs : Outputs} {targets : List EdgeTarget}
    {x : StepId} (h : evaluateEdgesTargets env step outputs = .ok targets)
    (hx : .step x ∈ targets) : x ∈ step.targets := by
  rw [evaluateEdgesTargets] at h
  split_ifs at h
  · cases h
    cases List.mem_singleton.mp hx
  · obtain hmem | ⟨e, he, htarget⟩ := walkEdges_target h hx
    · cases hmem
    · exact Step.mem_targets.mpr ⟨e, (List.mem_insertionSort _).mp he, htarget⟩

theorem TaskPc.rank_pos {pc : TaskPc} (h : pc.Open) : 0 < pc.rank := by
  cases pc with
  | sending msgs result => exact absurd rfl (h msgs result)
  | _ => simp [TaskPc.rank]

theorem Task.Turn.closed (msgs : List FinishedInfo) (result : TaskResult) :
    Task.Turn env t (t.close msgs result) :=
  .within rfl rfl (Nat.le_refl _) TaskPc.rank_pos

theorem Task.Turn.to {pc : TaskPc} {n : ℕ} (htop : pc.atTop = false) (hrank : pc.rank < t.pc.rank) :
    Task.Turn env t { t with stepsExecuted := n, pc := pc } :=
  .within rfl htop (Nat.le_refl _) fun _ => hrank

theorem Task.repeatOrLeave_turn {val : Json} (hpc : t.pc = .checkRepeat val) :
    Task.Turn env t (t.repeatOrLeave env val s.outputs) := by
  have hrank : t.pc.rank = 2 := by rw [hpc]; rfl
  have hleave : (TaskPc.chooseNext val).rank < t.pc.rank := by
    rw [hrank]
    exact Nat.one_lt_two
  unfold Task.repeatOrLeave
  split
  · exact .to rfl hleave
  · rename_i r hr
    split
    · exact .to rfl hleave
    · split_ifs with hmore
      · refine .again rfl rfl rfl hrank ?_
        rw [rounds, hr]
        exact lt_max_of_lt_right hmore
      · exact .within rfl rfl (Nat.le_succ _) fun _ => hleave
    · exact .closed [] _

/-- Every move of a task is a turn of its loop. The moves at `checkRepeat` are read off the source's
test; all others are those of `Task.Move`. -/
theorem Task.next_turn (h : t.next env s = some (t', e)) : Task.Turn env t t' := by
  by_cases hrepeat : ∃ val, t.pc = .checkRepeat val
  · obtain ⟨val, hpc⟩ := hrepeat
    rw [Task.next, hpc] at h
    cases h
    exact Task.repeatOrLeave_turn hpc
  · cases Task.next_move h with
    | abandon _ _ | fail _ | skip _ _ | fallback _ _ | fanOut _ _ => exact .closed _ _
    | @start pc hpc _ hto =>
      obtain rfl | ⟨var, rfl, -⟩ := hto
      · exact .to rfl (by rw [hpc]; decide)
      · exact .to rfl (by rw [hpc]; exact Nat.lt_succ_self 7)
    | setVar hpc | enter hpc | read hpc => exact .to rfl (by rw [hpc]; exact Nat.lt_succ_self _)
    | answer a hpc =>
      rw [Task.next, hpc] at h
      cases h
    | @record val pc hpc hto =>
      obtain rfl | rfl := hto
      · exact .to rfl (by rw [hpc]; exact Nat.lt_succ_self 2)
      · exact .to rfl (by rw [hpc]; exact Nat.lt_of_lt_of_le Nat.one_lt_two (Nat.le_succ 2))
    | again hpc | leaveRepeat hpc => exact absurd ⟨_, hpc⟩ hrepeat
    | follow hpc hedges hnext _ =>
      exact .onward rfl rfl hnext (.inl (evaluateEdgesTargets_target hedges List.mem_cons_self))
    | goto hpc hact hnext => exact .onward rfl rfl hnext (.inr hact)
    | send hpc =>
      refine .within rfl rfl (Nat.le_refl _) fun hopen => ?_
      exact absurd hpc (hopen _ _)

theorem Task.Advances.turn (h : t.Advances env t') : Task.Turn env t t' := by
  cases h with
  | own h => exact Task.next_turn h
  | answer a hpc =>
    unfold Task.answered
    split
    · exact .to rfl (by rw [hpc]; exact Nat.lt_succ_self 3)
    · exact .to rfl (by rw [hpc]; exact Nat.lt_succ_self 3)

end Turns

/-! ## Blocks of iterations -/

/-- The moves of a task from its start, with the steps at which its iterations have begun. -/
inductive Task.Run (env : ExecutorEnv) (t₀ : Task) : List StepId → Task → Prop
  | start : Run env t₀ [t₀.current.id] t₀
  | move {log : List StepId} {t t' : Task} (h : Run env t₀ log t) (hs : t.Advances env t') :
      Run env t₀ (if t'.pc.atTop then log ++ [t'.current.id] else log) t'

/-- The rounds that a node of the schema may take. -/
def nodeRounds (schema : WorkflowSchema) (x : StepId) : ℕ :=
  max 1 ((((schema.nodes.lookup x).bind NodeSchema.repeat_).map RepeatConfigSchema.max).getD 0)

/-- Steps along a path of the schema's graph, each with its number of iterations. -/
structure Blocks (schema : WorkflowSchema) (first : StepId) (blocks : List (StepId × ℕ)) : Prop where
  chain : (blocks.map Prod.fst).IsChain (Leads schema)
  first : (blocks.map Prod.fst).head? = some first
  bounded : ∀ b ∈ blocks, 1 ≤ b.2 ∧ b.2 ≤ nodeRounds schema b.1

def inOrder (blocks : List (StepId × ℕ)) : List StepId :=
  blocks.flatMap fun b => List.replicate b.2 b.1

theorem length_inOrder {schema : WorkflowSchema} {blocks : List (StepId × ℕ)}
    (h : ∀ b ∈ blocks, 1 ≤ b.2 ∧ b.2 ≤ nodeRounds schema b.1) :
    (inOrder blocks).length ≤ (blocks.map fun b => nodeRounds schema b.1).sum := by
  induction blocks with
  | nil => exact Nat.le_refl _
  | cons b bs ih =>
    have hb := (h b List.mem_cons_self).2
    have hbs := ih fun b' hb' => h b' (List.mem_cons_of_mem _ hb')
    simp only [inOrder, List.flatMap_cons, List.length_append, List.length_replicate, List.map_cons,
      List.sum_cons] at hbs ⊢
    omega

theorem inOrder_concat (blocks : List (StepId × ℕ)) (b : StepId × ℕ) :
    inOrder (blocks ++ [b]) = inOrder blocks ++ List.replicate b.2 b.1 := by
  simp [inOrder]

section Parsed
variable {lib : Externals} {config : EngineConfig} {schema : WorkflowSchema} {env : ExecutorEnv}

/-- Where a step can go on is a successor that the validator has searched. -/
theorem leads_of_successor (hparse : parse lib config schema = .ok env.workflow)
    {step : Step} {x y : StepId} (hstep : env.workflow.getStep x = some step)
    (hy : y ∈ step.targets ∨ step.onError = .goto y) : Leads schema x y := by
  obtain ⟨node, hnode, hc⟩ := step_compiled hparse (Workflow.getStep_mem hstep)
  rw [Workflow.getStep_id hstep] at hnode
  rw [Leads, successorsOf_eq hnode]
  obtain hy | hy := hy
  · exact hc.targets hy
  · rw [hc.onError] at hy
    exact List.mem_append_right _ (catchAction_goto hy)

theorem rounds_eq (hparse : parse lib config schema = .ok env.workflow) {step : Step}
    {x : StepId} (hstep : env.workflow.getStep x = some step) :
    rounds step = nodeRounds schema x := by
  obtain ⟨node, hnode, hc⟩ := step_compiled hparse (Workflow.getStep_mem hstep)
  rw [Workflow.getStep_id hstep] at hnode
  rw [rounds, nodeRounds, hnode, hc.repeat_, Option.map_map]
  rfl

theorem leads_acc (hparse : parse lib config schema = .ok env.workflow) (x : StepId) :
    Acc (Below (successorsOf schema)) x := by
  by_cases hx : x ∈ nodeNames schema
  · exact validate_acc (parse_ok hparse).1 hx
  · refine .intro x ?_
    intro y hy
    rw [Below, successorsOf, AList.lookup_eq_none.mpr hx] at hy
    cases hy

/-- The steps of a path are different steps. -/
theorem Blocks.nodup (hparse : parse lib config schema = .ok env.workflow) {first : StepId}
    {blocks : List (StepId × ℕ)} (h : Blocks schema first blocks) :
    (blocks.map Prod.fst).Nodup := by
  have hchain : (blocks.map Prod.fst).IsChain (TransGen (Leads schema)) :=
    h.chain.imp fun _ _ hstep => .single hstep
  refine hchain.pairwise.imp ?_
  rintro x y hxy rfl
  exact not_self_of_acc (leads_acc hparse x) (leads_transGen.mp hxy)

/-- The iterations so far: whole blocks of the steps left behind, and the block of the current step,
which the iteration counter bounds. -/
def Task.InBlocks (schema : WorkflowSchema) (env : ExecutorEnv) (first : StepId) (log : List StepId)
    (t : Task) : Prop :=
  env.workflow.getStep t.current.id = some t.current ∧
    ∃ blocks n, log = inOrder (blocks ++ [(t.current.id, n)]) ∧
      Blocks schema first (blocks ++ [(t.current.id, n)]) ∧ n ≤ t.iteration + 1

theorem Task.InBlocks.step (hparse : parse lib config schema = .ok env.workflow)
    {first : StepId} {log : List StepId} {t t' : Task}
    (h : t.InBlocks schema env first log) (hs : t.Advances env t') :
    t'.InBlocks schema env first (if t'.pc.atTop then log ++ [t'.current.id] else log) := by
  obtain ⟨hcurrent, blocks, n, rfl, hblocks, hn⟩ := h
  cases hs.turn with
  | within hsame htop hiter hrank =>
    unfold Task.InBlocks
    rw [htop, hsame]
    exact ⟨hcurrent, blocks, n, rfl, hblocks, by omega⟩
  | again hsame htop hiter hrank hmore =>
    rw [htop, if_pos rfl, hsame]
    refine ⟨hsame ▸ hcurrent, blocks, n + 1, ?_, ?_, by omega⟩
    · rw [hsame, inOrder_concat, inOrder_concat, List.append_assoc]
      simp only [List.replicate_succ']
    · rw [rounds_eq hparse hcurrent] at hmore
      refine ⟨?_, ?_, ?_⟩
      · simpa [hsame] using hblocks.chain
      · simpa [hsame] using hblocks.first
      · intro b hb
        obtain hb | hb := List.mem_append.mp hb
        · exact hblocks.bounded b (List.mem_append_left _ hb)
        · rw [List.mem_singleton.mp hb, hsame]
          refine ⟨Nat.le_add_left 1 n, ?_⟩
          show n + 1 ≤ nodeRounds schema t.current.id
          omega
  | onward htop hiter hnext hsuccessor =>
    rw [htop, if_pos rfl]
    refine ⟨hnext, blocks ++ [(t.current.id, n)], 1, ?_, ?_, by omega⟩
    · rw [inOrder_concat _ (t'.current.id, 1)]
      rfl
    · refine ⟨?_, ?_, ?_⟩
      · rw [List.map_append]
        refine List.isChain_append.mpr ⟨hblocks.chain, List.isChain_singleton _, ?_⟩
        intro x hx y hy
        obtain rfl : t.current.id = x := by simpa using hx
        obtain rfl : t'.current.id = y := by simpa using hy
        exact leads_of_successor hparse hcurrent hsuccessor
      · rw [List.map_append, List.head?_append, hblocks.first]
        rfl
      · intro b hb
        obtain hb | hb := List.mem_append.mp hb
        · exact hblocks.bounded b hb
        · rw [List.mem_singleton.mp hb]
          exact ⟨Nat.le_refl 1, le_max_left ..⟩

theorem Task.Run.inBlocks (hparse : parse lib config schema = .ok env.workflow)
    {i : ℕ} {step : Step} {log : List StepId} {t : Task}
    (hstep : env.workflow.getStep step.id = some step) (h : (Task.spawned i step).Run env log t) :
    t.InBlocks schema env step.id log := by
  induction h with
  | start =>
    refine ⟨hstep, [], 1, rfl, ⟨List.isChain_singleton _, rfl, ?_⟩, Nat.le_refl _⟩
    intro b hb
    rw [List.mem_singleton.mp hb]
    exact ⟨Nat.le_refl 1, le_max_left ..⟩
  | move _ hs ih => exact InBlocks.step hparse ih hs

/-! ## The end of the loop -/

/-- The moves before the loop is left. -/
def Task.Goes (env : ExecutorEnv) (t' t : Task) : Prop := t.pc.Open ∧ t.Advances env t'

-- rounds that are left, and moves left in the current one
def Task.remaining (t : Task) : ℕ := (rounds t.current - t.iteration) * 10 + t.pc.rank

theorem Task.goes_acc (hparse : parse lib config schema = .ok env.workflow) (t : Task)
    (hcurrent : env.workflow.getStep t.current.id = some t.current) :
    Acc (Task.Goes env) t := by
  -- the steps left behind form a descent of the searched graph; at one step the rounds run out
  have hacc := leads_acc hparse t.current.id
  generalize hx : t.current.id = x at hacc
  induction hacc generalizing t with
  | intro x hbelow ih =>
    subst hx
    generalize hm : t.remaining = m
    induction m using Nat.strongRecOn generalizing t with
    | ind m ihm =>
      refine .intro t ?_
      rintro t' ⟨hopen, hs⟩
      cases hs.turn with
      | within hsame htop hiter hrank =>
        have hless : t'.remaining < t.remaining := by
          have hdown := hrank hopen
          unfold Task.remaining
          rw [hsame]
          omega
        exact ihm _ (hm ▸ hless) t' (hsame ▸ hcurrent) (hsame ▸ hbelow) (hsame ▸ ih) rfl
      | again hsame htop hiter hrank hmore =>
        have htop' : t'.pc.rank = 8 := by
          cases hpc : t'.pc with
          | loopTop => rfl
          | _ =>
            rw [hpc] at htop
            cases htop
        have hless : t'.remaining < t.remaining := by
          unfold Task.remaining
          rw [hsame, hiter, hrank, htop']
          omega
        exact ihm _ (hm ▸ hless) t' (hsame ▸ hcurrent) (hsame ▸ hbelow) (hsame ▸ ih) rfl
      | onward htop hiter hnext hsuccessor =>
        exact ih _ (leads_of_successor hparse hcurrent hsuccessor) t' hnext rfl

end Parsed

/-- Before the loop is left, the task waits for its tool or can move. -/
theorem Task.open_moves (env : ExecutorEnv) {t : Task} (hopen : t.pc.Open) (s : State) :
    (∃ seen, t.pc = .executing seen) ∨ ∃ t' e, t.next env s = some (t', e) := by
  unfold Task.next
  cases hpc : t.pc with
  | executing seen => exact .inl ⟨seen, rfl⟩
  | sending msgs result => exact absurd hpc (hopen msgs result)
  | loopTop =>
    simp only
    split_ifs
    · exact .inr ⟨_, _, rfl⟩
    · exact .inr ⟨_, _, rfl⟩
  | chooseNext val =>
    simp only
    split
    · exact .inr ⟨_, _, rfl⟩
    · exact .inr ⟨_, _, rfl⟩
  | _ => exact .inr ⟨_, _, rfl⟩

/-! ## Tasks of a run -/

/-- Every task has come from its spawning by moves of its own and answers of its tool. -/
def TaskRuns (env : ExecutorEnv) (s : State) : Prop :=
  ∀ t ∈ s.tasks, ∃ i step log, env.workflow.getStep step.id = some step ∧
    (Task.spawned i step).Run env log t

section Tasks
variable {env : ExecutorEnv} {s s' : State}

theorem TaskRuns.moved (h : TaskRuns env s) {k : ℕ} {t t' : Task} {e : Option Event}
    (hk : s.tasks[k]? = some t) (hs : t.Advances env t') : TaskRuns env (s.move k t' e) := by
  intro u hu
  rw [State.move_tasks] at hu
  obtain hu | rfl := List.mem_or_eq_of_mem_set hu
  · exact h u hu
  · obtain ⟨i, step, log, hstep, hrun⟩ := h t (List.mem_of_getElem? hk)
    exact ⟨i, step, _, hstep, hrun.move hs⟩

theorem TaskRuns.spawn (h : TaskRuns env s) {step : Step}
    (hstep : env.workflow.getStep step.id = some step) : TaskRuns env (s.spawn step) := by
  intro u hu
  obtain hu | hu := List.mem_append.mp hu
  · exact h u hu
  · rw [List.mem_singleton.mp hu]
    exact ⟨_, step, _, hstep, .start⟩

theorem TaskRuns.step {c : Choice env.Answer} (h : TaskRuns env s) (hres : Residence env s)
    (hs : Trans env s c s') : TaskRuns env s' := by
  cases hs with
  | task hk hn => exact h.moved hk (.own hn)
  | answer a hk hpc => exact h.moved hk (.answer a hpc)
  | join _ _ _ | abort _ _ => exact fun u hu => h u (List.mem_of_mem_eraseIdx hu)
  | depsMet hm _ => exact h.spawn (hres.checking _ _ _ _ hm).1
  | _ => exact h

theorem Reachable.taskRuns (h : Reachable env s) : TaskRuns env s := by
  refine h.invariant ?_ (fun s a s' hr hi hs => hi.step (Reachable.residence hr) hs)
  rintro s ⟨-, input, rfl⟩
  unfold start
  split
  · rename_i entry hentry
    refine TaskRuns.spawn ?_ (Workflow.getStep_id hentry ▸ hentry)
    intro u hu
    cases hu
  · intro u hu
    cases hu

end Tasks

/-- In a workflow from an accepted schema, whatever tools answer and conditions say, the iterations of
a task are one block for each step of a path through the schema's graph, no longer than the rounds that
the step may take. The loop does not go on for ever, and until it is left the task waits for its tool
or can move. The tasks of every run are such tasks. -/
theorem task_loop_ends {lib : Externals} {config : EngineConfig} {schema : WorkflowSchema}
    (env : ExecutorEnv) (hparse : parse lib config schema = .ok env.workflow) :
    (∀ i step, env.workflow.getStep step.id = some step →
      (∀ log t, (Task.spawned i step).Run env log t →
        ∃ blocks, Blocks schema step.id blocks ∧ (blocks.map Prod.fst).Nodup ∧ log = inOrder blocks ∧
          log.length ≤ (blocks.map fun b => nodeRounds schema b.1).sum) ∧
      Acc (Task.Goes env) (Task.spawned i step)) ∧
    (∀ t : Task, t.pc.Open → ∀ s, (∃ seen, t.pc = .executing seen) ∨
      ∃ t' e, t.next env s = some (t', e)) ∧
    ∀ s, Reachable env s → TaskRuns env s := by
  refine ⟨?_, fun t hopen s => Task.open_moves env hopen s, fun s hs => hs.taskRuns⟩
  intro i step hstep
  refine ⟨?_, Task.goes_acc hparse _ hstep⟩
  intro log t hrun
  obtain ⟨-, blocks, n, rfl, hblocks, -⟩ := hrun.inBlocks hparse hstep
  exact ⟨_, hblocks, hblocks.nodup hparse, rfl, length_inOrder hblocks.bounded⟩

/-- A node that asks up to five times, and then goes on. -/
def pollingSchema : WorkflowSchema where
  workflow := "polling"
  nodes := StrMap.ofList
    [("poll", { do_ := some (.single "echo"), repeat_ := some ⟨"poll.ready", 5, some "round"⟩
                then_ := some (.unconditional "report"), catch_ := .simple "report" }),
      ("report", { return_ := some (.str "done") })]
    (by decide)

theorem polling_ends : ∃ w step,
    parse plainExternals EngineConfig.default pollingSchema = .ok w ∧ w.getStep "poll" = some step ∧
      Acc (Task.Goes (plainEnv EngineConfig.default w)) (Task.spawned 0 step) := by
  have hparse : parse plainExternals EngineConfig.default pollingSchema = .ok _ := rfl
  exact ⟨_, _, hparse, rfl, ((task_loop_ends (plainEnv EngineConfig.default _) hparse).1 0 _ rfl).2⟩

end Konf.Executor
