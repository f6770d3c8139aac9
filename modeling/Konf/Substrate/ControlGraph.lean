import Konf.Substrate.Validate

/-! # The graph the executor follows

From a step the executor goes on along its edges or, when the step fails, to the `Goto` target of its
error action. It takes the step that `get_step` resolves: the first one with the id. The check for
cycles searches the edges of the last step with an id, and no `Goto` target. What it does search has
no cycle, so every cycle of the executor's graph passes through a transition that it does not see. -/

namespace Konf.Substrate
open Konf.Search Konf.Fallible Relation
set_option autoImplicit false

namespace Workflow

/-- The executor can go on from `x` at `y`: along an edge, or by the error action. -/
def Control (w : Workflow) (x y : StepId) : Prop :=
  ∃ s, w.getStep x = some s ∧ (y ∈ s.targets ∨ s.onError = .goto y)

def Repeated (w : Workflow) (id : StepId) : Prop := 1 < (w.steps.filter fun s => s.id == id).length

/-- A transition of the executor that may be missing from the graph searched: a `Goto`, or an edge of a
step whose id another step has too. -/
def Unsearched (w : Workflow) (x y : StepId) : Prop :=
  ∃ s, w.getStep x = some s ∧ (s.onError = .goto y ∨ y ∈ s.targets ∧ w.Repeated x)

/-- Every place the executor can go on at is a step, and it never comes back to where it was. -/
def ControlSafe (w : Workflow) : Prop :=
  (∀ x y, w.Control x y → ∃ s, w.getStep y = some s) ∧ ∀ x, ¬TransGen w.Control x x

end Workflow

section Graph
variable {w : Workflow}

/-! ## What validation has checked -/

theorem detectCycles_acc (h : w.detectCycles = .ok ()) (x : StepId) : Acc (Below w.adjacency) x := by
  unfold Workflow.detectCycles at h
  simp only at h
  split_ifs at h with hfound
  by_cases hx : ∃ s ∈ w.steps, s.id = x
  · obtain ⟨s, hs, rfl⟩ := hx
    refine searchAll_sound _ _ .start ?_ ?_ (by simpa using hfound) s.id ?_
    · intro y hy
      cases hy
    · intro g hg
      cases hg
    · exact List.mem_cons_of_mem _ (List.mem_map_of_mem hs)
  · -- nothing leads away from an id without a step
    refine .intro x ?_
    intro y hy
    obtain ⟨s, hs, hid, -⟩ := Workflow.mem_adjacency hy
    exact absurd ⟨s, hs, hid⟩ hx

theorem validate_eq : w.validate =
    ((if (w.getStep w.entry).isNone then .error .noEntryNode else .ok ()) >>= fun _ =>
      (w.steps.forM fun step => do
        step.edges.forM (w.checkEdge step)
        step.dependsOn.forM (w.checkDependency step)) >>= fun _ =>
      (if w.steps.any fun step => step.edges.any fun edge => edge.target == .ret then .ok ()
        else .error .noReturnNode) >>= fun _ => w.detectCycles) := by
  unfold Workflow.validate
  split_ifs <;> rfl

theorem validate_checked (h : w.validate = .ok ()) :
    (∀ s ∈ w.steps, ∀ x ∈ s.targets, ∃ s', w.getStep x = some s') ∧ w.detectCycles = .ok () := by
  rw [validate_eq] at h
  obtain ⟨⟨⟩, -, h⟩ := bind_ok h
  obtain ⟨⟨⟩, hsteps, h⟩ := bind_ok h
  obtain ⟨⟨⟩, -, hcycles⟩ := bind_ok h
  refine ⟨?_, hcycles⟩
  intro s hs x hx
  obtain ⟨e, he, htarget⟩ := Step.mem_targets.mp hx
  obtain ⟨⟨⟩, hedges, -⟩ := bind_ok (forM_ok hsteps s hs)
  have hedge := forM_ok hedges e he
  unfold Workflow.checkEdge at hedge
  rw [htarget] at hedge
  simp only at hedge
  split_ifs at hedge with hnone
  exact Option.ne_none_iff_exists'.mp (by simpa using hnone)

/-- Where an id is not repeated, the searched edges are those of the step that is resolved. -/
theorem mem_adjacency_of_getStep {x y : StepId} {s : Step} (hs : w.getStep x = some s)
    (hx : ¬w.Repeated x) (hy : y ∈ s.targets) : y ∈ w.adjacency x := by
  have hid : (s.id == x) = true := beq_iff_eq.mpr (Workflow.getStep_id hs)
  have hmem : s ∈ w.steps.filter fun s => s.id == x :=
    List.mem_filter.mpr ⟨Workflow.getStep_mem hs, hid⟩
  cases hfind : w.steps.reverse.find? fun s => s.id == x with
  | none =>
    have hno := List.find?_eq_none.mp hfind s (List.mem_reverse.mpr (Workflow.getStep_mem hs))
    exact absurd hid hno
  | some s' =>
    have hid' := List.find?_some hfind
    have hmem' : s' ∈ w.steps.filter fun s => s.id == x :=
      List.mem_filter.mpr ⟨List.mem_reverse.mp (List.mem_of_find?_eq_some hfind), hid'⟩
    have hsame : s' = s := by
      obtain ⟨a, ha⟩ : ∃ a, (w.steps.filter fun s => s.id == x) = [a] := by
        refine List.length_eq_one_iff.mp ?_
        have hpos := List.length_pos_of_mem hmem
        have hle : ¬1 < (w.steps.filter fun s => s.id == x).length := hx
        omega
      rw [ha, List.mem_singleton] at hmem hmem'
      rw [hmem, hmem']
    unfold Workflow.adjacency
    rw [hfind, hsame]
    exact hy

/-! ## Cycles -/

/-- The transitions of a closed walk lead back to where they start. -/
theorem transGen_returning {α : Type} {r : α → α → Prop} {x y : α} (h : TransGen r x y)
    (hback : ReflTransGen r y x) : TransGen (fun a b => r a b ∧ ReflTransGen r b a) x y := by
  induction h with
  | single hstep => exact .single ⟨hstep, hback⟩
  | tail hwalk hstep ih =>
    exact (ih (.head hstep hback)).tail ⟨hstep, hback.trans hwalk.to_reflTransGen⟩

/-- A workflow that validation passes is safe to follow exactly when every `Goto` target is a step and
no cycle passes through a `Goto` or an edge of a step with a repeated id. -/
theorem validated_control_iff (w : Workflow) (h : w.validate = .ok ()) :
    w.ControlSafe ↔
      (∀ x s y, w.getStep x = some s → s.onError = .goto y → ∃ s', w.getStep y = some s') ∧
        ∀ x y, w.Unsearched x y → ¬ReflTransGen w.Control y x := by
  obtain ⟨htargets, hcycles⟩ := validate_checked h
  constructor
  · rintro ⟨hresolved, hacyclic⟩
    refine ⟨fun x s y hs hgoto => hresolved x y ⟨s, hs, .inr hgoto⟩, ?_⟩
    rintro x y ⟨s, hs, hcase⟩ hback
    have hstep : w.Control x y := by
      obtain hgoto | ⟨hedge, -⟩ := hcase
      · exact ⟨s, hs, .inr hgoto⟩
      · exact ⟨s, hs, .inl hedge⟩
    exact hacyclic x (.head' hstep hback)
  · rintro ⟨hgoto, hno⟩
    refine ⟨?_, ?_⟩
    · rintro x y ⟨s, hs, hedge | haction⟩
      · exact htargets s (Workflow.getStep_mem hs) y hedge
      · exact hgoto x s y hs haction
    · intro x hx
      -- no transition of the cycle is hidden from the search, so the search has seen all of it
      have hseen : TransGen (fun a b => Below w.adjacency b a) x x := by
        refine TransGen.mono ?_ x x (transGen_returning hx .refl)
        rintro a b ⟨⟨s, hs, hcase⟩, hback⟩
        by_contra hunseen
        refine hno a b ⟨s, hs, ?_⟩ hback
        obtain hedge | haction := hcase
        · refine .inr ⟨hedge, ?_⟩
          by_contra hrep
          exact hunseen (mem_adjacency_of_getStep hs hrep hedge)
        · exact .inl haction
      exact not_self_of_acc (detectCycles_acc hcycles x) (transGen_swap.mp hseen)

end Graph

/-! ## Two workflows -/

def jumpStep (id : String) (target : EdgeTarget) (onError : ErrorAction) : Step :=
  { Step.new id "echo" with edges := [⟨target, none, 0⟩], onError := onError }

/-- On an error `ask` goes back to `search`, and `search` to a step that does not exist. -/
def loopingWorkflow : Workflow :=
  { Workflow.new "loop" "loop" "search" with
    steps := [jumpStep "search" (.step "ask") (.goto "missing"), jumpStep "ask" .ret (.goto "search")] }

theorem looping_validates :
    loopingWorkflow.validate = .ok () ∧
      (loopingWorkflow.Control "search" "missing" ∧ loopingWorkflow.getStep "missing" = none) ∧
      TransGen loopingWorkflow.Control "search" "search" := by
  refine ⟨by decide +kernel, ⟨⟨_, rfl, .inr rfl⟩, by decide +kernel⟩, ?_⟩
  have hon : loopingWorkflow.Control "search" "ask" := ⟨_, rfl, .inl (by decide +kernel)⟩
  have hback : loopingWorkflow.Control "ask" "search" := ⟨_, rfl, .inr rfl⟩
  exact .tail (.single hon) hback

def plainWorkflow : Workflow :=
  { Workflow.new "plain" "plain" "search" with
    steps := [jumpStep "search" (.step "ask") .fail, jumpStep "ask" .ret .skip] }

theorem plain_controlSafe : plainWorkflow.validate = .ok () ∧ plainWorkflow.ControlSafe := by
  have hvalid : plainWorkflow.validate = .ok () := by decide +kernel
  have hnogoto : ∀ s ∈ plainWorkflow.steps, ∀ y, s.onError ≠ .goto y := by
    intro s hs y
    obtain rfl | hs := List.mem_cons.mp hs
    · exact nofun
    · rw [List.mem_singleton.mp hs]
      exact nofun
  refine ⟨hvalid, (validated_control_iff plainWorkflow hvalid).mpr ⟨?_, ?_⟩⟩
  · intro x s y hs hgoto
    exact absurd hgoto (hnogoto s (Workflow.getStep_mem hs) y)
  · rintro x y ⟨s, hs, hgoto | ⟨-, hrep⟩⟩
    · exact absurd hgoto (hnogoto s (Workflow.getStep_mem hs) y)
    · have hid := Workflow.getStep_id hs
      have honce : ∀ s ∈ plainWorkflow.steps, ¬plainWorkflow.Repeated s.id := by
        unfold Workflow.Repeated
        decide +kernel
      exact absurd (hid ▸ hrep) (honce s (Workflow.getStep_mem hs))

end Konf.Substrate
