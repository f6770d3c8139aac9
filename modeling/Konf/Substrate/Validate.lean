import Konf.Foundations.Search
import Konf.Foundations.Fallible
import Konf.Substrate.Error
import Konf.Substrate.Workflow

/-! # Validation of the compiled workflow

Model of `Workflow::validate` and `detect_cycles` (`konflux-substrate/src/workflow.rs`). The adjacency
map is filled step by step, so of two steps with one id the later one counts there, while `get_step`
takes the first. -/

namespace Konf.Substrate
open Konf.Search Konf.Fallible
set_option autoImplicit false

def EdgeTarget.step? : EdgeTarget → Option StepId
  | .step id => some id
  | .ret => none

def Step.targets (s : Step) : List StepId := s.edges.filterMap fun e => e.target.step?

namespace Workflow

def adjacency (w : Workflow) (id : StepId) : List StepId :=
  ((w.steps.reverse.find? fun s => s.id == id).map Step.targets).getD []

/-- The entry first, then every step that has not been colored. -/
def detectCycles (w : Workflow) : Except ValidationError Unit :=
  let r := searchAll w.adjacency (w.steps.length + 1) (w.entry :: w.steps.map Step.id) .start
  if r.1 then .error (.cycleDetected r.2.path) else .ok ()

def checkEdge (w : Workflow) (step : Step) (edge : Edge) : Except ValidationError Unit :=
  match edge.target with
  | .step target =>
    if (w.getStep target).isNone then .error (.unknownNode target step.id) else .ok ()
  | .ret => .ok ()

def checkDependency (w : Workflow) (step : Step) (dep : StepId) : Except ValidationError Unit :=
  if (w.getStep dep).isNone then .error (.unknownNode dep ("depends_on:" ++ step.id)) else .ok ()

def validate (w : Workflow) : Except ValidationError Unit := do
  if (w.getStep w.entry).isNone then .error .noEntryNode else .ok ()
  w.steps.forM fun step => do
    step.edges.forM (w.checkEdge step)
    step.dependsOn.forM (w.checkDependency step)
  if w.steps.any fun step => step.edges.any fun edge => edge.target == .ret then .ok ()
  else .error .noReturnNode
  w.detectCycles

end Workflow

theorem Step.mem_targets {s : Step} {x : StepId} :
    x ∈ s.targets ↔ ∃ e ∈ s.edges, e.target = .step x := by
  rw [Step.targets, List.mem_filterMap]
  refine exists_congr fun e => and_congr_right fun _ => ?_
  cases e.target <;> simp [EdgeTarget.step?]

section Checks
variable {w : Workflow}

theorem Workflow.mem_adjacency {x y : StepId} (h : y ∈ w.adjacency x) :
    ∃ s ∈ w.steps, s.id = x ∧ y ∈ s.targets := by
  unfold Workflow.adjacency at h
  cases hfind : w.steps.reverse.find? fun s => s.id == x with
  | none =>
    rw [hfind] at h
    cases h
  | some s =>
    rw [hfind] at h
    have hid := List.find?_some hfind
    exact ⟨s, List.mem_reverse.mp (List.mem_of_find?_eq_some hfind), beq_iff_eq.mp hid, h⟩

/-- Where the edges descend, there is no cycle to find. -/
theorem Workflow.detectCycles_ok (hentry : ∃ s, w.getStep w.entry = some s)
    (htargets : ∀ s ∈ w.steps, ∀ x ∈ s.targets, ∃ s', w.getStep x = some s')
    (hacc : ∀ s ∈ w.steps, Acc (Below w.adjacency) s.id) : w.detectCycles = .ok () := by
  have hstep : ∀ {x : StepId}, (∃ s, w.getStep x = some s) → x ∈ (w.steps.map Step.id).toFinset := by
    rintro x ⟨s, hs⟩
    rw [List.mem_toFinset, ← Workflow.getStep_id hs]
    exact List.mem_map_of_mem (Workflow.getStep_mem hs)
  have hquiet : (searchAll w.adjacency (w.steps.length + 1) (w.entry :: w.steps.map Step.id)
      .start).1 = false := by
    have hclosed : ∀ x ∈ (w.steps.map Step.id).toFinset, ∀ y ∈ w.adjacency x,
        y ∈ (w.steps.map Step.id).toFinset := by
      intro x _ y hy
      obtain ⟨s, hs, -, hy⟩ := Workflow.mem_adjacency hy
      exact hstep (htargets s hs y hy)
    refine searchAll_quiet hclosed ?_ ?_ _ _ ?_ ?_
    · intro x hx
      obtain ⟨s, hs, rfl⟩ := List.mem_map.mp (List.mem_toFinset.mp hx)
      exact hacc s hs
    · have hcard := List.toFinset_card_le (w.steps.map Step.id)
      rw [List.length_map] at hcard
      omega
    · intro n hn
      cases List.mem_cons.mp hn with
      | inl hn => exact hn ▸ hstep hentry
      | inr hn => exact List.mem_toFinset.mpr hn
    · intro g hg
      cases hg
  unfold Workflow.detectCycles
  simp only [hquiet, Bool.false_eq_true, if_false]

theorem Workflow.validate_ok (hentry : ∃ s, w.getStep w.entry = some s)
    (htargets : ∀ s ∈ w.steps, ∀ x ∈ s.targets, ∃ s', w.getStep x = some s')
    (hdeps : ∀ s ∈ w.steps, ∀ x ∈ s.dependsOn, ∃ s', w.getStep x = some s')
    (hreturn : ∃ s ∈ w.steps, ∃ e ∈ s.edges, e.target = .ret)
    (hacc : ∀ s ∈ w.steps, Acc (Below w.adjacency) s.id) : w.validate = .ok () := by
  have hsome : ∀ {x : StepId}, (∃ s, w.getStep x = some s) → (w.getStep x).isNone = false := by
    rintro x ⟨s, hs⟩
    rw [hs]
    rfl
  have hedges : ∀ s ∈ w.steps, s.edges.forM (w.checkEdge s) = .ok () := by
    intro s hs
    refine forM_eq_ok ?_
    intro e he
    unfold Workflow.checkEdge
    cases htarget : e.target with
    | ret => rfl
    | step x =>
      have hx := htargets s hs x (Step.mem_targets.mpr ⟨e, he, htarget⟩)
      simp only [hsome hx, Bool.false_eq_true, if_false]
  have hdepends : ∀ s ∈ w.steps, s.dependsOn.forM (w.checkDependency s) = .ok () := by
    intro s hs
    refine forM_eq_ok ?_
    intro x hx
    unfold Workflow.checkDependency
    simp only [hsome (hdeps s hs x hx), Bool.false_eq_true, if_false]
  have hsteps : (w.steps.forM fun step => do
      step.edges.forM (w.checkEdge step)
      step.dependsOn.forM (w.checkDependency step)) = .ok () := by
    refine forM_eq_ok ?_
    intro s hs
    rw [hedges s hs]
    exact hdepends s hs
  have hret : (w.steps.any fun step => step.edges.any fun edge => edge.target == .ret) = true := by
    obtain ⟨s, hs, e, he, hret⟩ := hreturn
    simp only [List.any_eq_true]
    exact ⟨s, hs, e, he, beq_iff_eq.mpr hret⟩
  unfold Workflow.validate
  rw [hsome hentry, hsteps, hret, Workflow.detectCycles_ok hentry htargets hacc]
  rfl

end Checks
end Konf.Substrate
