import Konf.Runtime.Routes

/-! # What the scoped engine holds

`build_scoped_engine` goes through the tools in the order of a hash map. Two listed names can register
a tool under one name only when one of them is redirected to it, and the redirected one registers the
target bare. The scoped engine is the same in every order, and least-privilege, exactly when that
makes no difference. -/

namespace Konf.Runtime
open Konf.Substrate Konf.Executor
set_option autoImplicit false

/-- The scoped engine for a given order of the listed names. -/
def System.scopedEngineIn (sys : System) (scope : ExecutionScope) (order : List String) :
    ToolRegistry Tool :=
  ToolRegistry.new.registerAll (order.filterMap (sys.scopedTool scope))

/-- The tool is granted, and stands behind the bindings of its first matching grant and behind its
own guard rules. -/
def System.Confined (sys : System) (scope : ExecutionScope) (t : String) (tool : Tool) : Prop :=
  ∃ bindings raw, scope.checkTool t = .ok bindings ∧ sys.registry.get t = some raw ∧
    tool = sys.guard t (System.virtualize bindings raw)

/-- Every tool that a granted name is redirected to is itself granted, and has neither bindings nor
guard rules. -/
def System.PlainTargets (sys : System) (scope : ExecutionScope) : Prop :=
  ∀ u target, u ∈ sys.registry.names → (∃ b, scope.checkTool u = .ok b) →
    sys.aliasTool u = some target →
      (∃ bindings, scope.checkTool target.name = .ok bindings ∧ bindings.entries = []) ∧
        ∀ entry, sys.guards.lookup target.name = some entry → entry.rules = []

section Engine
variable {sys : System} {scope : ExecutionScope} {t : String} {tool : Tool}

theorem System.Confined.unique {tool' : Tool} (h : sys.Confined scope t tool)
    (h' : sys.Confined scope t tool') : tool = tool' := by
  obtain ⟨bindings, raw, hcheck, hraw, rfl⟩ := h
  obtain ⟨bindings', raw', hcheck', hraw', rfl⟩ := h'
  rw [hcheck] at hcheck'
  rw [hraw] at hraw'
  cases hcheck'
  cases hraw'
  rfl

/-- The wrappers leave a tool bare exactly when there is nothing to wrap. -/
theorem guard_virtualize_eq_base {bindings : StrMap Json} {raw target : BaseTool} :
    sys.guard t (System.virtualize bindings raw) = .base target ↔
      raw = target ∧ bindings.entries = [] ∧
        ∀ entry, sys.guards.lookup t = some entry → entry.rules = [] := by
  have hinner : System.virtualize bindings raw = .base target ↔
      raw = target ∧ bindings.entries = [] := by
    unfold System.virtualize
    split_ifs with hempty
    · simp [List.isEmpty_iff.mp hempty]
    · have hne : bindings.entries ≠ [] := fun h => hempty (List.isEmpty_iff.mpr h)
      simp [hne]
  unfold System.guard
  cases hentry : sys.guards.lookup t with
  | none => simp [hinner]
  | some entry =>
    simp only [Option.some.injEq, forall_eq']
    split_ifs with hrules
    · simp [hinner, List.isEmpty_iff.mp hrules]
    · have hne : entry.rules ≠ [] := fun h => hrules (List.isEmpty_iff.mpr h)
      simp [hne]

/-- With plain targets, whatever a listed name registers is confined. -/
theorem scopedTool_confined (h : sys.PlainTargets scope) {u : String} (hu : u ∈ sys.registry.names)
    (htool : sys.scopedTool scope u = some tool) : sys.Confined scope tool.name tool := by
  unfold System.scopedTool at htool
  cases hcheck : scope.checkTool u with
  | error e =>
    rw [hcheck] at htool
    cases htool
  | ok bindings =>
    rw [hcheck] at htool
    cases halias : sys.aliasTool u with
    | some target =>
      rw [halias] at htool
      cases htool
      obtain ⟨⟨b, hb, hempty⟩, hrules⟩ := h u target hu ⟨bindings, hcheck⟩ halias
      exact ⟨b, target, hb, aliasTool_get halias,
        (guard_virtualize_eq_base.mpr ⟨rfl, hempty, hrules⟩).symm⟩
    | none =>
      rw [halias] at htool
      obtain ⟨raw, hraw, rfl⟩ := Option.map_eq_some_iff.mp htool
      have hname : raw.name = u := ToolRegistry.get_name hraw
      rw [System.guard_name, System.virtualize_name, hname]
      exact ⟨bindings, raw, hcheck, hraw, rfl⟩

/-- In an order that ends with a redirected name, the target is bare. -/
theorem get_scopedEngineIn_last {u : String} {target : BaseTool} (front : List String)
    (hgrant : ∃ b, scope.checkTool u = .ok b) (halias : sys.aliasTool u = some target) :
    (sys.scopedEngineIn scope (front ++ [u])).get target.name = some (.base target) := by
  obtain ⟨b, hb⟩ := hgrant
  have hlast : sys.scopedTool scope u = some (.base target) := by
    simp only [System.scopedTool, hb, halias]
  have hself : (NamedTool.name (Tool.base target) == target.name) = true := beq_self_eq_true _
  unfold System.scopedEngineIn
  rw [ToolRegistry.get_registerAll, List.filterMap_append, List.reverse_append]
  simp [hlast, hself]

end Engine

/-- The scoped engine is the same for every order of the listed tools, with every tool in it confined,
exactly when granted names are redirected to plain targets only. -/
theorem scoped_engine_confined_iff (sys : System) (scope : ExecutionScope) :
    ((∀ order, order.Perm sys.registry.names → ∀ t,
        (sys.scopedEngineIn scope order).get t = (sys.buildScopedEngine scope).get t) ∧
      ∀ t tool, (sys.buildScopedEngine scope).get t = some tool → sys.Confined scope t tool) ↔
      sys.PlainTargets scope := by
  constructor
  · rintro ⟨horder, hconfined⟩ u target hu hgrant halias
    have hperm : (sys.registry.names.erase u ++ [u]).Perm sys.registry.names :=
      (List.perm_append_singleton u _).trans (List.perm_cons_erase hu).symm
    have hbare := get_scopedEngineIn_last (sys.registry.names.erase u) hgrant halias
    rw [horder _ hperm] at hbare
    obtain ⟨bindings, raw, hcheck, hraw, heq⟩ := hconfined _ _ hbare
    obtain ⟨rfl, hempty, hrules⟩ := guard_virtualize_eq_base.mp heq.symm
    exact ⟨⟨bindings, hcheck, hempty⟩, hrules⟩
  · intro h
    have hall : ∀ tool ∈ sys.registry.names.filterMap (sys.scopedTool scope),
        sys.Confined scope tool.name tool := by
      intro tool htool
      obtain ⟨u, hu, hscoped⟩ := List.mem_filterMap.mp htool
      exact scopedTool_confined h hu hscoped
    refine ⟨?_, ?_⟩
    · intro order hperm t
      refine (ToolRegistry.get_registerAll_of_perm (hperm.symm.filterMap _) ?_ t).symm
      intro a ha b hb hname
      have hconfined := hall b hb
      rw [show b.name = a.name from hname.symm] at hconfined
      exact (hall a ha).unique hconfined
    · intro t tool hget
      have hmem := ToolRegistry.mem_of_get_registerAll hget
      have hname : tool.name = t := ToolRegistry.get_name hget
      rw [← hname]
      exact hall tool hmem

/-! ## A redirected tool and its target -/

/-- `workflow:safe` is granted with a binding, and `shell:exec` is redirected to it. -/
def boundTargetScope : ExecutionScope :=
  demoScope [.new "shell:exec",
    ⟨"workflow:safe", StrMap.ofList [("namespace", .str "konf:demo:alice")]
      (List.nodup_singleton "namespace")⟩]

def Tool.isBase : Tool → Bool
  | .base _ => true
  | .virtualized _ _ | .guarded _ _ _ => false

/-- Whether the target stands behind its binding depends on the order of the registry. -/
theorem scoped_engine_depends_on_order : ∃ order tool tool',
    order.Perm aliasSystem.registry.names ∧
      (aliasSystem.scopedEngineIn boundTargetScope order).get "workflow:safe" = some tool ∧
      (aliasSystem.scopedEngineIn boundTargetScope order.reverse).get "workflow:safe" = some tool' ∧
      tool.isBase = true ∧ tool'.isBase = false := by
  have hperm : ["workflow:safe", "echo", "shell:exec"].Perm aliasSystem.registry.names := by
    decide +kernel
  exact ⟨["workflow:safe", "echo", "shell:exec"], _, _, hperm, rfl, rfl, rfl, rfl⟩

end Konf.Runtime
