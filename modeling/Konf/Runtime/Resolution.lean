import Konf.Runtime.ScopedEngine

/-! # How a step's tool is resolved

What the wrappers built by `build_scoped_engine` do to a call, and which registration under a name
stays. A tool is wrapped when its own name is listed; a guard entry with an alias registers the alias
target without wrappers, and whichever of the two is listed last under a name wins. -/

namespace Konf.Runtime
open Konf.Substrate Konf.Fallible
set_option autoImplicit false

/-! ## Wrapped calls -/

theorem lookup_foldl_insertField (l : List (Sigma fun _ : String => Json)) (hl : l.NodupKeys)
    (fields : List (String × Json)) (k : String) :
    (l.foldl (fun fields e => Json.insertField e.1 e.2 fields) fields).lookup k =
      (l.dlookup k).or (fields.lookup k) := by
  induction l generalizing fields with
  | nil => rfl
  | cons e l ih =>
    obtain ⟨hnew, hl⟩ := List.nodupKeys_cons.mp hl
    rw [List.foldl_cons, ih hl]
    by_cases hk : k = e.1
    · subst hk
      have hnone : l.dlookup e.1 = none := List.dlookup_eq_none.mpr hnew
      rw [hnone, Json.lookup_insertField_self, List.dlookup_cons_eq]
      rfl
    · rw [Json.lookup_insertField_ne hk, List.dlookup_cons_ne _ _ hk]

theorem lookup_bindFields (bindings : StrMap Json) (fields : List (String × Json)) (k : String) :
    (bindFields bindings fields).lookup k = (bindings.lookup k).or (fields.lookup k) :=
  lookup_foldl_insertField _ bindings.nodupKeys fields k

/-- A tool behind its bindings gets the payload with every bound key at its bound value. -/
theorem deliver_virtualize {bindings : StrMap Json} {raw base : BaseTool} {env env' : Envelope}
    (h : (System.virtualize bindings raw).deliver env = .ok (base, env')) :
    base = raw ∧ ∀ k, env'.payload.get k = (bindings.lookup k).or (env.payload.get k) := by
  unfold System.virtualize at h
  split_ifs at h with hempty
  · cases h
    have hnil : bindings.entries = [] := List.isEmpty_iff.mp hempty
    have hnone : ∀ k, bindings.lookup k = none := by
      intro k
      rw [AList.lookup, hnil]
      rfl
    refine ⟨rfl, ?_⟩
    intro k
    rw [hnone k, Option.none_or]
  · obtain ⟨env₁, hinject, h⟩ := bind_ok h
    cases h
    refine ⟨rfl, ?_⟩
    intro k
    unfold injectBindings at hinject
    rw [if_neg hempty] at hinject
    split at hinject
    · rename_i fields hfields
      cases hinject
      rw [hfields]
      exact lookup_bindFields bindings fields k
    · cases hinject

/-- A guarded call is made only when the rules accept what was sent. -/
theorem deliver_guard {sys : System} {name : String} {tool : Tool} {base : BaseTool}
    {env env' : Envelope} (h : (sys.guard name tool).deliver env = .ok (base, env')) :
    tool.deliver env = .ok (base, env') ∧
      ∀ entry, sys.guards.lookup name = some entry → entry.rules ≠ [] →
        evaluateRules entry.defaultAction tool.name env.payload entry.rules = .ok () := by
  unfold System.guard at h
  split at h
  · rename_i entry hentry
    split_ifs at h with hrules
    · refine ⟨h, ?_⟩
      intro e he hne
      rw [hentry] at he
      cases he
      exact absurd (List.isEmpty_iff.mp hrules) hne
    · obtain ⟨⟨⟩, heval, h⟩ := bind_ok h
      refine ⟨h, ?_⟩
      intro e he _
      rw [hentry] at he
      cases he
      exact heval
  · rename_i hnone
    refine ⟨h, ?_⟩
    intro e he
    rw [hnone] at he
    cases he

/-! ## Which registration stays -/

namespace System
variable (sys : System) (scope : ExecutionScope)

/-- The name under which something is registered for a listed name. -/
def registeredName (u : String) : Option String :=
  match scope.checkTool u with
  | .error _ => none
  | .ok _ => match sys.aliasTool u with
    | some tool => some tool.name
    | none => if sys.registry.contains u then some u else none

/-- The listed name whose registration under `t` is the last. -/
def registrar (t : String) : Option String :=
  sys.registry.names.reverse.find? fun u => sys.registeredName scope u == some t

/-- The tool `t` of the scoped engine is `t`'s own entry: `t` is not redirected, and no granted tool
listed after it is redirected to `t`. -/
def OwnEntry (t : String) : Prop :=
  sys.aliasTool t = none ∧ sys.registrar scope t = some t

end System

section Resolution
variable {sys : System} {scope : ExecutionScope} {t : String} {tool : Tool}

theorem scopedTool_name (u : String) :
    (sys.scopedTool scope u).map Tool.name = sys.registeredName scope u := by
  unfold System.scopedTool System.registeredName
  cases scope.checkTool u with
  | error e => rfl
  | ok bindings =>
    cases sys.aliasTool u with
    | some target => rfl
    | none =>
      unfold ToolRegistry.contains
      cases hget : sys.registry.get u with
      | none =>
        rw [show sys.registry.tools.lookup u = none from hget]
        rfl
      | some raw =>
        have hname : raw.name = u := ToolRegistry.get_name hget
        rw [show sys.registry.tools.lookup u = some raw from hget]
        simp only [Option.map_some, System.guard_name, System.virtualize_name, hname]
        rfl

theorem get_buildScopedEngine (t : String) :
    (sys.buildScopedEngine scope).get t =
      (sys.registrar scope t).bind (sys.scopedTool scope) := by
  have hpred : (fun u => (sys.scopedTool scope u).any fun tool => NamedTool.name tool == t) =
      fun u => sys.registeredName scope u == some t := by
    funext u
    rw [← scopedTool_name]
    cases sys.scopedTool scope u with
    | none => rfl
    | some tool => simp [NamedTool.name]
  unfold System.buildScopedEngine System.registrar
  rw [ToolRegistry.get_registerAll, ToolRegistry.get_new, Option.or_none, ← List.filterMap_reverse,
    List.find?_filterMap, hpred]

theorem registrar_registers {u : String} (h : sys.registrar scope t = some u) :
    sys.registeredName scope u = some t := by
  have hfound := List.find?_some h
  exact beq_iff_eq.mp hfound

/-- The two ways a step's tool can be registered: wrapped under its own entry, or as the bare target
of an alias. -/
theorem scoped_get_cases (h : (sys.buildScopedEngine scope).get t = some tool) :
    (sys.OwnEntry scope t ∧ ∃ raw bindings, scope.checkTool t = .ok bindings ∧ raw.name = t ∧
        tool = sys.guard t (System.virtualize bindings raw)) ∨
      (¬sys.OwnEntry scope t ∧ ∃ raw, tool = .base raw) := by
  rw [get_buildScopedEngine] at h
  obtain ⟨u, hu, h⟩ := Option.bind_eq_some_iff.mp h
  have hname := registrar_registers hu
  unfold System.scopedTool at h
  unfold System.registeredName at hname
  cases hcheck : scope.checkTool u with
  | error e =>
    rw [hcheck] at h
    cases h
  | ok bindings =>
    rw [hcheck] at h hname
    cases halias : sys.aliasTool u with
    | some raw =>
      rw [halias] at h
      cases h
      refine .inr ⟨?_, raw, rfl⟩
      rintro ⟨hnone, hown⟩
      rw [hown] at hu
      cases hu
      rw [hnone] at halias
      cases halias
    | none =>
      rw [halias] at h hname
      simp only at hname
      split_ifs at hname
      cases hname
      obtain ⟨raw, hraw, rfl⟩ := Option.map_eq_some_iff.mp h
      exact .inl ⟨⟨halias, hu⟩, raw, bindings, hcheck, ToolRegistry.get_name hraw, rfl⟩

theorem aliasTool_get {u : String} {target : BaseTool} (h : sys.aliasTool u = some target) :
    sys.registry.get target.name = some target := by
  unfold System.aliasTool at h
  obtain ⟨alias_, -, hget⟩ := Option.bind_eq_some_iff.mp h
  have hname : target.name = alias_ := ToolRegistry.get_name hget
  rw [hname]
  exact hget

theorem registrar_isSome {u : String} (hu : u ∈ sys.registry.names)
    (h : sys.registeredName scope u = some t) : ∃ v, sys.registrar scope t = some v := by
  refine Option.isSome_iff_exists.mp (List.find?_isSome.mpr ⟨u, List.mem_reverse.mpr hu, ?_⟩)
  rw [h]
  exact beq_self_eq_true _

theorem contains_iff_get {n : String} :
    sys.registry.contains n = true ↔ ∃ raw, sys.registry.get n = some raw :=
  Option.isSome_iff_exists

/-- A granted tool that is not redirected is registered under its own name. -/
theorem registeredName_self {bindings : StrMap Json} {raw : BaseTool}
    (hgrant : scope.checkTool t = .ok bindings) (hraw : sys.registry.get t = some raw)
    (halias : sys.aliasTool t = none) : sys.registeredName scope t = some t := by
  have hcontains : sys.registry.contains t = true := contains_iff_get.mpr ⟨raw, hraw⟩
  simp only [System.registeredName, hgrant, halias, hcontains, if_true]

/-- A granted tool that is redirected registers the target under the target's name. -/
theorem registeredName_alias {bindings : StrMap Json} {target : BaseTool}
    (hgrant : scope.checkTool t = .ok bindings) (halias : sys.aliasTool t = some target) :
    sys.registeredName scope t = some target.name := by
  simp only [System.registeredName, hgrant, halias]

/-- Where a tool's own entry stays, the scoped engine has it wrapped. -/
theorem scoped_get_own {bindings : StrMap Json} {raw : BaseTool} (hown : sys.OwnEntry scope t)
    (hgrant : scope.checkTool t = .ok bindings) (hraw : sys.registry.get t = some raw) :
    (sys.buildScopedEngine scope).get t = some (sys.guard t (System.virtualize bindings raw)) := by
  rw [get_buildScopedEngine, hown.2, Option.bind_some]
  simp only [System.scopedTool, hgrant, hown.1, hraw, Option.map_some]

/-- Where an alias has taken the name over, the scoped engine has the bare tool. -/
theorem scoped_get_bare {u : String} (hown : ¬sys.OwnEntry scope t)
    (hu : sys.registrar scope t = some u) :
    ∃ raw, sys.registry.get t = some raw ∧
      (sys.buildScopedEngine scope).get t = some (.base raw) := by
  have hname := registrar_registers hu
  rw [get_buildScopedEngine, hu, Option.bind_some]
  unfold System.registeredName at hname
  unfold System.scopedTool
  cases hcheck : scope.checkTool u with
  | error e =>
    rw [hcheck] at hname
    cases hname
  | ok bindings =>
    rw [hcheck] at hname
    cases halias : sys.aliasTool u with
    | some raw =>
      rw [halias] at hname
      have hraw := aliasTool_get halias
      rw [Option.some.inj hname] at hraw
      exact ⟨raw, hraw, rfl⟩
    | none =>
      rw [halias] at hname
      simp only at hname
      split_ifs at hname
      cases hname
      exact absurd ⟨halias, hu⟩ hown

end Resolution
end Konf.Runtime
