import Konf.Substrate.Envelope

/-! # Tool registry

Model of `ToolRegistry` (`konflux-substrate/src/tool.rs`) over any kind of tool that knows its own
name. Every tool is registered under the name it reports. -/

namespace Konf.Substrate
set_option autoImplicit false

/-- `info().name`. -/
class NamedTool (T : Type) where
  name : T → String

/-- Tools by name; the entry order stands for the hash map's iteration order. -/
structure ToolRegistry (T : Type) [NamedTool T] where
  tools : StrMap T
  named : ∀ n t, tools.lookup n = some t → NamedTool.name t = n

namespace ToolRegistry
variable {T : Type} [NamedTool T]

def new : ToolRegistry T := ⟨∅, by simp⟩

/-- Overwrites any existing tool with the same name. -/
def register (r : ToolRegistry T) (tool : T) : ToolRegistry T where
  tools := r.tools.insert (NamedTool.name tool) tool
  named := by
    intro n t h
    by_cases hn : n = NamedTool.name tool
    · subst hn
      rw [AList.lookup_insert] at h
      rw [← Option.some.inj h]
    · rw [AList.lookup_insert_ne hn] at h
      exact r.named n t h

def remove (r : ToolRegistry T) (name : String) : ToolRegistry T where
  tools := r.tools.erase name
  named := by
    intro n t h
    by_cases hn : n = name
    · rw [hn, AList.lookup_erase] at h
      cases h
    · rw [AList.lookup_erase_ne hn] at h
      exact r.named n t h

def get (r : ToolRegistry T) (name : String) : Option T := r.tools.lookup name

def contains (r : ToolRegistry T) (name : String) : Bool := (r.tools.lookup name).isSome

/-- The names that `list` reports, in iteration order. -/
def names (r : ToolRegistry T) : List String := r.tools.keys

def registerAll (r : ToolRegistry T) (tools : List T) : ToolRegistry T := tools.foldl register r

theorem get_register_self (r : ToolRegistry T) (tool : T) :
    (r.register tool).get (NamedTool.name tool) = some tool := AList.lookup_insert _

theorem get_register_ne (r : ToolRegistry T) {tool : T} {name : String}
    (h : name ≠ NamedTool.name tool) : (r.register tool).get name = r.get name :=
  AList.lookup_insert_ne h

theorem get_removeAll (r : ToolRegistry T) (names : List String) (name : String) :
    (names.foldl remove r).get name = if name ∈ names then none else r.get name := by
  induction names generalizing r with
  | nil => simp
  | cons n names ih =>
    rw [List.foldl_cons, ih]
    by_cases hmem : name ∈ names
    · simp [hmem]
    · rw [if_neg hmem]
      by_cases hn : name = n
      · rw [if_pos (List.mem_cons.mpr (.inl hn)), hn]
        exact AList.lookup_erase n r.tools
      · rw [if_neg (by simp [hn, hmem])]
        exact AList.lookup_erase_ne hn

theorem get_name {r : ToolRegistry T} {name : String} {tool : T} (h : r.get name = some tool) :
    NamedTool.name tool = name := r.named name tool h

theorem mem_names_of_get {r : ToolRegistry T} {name : String} {tool : T}
    (h : r.get name = some tool) : name ∈ r.names := by
  have hs : (r.tools.lookup name).isSome = true := by
    rw [show r.tools.lookup name = some tool from h]
    rfl
  exact AList.lookup_isSome.mp hs

theorem get_new (name : String) : (new : ToolRegistry T).get name = none := AList.lookup_empty name

/-- Of several registrations under one name the last one stays. -/
theorem get_registerAll (r : ToolRegistry T) (tools : List T) (name : String) :
    (r.registerAll tools).get name =
      (tools.reverse.find? fun t => NamedTool.name t == name).or (r.get name) := by
  induction tools generalizing r with
  | nil => rfl
  | cons t tools ih =>
    have hstep : r.registerAll (t :: tools) = (r.register t).registerAll tools := rfl
    rw [hstep, ih, List.reverse_cons, List.find?_append, Option.or_assoc]
    congr 1
    by_cases hn : name = NamedTool.name t
    · subst hn
      rw [get_register_self]
      simp
    · have hb : (NamedTool.name t == name) = false := beq_eq_false_iff_ne.mpr (Ne.symm hn)
      rw [get_register_ne _ hn]
      simp [hb]

theorem mem_of_get_registerAll {tools : List T} {name : String} {tool : T}
    (h : (new.registerAll tools).get name = some tool) : tool ∈ tools := by
  rw [get_registerAll, get_new, Option.or_none] at h
  exact List.mem_reverse.mp (List.mem_of_find?_eq_some h)

theorem get_registerAll_isSome {tools : List T} {tool : T} (h : tool ∈ tools) :
    ∃ t, (new.registerAll tools).get (NamedTool.name tool) = some t := by
  rw [get_registerAll, get_new, Option.or_none]
  exact Option.isSome_iff_exists.mp
    (List.find?_isSome.mpr ⟨tool, List.mem_reverse.mpr h, beq_self_eq_true _⟩)

/-- When no two different tools have one name, the order of registration does not matter. -/
theorem get_registerAll_of_perm {tools tools' : List T} (hp : tools.Perm tools')
    (huniq : ∀ a ∈ tools, ∀ b ∈ tools, NamedTool.name a = NamedTool.name b → a = b) (name : String) :
    (new.registerAll tools).get name = (new.registerAll tools').get name := by
  cases h : (new.registerAll tools).get name with
  | some a =>
    have ha := mem_of_get_registerAll h
    have hname := get_name h
    obtain ⟨b, hb⟩ := get_registerAll_isSome (hp.mem_iff.mp ha)
    have hsame : a = b :=
      huniq a ha b (hp.mem_iff.mpr (mem_of_get_registerAll hb)) (get_name hb).symm
    rw [← hname, hb, hsame]
  | none =>
    cases h' : (new.registerAll tools').get name with
    | none => rfl
    | some b =>
      obtain ⟨a, ha⟩ := get_registerAll_isSome (hp.mem_iff.mpr (mem_of_get_registerAll h'))
      rw [get_name h', h] at ha
      cases ha

end ToolRegistry
end Konf.Substrate
