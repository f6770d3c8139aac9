import Konf.Parser.Acceptance
import Konf.Parser.Positions

/-! # Which reads become dependencies

The dependency scan takes the text before the first dot of each expression between braces in `with`.
Resolution reads the roots of references and, through `minijinja`, the variables of a rendered
template. A reference is always found by the scan. A variable of a template is found only where it
stands at the front of some expression, and the `return` value of a node without `do` is not scanned
at all. -/

namespace Konf.Parser
open Konf.Substrate Konf.Text
set_option autoImplicit false

/-! ## The expressions of a text -/

def FirstAt (pat s a b : List Char) : Prop :=
  s = a ++ pat ++ b ∧ ∀ a' b', s = a' ++ pat ++ b' → a.length ≤ a'.length

/-- The text of an expression: from the first open braces to the next closing ones, and so on behind
them. -/
inductive ExpressionIn : List Char → List Char → Prop
  | here {s before rest inner after : List Char} (hopen : FirstAt ['{', '{'] s before rest)
      (hclose : FirstAt ['}', '}'] rest inner after) : ExpressionIn s inner
  | later {s before rest inner after inner' : List Char} (hopen : FirstAt ['{', '{'] s before rest)
      (hclose : FirstAt ['}', '}'] rest inner after) (h : ExpressionIn after inner') :
      ExpressionIn s inner'

/-- The name stands at the front of an expression: alone or before a dot. -/
def Front (s m : String) : Prop :=
  ∃ inner, ExpressionIn s.toList inner ∧ '.' ∉ m.toList ∧
    (trimList inner = m.toList ∨ ∃ rest, trimList inner = m.toList ++ '.' :: rest)

section Scan
variable {s a b a' b' : List Char}

theorem splitOnce_iff_firstAt {pat : List Char} (hpat : pat ≠ []) :
    splitOnce pat s = some (a, b) ↔ FirstAt pat s a b := splitOnce_eq_some hpat

/-- The text before the first dot, or all of it. -/
def front (l : List Char) : List Char :=
  match splitOnce ['.'] l with
  | some (root, _) => root
  | none => l

theorem front_eq_iff {l m : List Char} :
    front l = m ↔ '.' ∉ m ∧ (l = m ∨ ∃ rest, l = m ++ '.' :: rest) := by
  unfold front
  cases hsplit : splitOnce ['.'] l with
  | none =>
    have hno : '.' ∉ l := by
      intro hmem
      obtain ⟨a, b, rfl⟩ := List.append_of_mem hmem
      have hfound := (splitOnce_isSome_iff ['.'] (a ++ '.' :: b)).mpr ⟨a, b, by simp⟩
      rw [hsplit] at hfound
      cases hfound
    constructor
    · rintro rfl
      exact ⟨hno, .inl rfl⟩
    · rintro ⟨-, rfl | ⟨rest, rfl⟩⟩
      · rfl
      · exact absurd (by simp) hno
  | some r =>
    obtain ⟨root, rest⟩ := r
    obtain ⟨rfl, hfirst⟩ := (splitOnce_eq_some (List.cons_ne_nil _ _)).mp hsplit
    have hroot : '.' ∉ root := by
      intro hmem
      obtain ⟨a, b, rfl⟩ := List.append_of_mem hmem
      have hle := hfirst a (b ++ '.' :: rest) (by simp)
      rw [List.length_append, List.length_cons] at hle
      omega
    constructor
    · rintro rfl
      exact ⟨hroot, .inr ⟨rest, by simp⟩⟩
    · rintro ⟨hm, heq | ⟨rest', heq⟩⟩
      · exact absurd (heq ▸ by simp) hm
      · have hsame : splitOnce ['.'] (m ++ ['.'] ++ rest') = some (m, rest') :=
          splitOnce_of_notMem hm
        rw [List.append_assoc, List.singleton_append, ← heq, hsplit, Option.some.injEq,
          Prod.mk.injEq] at hsame
        exact hsame.1

/-- The expressions of a text are the first one and those behind it. -/
theorem expressionIn_iff {inner' : List Char} : ExpressionIn s inner' ↔
    ∃ before rest inner after, splitOnce ['{', '{'] s = some (before, rest) ∧
      splitOnce ['}', '}'] rest = some (inner, after) ∧ (inner' = inner ∨ ExpressionIn after inner') := by
  have hfirst : ∀ {pat s a b : List Char}, pat ≠ [] →
      (splitOnce pat s = some (a, b) ↔ FirstAt pat s a b) := fun hpat => splitOnce_iff_firstAt hpat
  constructor
  · intro h
    cases h with
    | here hopen hclose =>
      exact ⟨_, _, _, _, (hfirst (by simp)).mpr hopen, (hfirst (by simp)).mpr hclose, .inl rfl⟩
    | later hopen hclose h =>
      exact ⟨_, _, _, _, (hfirst (by simp)).mpr hopen, (hfirst (by simp)).mpr hclose, .inr h⟩
  · rintro ⟨before, rest, inner, after, hopen, hclose, hinner⟩
    have hopen' := (hfirst (by simp)).mp hopen
    have hclose' := (hfirst (by simp)).mp hclose
    obtain rfl | h := hinner
    · exact .here hopen' hclose'
    · exact .later hopen' hclose' h

theorem mem_extractLoop {fuel : ℕ} {m : String} (hfuel : s.length ≤ fuel) :
    m ∈ extractLoop fuel s ↔ ∃ inner, ExpressionIn s inner ∧ front (trimList inner) = m.toList := by
  induction fuel generalizing s with
  | zero =>
    obtain rfl : s = [] := List.length_eq_zero_iff.mp (Nat.le_zero.mp hfuel)
    have hnone : ∀ inner, ¬ExpressionIn [] inner := by
      intro inner
      rw [expressionIn_iff]
      simp [splitOnce]
    simp [extractLoop, hnone]
  | succ fuel ih =>
    rw [extractLoop]
    cases hopen : splitOnce ['{', '{'] s with
    | none =>
      have hnone : ∀ inner, ¬ExpressionIn s inner := by
        intro inner
        rw [expressionIn_iff]
        simp [hopen]
      simp [hnone]
    | some r =>
      obtain ⟨before, rest⟩ := r
      cases hclose : splitOnce ['}', '}'] rest with
      | none =>
        have hnone : ∀ inner, ¬ExpressionIn s inner := by
          intro inner
          rw [expressionIn_iff]
          simp [hopen, hclose]
        simp [hnone, hclose]
      | some r =>
        obtain ⟨inner, after⟩ := r
        have hshort : after.length ≤ fuel := by
          have hs := ((splitOnce_eq_some (by simp)).mp hopen).1
          have hrest := ((splitOnce_eq_some (by simp)).mp hclose).1
          rw [hs, hrest] at hfuel
          simp only [List.length_append, List.length_cons, List.length_nil] at hfuel
          omega
        have hexpression : ∀ inner', ExpressionIn s inner' ↔
            inner' = inner ∨ ExpressionIn after inner' := by
          intro inner'
          rw [expressionIn_iff]
          simp [hopen, hclose]
        have hroot : m = String.ofList (front (trimList inner)) ↔
            front (trimList inner) = m.toList := by
          rw [← String.toList_inj, String.toList_ofList, eq_comm]
        simp only [hclose, hexpression]
        rw [List.mem_cons, ih hshort]
        change m = String.ofList (front (trimList inner)) ∨ _ ↔ _
        rw [hroot]
        constructor
        · rintro (hm | ⟨inner', h, hm⟩)
          · exact ⟨inner, .inl rfl, hm⟩
          · exact ⟨inner', .inr h, hm⟩
        · rintro ⟨inner', rfl | h, hm⟩
          · exact .inl hm
          · exact .inr ⟨inner', h, hm⟩

theorem mem_extractFromString {t m : String} : m ∈ extractFromString t ↔ Front t m := by
  rw [extractFromString, mem_extractLoop (Nat.le_refl _)]
  simp only [front_eq_iff]
  exact Iff.rfl

end Scan

/-! ## Strings inside a value -/

mutual
def strings : Json → List String
  | .str s => [s]
  | .arr items => stringsOfItems items
  | .obj fields => stringsOfFields fields
  | .null | .bool _ | .num _ => []
def stringsOfItems : List Json → List String
  | [] => []
  | v :: vs => strings v ++ stringsOfItems vs
def stringsOfFields : List (String × Json) → List String
  | [] => []
  | (_, v) :: fs => strings v ++ stringsOfFields fs
end

mutual
theorem mem_extractReferences {m : String} : ∀ v : Json,
    m ∈ extractReferences v ↔ ∃ s ∈ strings v, Front s m
  | .str s => by simp [extractReferences, strings, mem_extractFromString]
  | .arr items => by
    rw [extractReferences, strings]
    exact mem_extractItems items
  | .obj fields => by
    rw [extractReferences, strings]
    exact mem_extractFields fields
  | .null | .bool _ | .num _ => by simp [extractReferences, strings]
theorem mem_extractItems {m : String} : ∀ vs : List Json,
    m ∈ extractItems vs ↔ ∃ s ∈ stringsOfItems vs, Front s m
  | [] => by simp [extractItems, stringsOfItems]
  | v :: vs => by
    rw [extractItems, stringsOfItems, List.mem_append, mem_extractReferences v, mem_extractItems vs]
    simp only [List.mem_append, or_and_right, exists_or]
theorem mem_extractFields {m : String} : ∀ fs : List (String × Json),
    m ∈ extractFields fs ↔ ∃ s ∈ stringsOfFields fs, Front s m
  | [] => by simp [extractFields, stringsOfFields]
  | (_, v) :: fs => by
    rw [extractFields, stringsOfFields, List.mem_append, mem_extractReferences v,
      mem_extractFields fs]
    simp only [List.mem_append, or_and_right, exists_or]
end

theorem strings_of_field {fs : List (String × Json)} {e : String × Json} (he : e ∈ fs) :
    strings e.2 ⊆ stringsOfFields fs := by
  induction fs with
  | nil => cases he
  | cons f fs ih =>
    rw [stringsOfFields]
    obtain rfl | he := List.mem_cons.mp he
    · exact List.subset_append_left _ _
    · exact List.Subset.trans (ih he) (List.subset_append_right _ _)

/-! ## What resolution reads -/

/-- The values that are compiled one by one: the fields of an object, or the value itself. -/
def withValues : Json → List Json
  | .obj fields => fields.map Prod.snd
  | v => [v]

def exprRefs : Expr → List String
  | .ref p => [p]
  | .json v => (strings v).filterMap tryPureRef
  | .literal _ | .template _ => []

def exprRendered : Expr → List String
  | .template t => [t]
  | .json v => (strings v).filter fun s => hasTemplates s && (tryPureRef s).isNone
  | .literal _ | .ref _ => []

def refRoot (p : String) : String := String.ofList (splitChar '.' p.toList).headI

section Reads
-- the variables that `minijinja` reads in a template
variable (vars : String → List String) (lib : Externals)

/-- The value names a variable in a template that is rendered. -/
def TemplateReads (v : Json) (m : String) : Prop :=
  ∃ t ∈ exprRendered (valueToExpr lib v), m ∈ vars t

/-- The value names it there, or as the root of a reference. -/
def ValueReads (v : Json) (m : String) : Prop :=
  (∃ p ∈ exprRefs (valueToExpr lib v), refRoot p = m) ∨ TemplateReads vars lib v m

def ReturnReads (node : NodeSchema) (m : String) : Prop :=
  node.do_ = none ∧ ∃ r, node.return_ = some r ∧ ValueReads vars lib r m

/-- The node names `m` in its `with` value, or, without `do`, in its `return` value. -/
def NodeReads (node : NodeSchema) (m : String) : Prop :=
  (∃ w, node.with_ = some w ∧ ∃ v ∈ withValues w, ValueReads vars lib v m) ∨
    ReturnReads vars lib node m

end Reads

/-! ## References are found -/

section Found
variable {lib : Externals} {s p : String}

/-- White space, two braces, a text without closing braces, two braces: the text is an expression. -/
theorem front_of_braced {a b : List Char} {body : String}
    (hs : s.toList = a ++ ['{', '{'] ++ (body.toList ++ ['}', '}'] ++ b)) (ha : '{' ∉ a)
    (hbody : '}' ∉ body.toList) : Front s (refRoot (trim body)) := by
  have hopen : FirstAt ['{', '{'] s.toList a (body.toList ++ ['}', '}'] ++ b) := by
    rw [hs]
    exact (splitOnce_iff_firstAt (List.cons_ne_nil _ _)).mp (splitOnce_of_notMem ha)
  have hclose : FirstAt ['}', '}'] (body.toList ++ ['}', '}'] ++ b) body.toList b :=
    (splitOnce_iff_firstAt (List.cons_ne_nil _ _)).mp (splitOnce_of_notMem hbody)
  refine ⟨body.toList, .here hopen hclose, ?_⟩
  rw [refRoot, String.toList_ofList, ← trim_toList]
  exact splitChar_head '.' (trim body).toList

theorem front_of_ref (hbrace : lib.isAlphanumeric '}' = false)
    (h : valueToExpr lib (.str s) = .ref p) : Front s (refRoot p) := by
  obtain ⟨body, rfl, -, rfl, hall⟩ := valueToExpr_ref_iff.mp h
  refine front_of_braced (a := []) (b := []) ?_ List.not_mem_nil ?_
  · simp [openTag, closeTag, String.toList_append]
  · intro hmem
    obtain hw | hok := trimmed_chars (List.all_eq_true.mp hall) _ hmem
    · cases hw
    · rw [hbrace] at hok
      cases hok

theorem front_of_pure (h : tryPureRef s = some p) : Front s (refRoot p) := by
  obtain ⟨body, htrim, rfl, hpath⟩ := tryPureRef_iff.mp h
  obtain ⟨a, b, hsplit, ha, -⟩ := trimList_split s.toList
  rw [← trim_toList, htrim] at hsplit
  refine front_of_braced (a := a) (b := b) ?_ ?_ ?_
  · rw [hsplit]
    simp [openTag, closeTag, String.toList_append]
  · intro hmem
    cases ha _ hmem
  · intro hmem
    obtain hw | hok := trimmed_chars hpath.chars _ hmem
    · cases hw
    · cases hok

theorem strings_of_withValues {w v : Json} (hv : v ∈ withValues w) : strings v ⊆ strings w := by
  cases w with
  | obj fields =>
    obtain ⟨e, he, rfl⟩ := List.mem_map.mp hv
    rw [strings]
    exact strings_of_field he
  | _ =>
    obtain rfl := List.mem_singleton.mp hv
    exact List.Subset.refl _

/-- Whatever a value refers to stands at the front of one of its expressions. -/
theorem front_of_refs (hbrace : lib.isAlphanumeric '}' = false) {v : Json}
    (hp : p ∈ exprRefs (valueToExpr lib v)) : ∃ s ∈ strings v, Front s (refRoot p) := by
  have hjson : p ∈ (strings v).filterMap tryPureRef → ∃ s ∈ strings v, Front s (refRoot p) := by
    intro hmem
    obtain ⟨s, hs, hpure⟩ := List.mem_filterMap.mp hmem
    exact ⟨s, hs, front_of_pure hpure⟩
  cases v with
  | str s =>
    refine ⟨s, List.mem_singleton_self s, ?_⟩
    by_cases href : ∃ q, valueToExpr lib (.str s) = .ref q
    · obtain ⟨q, href⟩ := href
      rw [href] at hp
      rw [List.mem_singleton.mp hp]
      exact front_of_ref hbrace href
    · rw [valueToExpr_other fun q h => href ⟨q, h⟩] at hp
      split_ifs at hp
      · cases hp
      · cases hp
  | _ => exact hjson hp

end Found

/-! ## Completeness -/

section Complete
variable {schema : WorkflowSchema} {name : String} {node : NodeSchema}

/-- The node's dependencies are the other nodes at the front of an expression in `with`. -/
theorem mem_dependenciesOf_iff {m : String} :
    m ∈ dependenciesOf schema name node ↔
      (∃ w, node.with_ = some w ∧ ∃ s ∈ strings w, Front s m) ∧ m ∈ nodeNames schema ∧ m ≠ name := by
  unfold dependenciesOf
  cases node.with_ with
  | none => simp
  | some w => simp [List.mem_dedup, List.mem_filter, mem_extractReferences]

/-- Every node that a node reads is a dependency of its step exactly when each one that a template in
`with` names, and for a node without `do` each one that its `return` value names, stands at the front
of an expression in `with`. -/
theorem dependencies_complete_iff {config : EngineConfig} {w : Workflow} {step : Step}
    (vars : String → List String) (lib : Externals) (hbrace : lib.isAlphanumeric '}' = false)
    (hparse : parse lib config schema = .ok w) (hnode : schema.nodes.lookup name = some node)
    (hstep : w.getStep name = some step) :
    (∀ m ∈ nodeNames schema, m ≠ name → NodeReads vars lib node m → m ∈ step.dependsOn) ↔
      ∀ m ∈ nodeNames schema, m ≠ name →
        (∃ value, node.with_ = some value ∧ ∃ v ∈ withValues value, TemplateReads vars lib v m) ∨
          ReturnReads vars lib node m →
        ∃ value, node.with_ = some value ∧ ∃ s ∈ strings value, Front s m := by
  have hdepends : step.dependsOn = dependenciesOf schema name node := by
    obtain ⟨node', hnode', hc⟩ := step_compiled hparse (Workflow.getStep_mem hstep)
    rw [Workflow.getStep_id hstep, hnode] at hnode'
    cases hnode'
    rw [hc.dependsOn, Workflow.getStep_id hstep]
  rw [hdepends]
  constructor
  · intro hcomplete m hm hne hreads
    have hread : NodeReads vars lib node m := by
      obtain ⟨value, hwith, v, hv, ht⟩ | hret := hreads
      · exact .inl ⟨value, hwith, v, hv, .inr ht⟩
      · exact .inr hret
    exact (mem_dependenciesOf_iff.mp (hcomplete m hm hne hread)).1
  · intro hfront m hm hne hreads
    refine mem_dependenciesOf_iff.mpr ⟨?_, hm, hne⟩
    obtain ⟨value, hwith, v, hv, ⟨p, hp, rfl⟩ | ht⟩ | hret := hreads
    · -- a reference needs no condition: the scan finds it
      obtain ⟨s, hs, hf⟩ := front_of_refs hbrace hp
      exact ⟨value, hwith, s, strings_of_withValues hv hs, hf⟩
    · exact hfront m hm hne (.inl ⟨value, hwith, v, hv, ht⟩)
    · exact hfront m hm hne (.inr hret)

end Complete

/-! ## A filter -/

def shoutSchema (text : String) : WorkflowSchema where
  workflow := "shout"
  nodes := StrMap.ofList
    [("draft", { do_ := some (.single "ai:complete"), then_ := some (.unconditional "shout") }),
      ("shout", { do_ := some (.single "echo"), with_ := some (.obj [("text", .str text)])
                  return_ := some (.bool true) })]
    (by simp)

def filterText : String := "\x7b\x7b draft | upper \x7d\x7d"

def pathText : String := "Draft: \x7b\x7b draft.text | upper \x7d\x7d"

-- both texts name one variable
def shoutVars (t : String) : List String := if t = filterText ∨ t = pathText then ["draft"] else []

theorem shout_reads {text : String} (htemplate : valueToExpr asciiExternals (.str text) = .template text)
    (hvars : shoutVars text = ["draft"]) {node : NodeSchema}
    (hwith : node.with_ = some (.obj [("text", .str text)])) :
    NodeReads shoutVars asciiExternals node "draft" := by
  refine .inl ⟨_, hwith, .str text, List.mem_singleton_self _, .inr ⟨text, ?_, ?_⟩⟩
  · rw [htemplate]
    exact List.mem_singleton_self _
  · rw [hvars]
    exact List.mem_singleton_self _

/-- With a filter behind the name, the node that the template reads is no dependency. -/
theorem filtered_read_missed : ∃ w node step,
    parse asciiExternals EngineConfig.default (shoutSchema filterText) = .ok w ∧
      (shoutSchema filterText).nodes.lookup "shout" = some node ∧ w.getStep "shout" = some step ∧
      NodeReads shoutVars asciiExternals node "draft" ∧ "draft" ∉ step.dependsOn := by
  refine ⟨_, _, _, rfl, rfl, rfl, shout_reads rfl (by decide +kernel) rfl, ?_⟩
  decide +kernel

/-- With a path behind it, the node is one. -/
theorem path_read_found : ∃ w step,
    parse asciiExternals EngineConfig.default (shoutSchema pathText) = .ok w ∧
      w.getStep "shout" = some step ∧ "draft" ∈ step.dependsOn := by
  have hparse : parse asciiExternals EngineConfig.default (shoutSchema pathText) = .ok _ := rfl
  refine ⟨_, _, hparse, rfl, ?_⟩
  refine (dependencies_complete_iff shoutVars asciiExternals (by decide) hparse
    (show (shoutSchema pathText).nodes.lookup "shout" = some _ from rfl) rfl).mpr ?_ "draft"
    (by decide +kernel) (by decide) (shout_reads rfl (by decide +kernel) rfl)
  intro m hm hne _
  -- the only other node is the one that the expression begins with
  have hdraft : m = "draft" := by
    have hall : ∀ x ∈ nodeNames (shoutSchema pathText), x ≠ "shout" → x = "draft" := by decide +kernel
    exact hall m hm hne
  refine ⟨_, rfl, pathText, List.mem_singleton_self _, ?_⟩
  rw [hdraft, ← mem_extractFromString]
  decide +kernel

end Konf.Parser
