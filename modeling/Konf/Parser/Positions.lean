import Konf.Parser.Compiler

/-! # A value at the top of `with` and inside it

The compiler decides for a string at the top of `with` whether it is a reference, a template or a
literal. Inside an array or an object the template resolver decides, when the step runs. Each of the
two has its own test for a string that is only a reference: the compiler's takes any letters, digits,
dots and underscores between the braces, the resolver's takes dotted identifiers and white space around
the braces. -/

namespace Konf.Parser
open Konf.Substrate Konf.Text
set_option autoImplicit false

/-! ## The two tests -/

def identifier (seg : List Char) : Bool :=
  !seg.isEmpty && seg.all (fun c => c.isAlphanum || c == '_') && !seg.head?.any Char.isDigit

/-- Identifiers with dots between them. -/
def IsPath (p : String) : Prop := ∀ seg ∈ splitChar '.' p.toList, identifier seg = true

theorem mem_splitChar {sep c : Char} {l : List Char} (hc : c ∈ l) :
    c = sep ∨ ∃ seg ∈ splitChar sep l, c ∈ seg := by
  induction l with
  | nil => cases hc
  | cons d l ih =>
    by_cases hd : d = sep
    · obtain rfl | hc := List.mem_cons.mp hc
      · exact .inl hd
      · rw [splitChar, if_pos hd]
        refine (ih hc).imp_right ?_
        rintro ⟨seg, hseg, hmem⟩
        exact ⟨seg, List.mem_cons_of_mem _ hseg, hmem⟩
    · rw [splitChar, if_neg hd]
      cases hrest : splitChar sep l with
      | nil =>
        obtain rfl | hc := List.mem_cons.mp hc
        · exact .inr ⟨[c], List.mem_cons_self, List.mem_cons_self⟩
        · rw [hrest] at ih
          refine (ih hc).imp_right ?_
          rintro ⟨seg, hseg, -⟩
          cases hseg
      | cons part parts =>
        obtain rfl | hc := List.mem_cons.mp hc
        · exact .inr ⟨c :: part, List.mem_cons_self, List.mem_cons_self⟩
        · rw [hrest] at ih
          refine (ih hc).imp_right ?_
          rintro ⟨seg, hseg, hmem⟩
          obtain rfl | hseg := List.mem_cons.mp hseg
          · exact ⟨d :: seg, List.mem_cons_self, List.mem_cons_of_mem _ hmem⟩
          · exact ⟨seg, List.mem_cons_of_mem _ hseg, hmem⟩

/-- The characters of a path. -/
def pathChar (c : Char) : Bool := c.isAlphanum || c == '_' || c == '.'

theorem IsPath.chars {p : String} (h : IsPath p) : ∀ c ∈ p.toList, pathChar c = true := by
  intro c hc
  obtain rfl | ⟨seg, hseg, hmem⟩ := (mem_splitChar hc : c = '.' ∨ ∃ seg ∈ splitChar '.' p.toList, c ∈ seg)
  · rfl
  · have hid := h seg hseg
    simp only [identifier, Bool.and_eq_true, List.all_eq_true] at hid
    rw [pathChar, hid.1.2 c hmem, Bool.true_or]

theorem IsPath.ne_nil {p : String} (h : IsPath p) : p.toList ≠ [] := by
  intro hnil
  have hid := h [] (by rw [hnil]; exact List.mem_singleton_self _)
  cases hid

theorem trim_toList (s : String) : (trim s).toList = trimList s.toList := String.toList_ofList

/-- A text whose trimmed characters all pass a test has no other character but white space. -/
theorem trimmed_chars {ok : Char → Bool} {s : String} (h : ∀ c ∈ (trim s).toList, ok c = true) :
    ∀ c ∈ s.toList, isWhitespace c = true ∨ ok c = true := by
  rw [trim_toList] at h
  obtain ⟨a, b, hsplit, ha, hb⟩ := trimList_split s.toList
  intro c hc
  rw [hsplit, List.mem_append, List.mem_append] at hc
  obtain (hc | hc) | hc := hc
  · exact .inl (ha c hc)
  · exact .inr (h c hc)
  · exact .inl (hb c hc)

theorem not_contains_of_chars {s pat : String} {c : Char} (hc : c ∈ pat.toList)
    (hs : c ∉ s.toList) : contains s pat = false := by
  rw [← Bool.not_eq_true, contains_iff]
  exact fun h => hs (h.subset hc)

/-- The resolver's test: white space, two braces, a path between white space, two braces, white
space. -/
theorem tryPureRef_iff {s p : String} :
    tryPureRef s = some p ↔
      ∃ body, trim s = openTag ++ body ++ closeTag ∧ p = trim body ∧ IsPath p := by
  unfold tryPureRef
  constructor
  · intro h
    obtain ⟨rest, hrest, h⟩ := Option.bind_eq_some_iff.mp h
    obtain ⟨body, hbody, h⟩ := Option.bind_eq_some_iff.mp h
    rw [stripPrefix_eq_some] at hrest
    rw [stripSuffix_eq_some] at hbody
    simp only at h
    split_ifs at h with _ _ _ hpath
    cases h
    refine ⟨body, by rw [hrest, hbody, String.append_assoc], rfl, ?_⟩
    intro seg hseg
    exact List.all_eq_true.mp hpath seg hseg
  · rintro ⟨body, hs, rfl, hpath⟩
    have hchars := hpath.chars
    have hout : ∀ c, pathChar c = false → c ∉ (trim body).toList := by
      intro c hc hmem
      rw [hchars c hmem] at hc
      cases hc
    have hopen : stripPrefix (trim s) openTag = some (body ++ closeTag) := by
      rw [stripPrefix_eq_some, hs, String.append_assoc]
    have hclose : stripSuffix (body ++ closeTag) closeTag = some body := stripSuffix_eq_some.mpr rfl
    have hno : contains (trim body) openTag = false ∧ contains (trim body) closeTag = false :=
      ⟨not_contains_of_chars (c := '{') (by decide) (hout _ (by decide)),
        not_contains_of_chars (c := '}') (by decide) (hout _ (by decide))⟩
    have hany : ((trim body).toList.any fun c =>
        c ∈ ['|', '(', ')', '[', ']', '+', '-', '=', '<', '>', ',']) = false := by
      rw [List.any_eq_false]
      intro c hmem hc
      have hpc := hchars c hmem
      have hbad : ∀ d ∈ ['|', '(', ')', '[', ']', '+', '-', '=', '<', '>', ','], pathChar d = false :=
        forall_mem_of_all (by decide)
      rw [hbad c (of_decide_eq_true hc)] at hpc
      cases hpc
    have hall : ((splitChar '.' (trim body).toList).all fun seg =>
        !seg.isEmpty && seg.all (fun c => c.isAlphanum || c == '_') &&
          !seg.head?.any Char.isDigit) = true := List.all_eq_true.mpr hpath
    have hne : (trim body).toList.isEmpty = false := by
      rw [List.isEmpty_eq_false_iff]
      exact hpath.ne_nil
    simp only [hopen, hclose, hno, hany, hne, hall, Option.bind_eq_bind, Option.bind_some,
      Bool.or_self, Bool.false_eq_true, if_false, if_true]

/-- The compiler's test. -/
theorem valueToExpr_ref_iff {lib : Externals} {s p : String} :
    valueToExpr lib (.str s) = .ref p ↔
      ∃ body, s = openTag ++ body ++ closeTag ∧ contains body openTag = false ∧ p = trim body ∧
        (trim body).toList.all (fun c => lib.isAlphanumeric c || c == '.' || c == '_') = true := by
  rw [valueToExpr]
  constructor
  · intro h
    split at h
    · rename_i body hbody
      obtain ⟨rest, hrest, hbody⟩ := Option.bind_eq_some_iff.mp hbody
      rw [stripPrefix_eq_some] at hrest
      rw [stripSuffix_eq_some] at hbody
      split_ifs at h with hopen hall
      cases h
      refine ⟨body, by rw [hrest, hbody, String.append_assoc], by simpa using hopen, rfl, hall⟩
    · split_ifs at h
  · rintro ⟨body, rfl, hopen, rfl, hall⟩
    have hfound : ((stripPrefix (openTag ++ body ++ closeTag) openTag).bind fun rest =>
        stripSuffix rest closeTag) = some body := by
      have hrest : stripPrefix (openTag ++ body ++ closeTag) openTag = some (body ++ closeTag) := by
        rw [stripPrefix_eq_some, String.append_assoc]
      rw [hrest, Option.bind_some, stripSuffix_eq_some]
    rw [hfound]
    simp only [hopen, hall, Bool.false_eq_true, if_false, if_true]

/-! ## Where the tests part -/

section Tests
variable {lib : Externals} {s p q : String}

theorem contains_of_eq {a b : String} (pat : String) (h : s = a ++ pat ++ b) :
    contains s pat = true := by
  rw [contains_iff, h, String.toList_append, String.toList_append]
  exact ⟨a.toList, b.toList, rfl⟩

/-- Between braces at its two ends a text has nothing to trim. -/
theorem trim_braced (body : String) : trim (openTag ++ body ++ closeTag) = openTag ++ body ++ closeTag := by
  apply String.toList_injective
  rw [trim_toList]
  apply trimList_eq_self
  · intro c hc
    have hopen : (openTag ++ body ++ closeTag).toList.head? = some '{' := by
      simp [openTag, String.toList_append]
    rw [hopen] at hc
    cases hc
    decide
  · intro c hc
    have hclose : (openTag ++ body ++ closeTag).toList.getLast? = some '}' := by
      simp [closeTag, String.toList_append]
    rw [hclose] at hc
    cases hc
    decide

theorem hasTemplates_of_trim {body : String} (h : trim s = openTag ++ body ++ closeTag) :
    hasTemplates s = true := by
  obtain ⟨a, b, hsplit, -, -⟩ := trimList_split s.toList
  rw [← trim_toList, h] at hsplit
  have hparts : s = String.ofList a ++ openTag ++ (body ++ closeTag ++ String.ofList b) ∧
      s = String.ofList a ++ openTag ++ body ++ closeTag ++ String.ofList b := by
    constructor
    · apply String.toList_injective
      rw [hsplit]
      simp
    · apply String.toList_injective
      rw [hsplit]
      simp
  rw [hasTemplates, contains_of_eq openTag hparts.1, contains_of_eq closeTag hparts.2]
  rfl

theorem hasTemplates_of_ref (h : valueToExpr lib (.str s) = .ref p) : hasTemplates s = true := by
  obtain ⟨body, rfl, -⟩ := valueToExpr_ref_iff.mp h
  exact hasTemplates_of_trim (trim_braced body)

/-- What is not a reference is a template or a literal, by whether it has braces. -/
theorem valueToExpr_other (h : ∀ p, valueToExpr lib (.str s) ≠ .ref p) :
    valueToExpr lib (.str s) = if hasTemplates s then .template s else .literal s := by
  rw [valueToExpr] at h ⊢
  split
  · rename_i body hbody
    have htemplates : hasTemplates s = true := by
      obtain ⟨rest, hrest, hbody⟩ := Option.bind_eq_some_iff.mp hbody
      rw [stripPrefix_eq_some] at hrest
      rw [stripSuffix_eq_some] at hbody
      have hs : s = openTag ++ body ++ closeTag := by rw [hrest, hbody, String.append_assoc]
      have htrim : trim s = openTag ++ body ++ closeTag := by rw [hs, trim_braced]
      exact hasTemplates_of_trim htrim
    rw [htemplates, if_pos rfl]
    simp only [hbody] at h
    split_ifs at h ⊢ with _ hall
    · rfl
    · exact absurd rfl (h _)
    · rfl
  · rfl

/-- Both tests read the same path. -/
theorem tests_agree (href : valueToExpr lib (.str s) = .ref q) (hpure : tryPureRef s = some p) :
    q = p ∧ trim s = s := by
  obtain ⟨body, rfl, -, rfl, -⟩ := valueToExpr_ref_iff.mp href
  obtain ⟨body', htrim, rfl, -⟩ := tryPureRef_iff.mp hpure
  rw [trim_braced, String.append_assoc, String.append_assoc, String.append_right_inj,
    String.append_left_inj] at htrim
  exact ⟨by rw [htrim], trim_braced body⟩

/-- A reference with nothing around it passes the compiler's test too. -/
theorem ref_of_pure (hascii : ∀ c : Char, c.isAlphanum = true → lib.isAlphanumeric c = true)
    (hpure : tryPureRef s = some p) (htrim : trim s = s) : valueToExpr lib (.str s) = .ref p := by
  obtain ⟨body, hs, rfl, hpath⟩ := tryPureRef_iff.mp hpure
  rw [htrim] at hs
  refine valueToExpr_ref_iff.mpr ⟨body, hs, ?_, rfl, ?_⟩
  · apply not_contains_of_chars (c := '{') (by decide)
    intro hmem
    obtain h | h := trimmed_chars hpath.chars _ hmem
    · cases h
    · cases h
  · rw [List.all_eq_true]
    intro c hc
    have hchar := hpath.chars c hc
    simp only [pathChar, Bool.or_eq_true] at hchar
    obtain (h | h) | h := hchar
    · simp [hascii c h]
    · simp [h]
    · simp [h]

end Tests

/-! ## Resolution in the two positions -/

/-- Both give the same value, or both fail. -/
def Agree (x y : Except String Json) : Prop := x.toOption = y.toOption

def atTop (lib : Externals) (state : Outputs) (s : String) : Except String Json :=
  resolveExpr lib state (valueToExpr lib (.str s))

def inside (lib : Externals) (state : Outputs) (s : String) : Except String Json :=
  resolveJsonTemplates lib state (.str s)

def rendered (lib : Externals) (state : Outputs) (s : String) : Except String Json :=
  (lib.render s state).map .str

/-- When a string resolves alike: a bare reference, when its path resolves or rendering fails as well;
a reference with white space around it, when the value is the text it renders to or there is none; any
other text that the compiler takes for a reference, when what it reads is what it renders to. -/
def ResolvesAlike (lib : Externals) (state : Outputs) (s : String) : Prop :=
  match tryPureRef s with
  | some p =>
    if trim s = s then (resolveRef p state).isSome = true ∨ (lib.render s state).isOk = false
    else ∀ v, resolveRef p state = some v → rendered lib state s = .ok v
  | none => ∀ p, valueToExpr lib (.str s) = .ref p → resolveRef p state = (rendered lib state s).toOption

section Resolution
variable {lib : Externals} {state : Outputs} {s p : String}

theorem inside_of_pure (hpure : tryPureRef s = some p) :
    inside lib state s = match resolveRef p state with
      | some v => .ok v
      | none => rendered lib state s := by
  obtain ⟨body, htrim, -⟩ := tryPureRef_iff.mp hpure
  rw [inside, resolveJsonTemplates, hasTemplates_of_trim htrim, if_pos rfl, hpure, Option.bind_some]
  rfl

theorem inside_of_not_pure (hpure : tryPureRef s = none) (htemplates : hasTemplates s = true) :
    inside lib state s = rendered lib state s := by
  rw [inside, resolveJsonTemplates, htemplates, if_pos rfl, hpure]
  rfl

theorem inside_of_plain (htemplates : hasTemplates s = false) : inside lib state s = .ok (.str s) := by
  rw [inside, resolveJsonTemplates, htemplates]
  rfl

theorem atTop_of_ref (href : valueToExpr lib (.str s) = .ref p) :
    (atTop lib state s).toOption = resolveRef p state := by
  rw [atTop, href, resolveExpr]
  cases resolveRef p state <;> rfl

theorem atTop_of_other (href : ∀ p, valueToExpr lib (.str s) ≠ .ref p) :
    atTop lib state s = if hasTemplates s then rendered lib state s else .ok (.str s) := by
  rw [atTop, valueToExpr_other href]
  split_ifs <;> rfl

theorem rendered_fails : (rendered lib state s).toOption = none ↔ (lib.render s state).isOk = false := by
  rw [rendered]
  cases lib.render s state with
  | ok r => simp [Except.map, Except.toOption, Except.isOk, Except.toBool]
  | error e => simp [Except.map, Except.toOption, Except.isOk, Except.toBool]

/-- A string resolves alike at the top of `with` and inside it exactly in the cases of
`ResolvesAlike`; inside, a reference that resolves keeps its value, and so it does at the top when
nothing stands around the braces. -/
theorem positions_agree_iff (lib : Externals) (state : Outputs) (s : String)
    (hascii : ∀ c : Char, c.isAlphanum = true → lib.isAlphanumeric c = true) :
    (Agree (atTop lib state s) (inside lib state s) ↔ ResolvesAlike lib state s) ∧
      ∀ p v, tryPureRef s = some p → resolveRef p state = some v →
        inside lib state s = .ok v ∧ (trim s = s → atTop lib state s = .ok v) := by
  refine ⟨?_, ?_⟩
  · unfold Agree ResolvesAlike
    cases hpure : tryPureRef s with
    | some p =>
      obtain ⟨body, hbody, -⟩ := tryPureRef_iff.mp hpure
      have htemplates := hasTemplates_of_trim hbody
      rw [inside_of_pure hpure]
      simp only
      split_ifs with htrim
      · rw [atTop_of_ref (ref_of_pure hascii hpure htrim), ← rendered_fails]
        cases hresolve : resolveRef p state with
        | some v => simp [Except.toOption]
        | none => simp [eq_comm]
      · have hother : ∀ q, valueToExpr lib (.str s) ≠ .ref q :=
          fun q href => htrim (tests_agree href hpure).2
        rw [atTop_of_other hother, htemplates, if_pos rfl]
        cases hresolve : resolveRef p state with
        | some v =>
          cases rendered lib state s with
          | ok r => simp [Except.toOption]
          | error e => simp [Except.toOption]
        | none => simp
    | none =>
      simp only
      by_cases href : ∃ p, valueToExpr lib (.str s) = .ref p
      · obtain ⟨p, href⟩ := href
        rw [atTop_of_ref href, inside_of_not_pure hpure (hasTemplates_of_ref href), href]
        simp
      · have hother : ∀ q, valueToExpr lib (.str s) ≠ .ref q := fun q h => href ⟨q, h⟩
        rw [atTop_of_other hother]
        refine iff_of_true ?_ fun p h => absurd h (hother p)
        split_ifs with htemplates
        · rw [inside_of_not_pure hpure htemplates]
        · rw [inside_of_plain (by simpa using htemplates)]
  · intro p v hpure hresolve
    refine ⟨by rw [inside_of_pure hpure, hresolve], ?_⟩
    intro htrim
    rw [atTop, ref_of_pure hascii hpure htrim, resolveExpr, hresolve]

end Resolution

/-! ## White space around the braces -/

-- what `minijinja` renders the strings below to
def listExternals : Externals where
  isAlphanumeric := Char.isAlphanum
  render := fun s _ => .ok (if s = " \x7b\x7barr\x7d\x7d " then " [1, 2] " else "[1, 2]")
  parseUuid := fun _ => none
  formatUuid := fun _ => ""

def listState : Outputs := StrMap.ofList [("arr", .arr [Json.ofNat 1, Json.ofNat 2])] (by decide)

/-- At the top a list with white space around its reference becomes a text; inside it stays a list. -/
theorem spaced_list_differs :
    atTop listExternals listState " \x7b\x7barr\x7d\x7d " = .ok (.str " [1, 2] ") ∧
      inside listExternals listState " \x7b\x7barr\x7d\x7d " =
        .ok (.arr [Json.ofNat 1, Json.ofNat 2]) := by
  constructor <;> decide +kernel

theorem bare_list_agrees :
    Agree (atTop listExternals listState "\x7b\x7b arr \x7d\x7d")
      (inside listExternals listState "\x7b\x7b arr \x7d\x7d") := by
  refine (positions_agree_iff listExternals listState "\x7b\x7b arr \x7d\x7d" fun c h => h).1.mpr ?_
  show ResolvesAlike listExternals listState "\x7b\x7b arr \x7d\x7d"
  have hpure : tryPureRef "\x7b\x7b arr \x7d\x7d" = some "arr" := by decide +kernel
  have htrim : trim "\x7b\x7b arr \x7d\x7d" = "\x7b\x7b arr \x7d\x7d" := by decide +kernel
  rw [ResolvesAlike, hpure]
  simp only [htrim, if_true]
  exact .inl (by decide +kernel)

end Konf.Parser
