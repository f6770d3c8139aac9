import Konf.Substrate.Condition
import Mathlib.Data.Nat.Digits.Defs

/-! # The grammar of conditions

Conditions as trees, the text a tree is written as and the value it stands for: `||` binds weaker
than `&&`, that weaker than a comparison, and that weaker than `!`. The evaluator finds this
structure back in the text by looking for operators between spaces. In a text that is put together of
words, an operator found is an operator written; a string literal is not put together of words. -/

namespace Konf.Condition
open Konf.Text
set_option autoImplicit false

/-! ## Trees -/

/-- The binary operators. -/
def symbols : List (List Char) := ['|', '|'] :: ['&', '&'] :: CompareOp.ops.map CompareOp.symbol

def symbolChars : List Char := ['|', '&', '=', '!', '>', '<']

inductive Quote
  | single
  | double

def Quote.char : Quote → Char
  | .single => '\''
  | .double => '"'

/-- The words that are literals. -/
def constants : List (List Char) := ["true".toList, "false".toList, "null".toList, "None".toList]

/-- A name and the fields behind it: one word, that is not read as a literal. -/
structure Reference where
  text : List Char
  nonempty : text ≠ []
  chars : ∀ c ∈ text, isWhitespace c = false ∧ c ∉ symbolChars ∧ c ≠ '\'' ∧ c ≠ '"'
  notConstant : text ∉ constants
  notInt : parseI64 text = none
  notFloat : isFloatText text = false

inductive Atom
  | int (i : Int) (range : -(2 ^ 63) ≤ i ∧ i < 2 ^ 63)
  | bool (b : Bool)
  | str (quote : Quote) (content : String) (unquoted : quote.char ∉ content.toList)
  | ref (r : Reference)

inductive Unary
  | atom (a : Atom)
  | not (u : Unary)
  | refExists (r : Reference)
  | refIsEmpty (r : Reference)

inductive Comparison
  | unary (u : Unary)
  | compare (op : CompareOp) (left right : Unary)

inductive Conjunction
  | comparison (c : Comparison)
  | and (left right : Conjunction)

inductive Disjunction
  | conjunction (c : Conjunction)
  | or (left right : Disjunction)

/-! ### Texts -/

def Atom.print : Atom → List Char
  | .int i _ => (toString i).toList
  | .bool b => (toString b).toList
  | .str quote content _ => quote.char :: content.toList ++ [quote.char]
  | .ref r => r.text

def Unary.print : Unary → List Char
  | .atom a => a.print
  | .not u => '!' :: u.print
  | .refExists r => r.text ++ existsText
  | .refIsEmpty r => r.text ++ isEmptyText

def Comparison.print : Comparison → List Char
  | .unary u => u.print
  | .compare op left right => left.print ++ spaced op.symbol ++ right.print

def Conjunction.print : Conjunction → List Char
  | .comparison c => c.print
  | .and left right => left.print ++ andText ++ right.print

def Disjunction.print : Disjunction → List Char
  | .conjunction c => c.print
  | .or left right => left.print ++ orText ++ right.print

/-! ### Values -/

section Values
variable {F : Type} (fl : Floats F) (context : StrMap (ExprValue F))

def both (f : Bool → Bool → Bool) (x y : Except ExprError (ExprValue F)) :
    Except ExprError (ExprValue F) := do
  let left ← x
  let right ← y
  .ok (.bool (f (toBool fl left) (toBool fl right)))

def Atom.value : Atom → Except ExprError (ExprValue F)
  | .int i _ => .ok (.int i)
  | .bool b => .ok (.bool b)
  | .str _ content _ => .ok (.string content)
  | .ref r => readReference fl context r.text

def Unary.value : Unary → Except ExprError (ExprValue F)
  | .atom a => a.value fl context
  | .not u => do
    let val ← u.value
    .ok (.bool (!toBool fl val))
  | .refExists r => match readReference fl context r.text with
    | .ok val => .ok (.bool (!isNullValue val))
    | .error _ => .ok (.bool false)
  | .refIsEmpty r => (readReference fl context r.text).map fun val => .bool (isEmptyValue val)

def Comparison.value : Comparison → Except ExprError (ExprValue F)
  | .unary u => u.value fl context
  | .compare op left right => do
    let l ← left.value fl context
    let r ← right.value fl context
    op.apply fl l r

def Conjunction.value : Conjunction → Except ExprError (ExprValue F)
  | .comparison c => c.value fl context
  | .and left right => both fl (· && ·) left.value right.value

def Disjunction.value : Disjunction → Except ExprError (ExprValue F)
  | .conjunction c => c.value fl context
  | .or left right => both fl (· || ·) left.value right.value

theorem both_assoc {f : Bool → Bool → Bool} (hf : ∀ a b c, f (f a b) c = f a (f b c))
    (x y z : Except ExprError (ExprValue F)) :
    both fl f (both fl f x y) z = both fl f x (both fl f y z) := by
  cases x with
  | error e => rfl
  | ok l =>
    cases y with
    | error e => rfl
    | ok m =>
      cases z with
      | error e => rfl
      | ok r =>
        have hbits := hf (toBool fl l) (toBool fl m) (toBool fl r)
        exact congrArg (fun b => Except.ok (ExprValue.bool b)) hbits

end Values

/-! ### String literals -/

def Atom.strings : Atom → List String
  | .str _ content _ => [content]
  | _ => []

def Unary.strings : Unary → List String
  | .atom a => a.strings
  | .not u => u.strings
  | _ => []

def Comparison.strings : Comparison → List String
  | .unary u => u.strings
  | .compare _ left right => left.strings ++ right.strings

def Conjunction.strings : Conjunction → List String
  | .comparison c => c.strings
  | .and left right => left.strings ++ right.strings

def Disjunction.strings : Disjunction → List String
  | .conjunction c => c.strings
  | .or left right => left.strings ++ right.strings

/-- No operator stands between spaces in the text. -/
def Unsplit (content : List Char) : Prop := ∀ w ∈ symbols, ¬spaced w <:+: content

def Legible (strings : List String) : Prop := ∀ s ∈ strings, Unsplit s.toList

theorem legible_append {a b : List String} : Legible (a ++ b) ↔ Legible a ∧ Legible b :=
  List.forall_mem_append

/-! ## Words of a text -/

/-- A text that begins and ends with a visible character. -/
structure Solid (s : List Char) : Prop where
  first : ∃ c, s.head? = some c ∧ isWhitespace c = false
  last : ∃ c, s.getLast? = some c ∧ isWhitespace c = false

theorem Solid.trimList {s : List Char} (h : Solid s) : trimList s = s := by
  obtain ⟨⟨c, hc, hcw⟩, ⟨d, hd, hdw⟩⟩ := h
  refine trimList_eq_self ?_ ?_
  · intro c' hc'
    rw [hc] at hc'
    cases hc'
    exact hcw
  · intro d' hd'
    rw [hd] at hd'
    cases hd'
    exact hdw

theorem Solid.append {p k : List Char} {d : Char} (hp : Solid p) (hd : k.getLast? = some d)
    (hwhite : isWhitespace d = false) : Solid (p ++ k) := by
  obtain ⟨c, hc, hcw⟩ := hp.first
  refine ⟨⟨c, ?_, hcw⟩, ⟨d, ?_, hwhite⟩⟩
  · rw [List.head?_append, hc]
    rfl
  · rw [List.getLast?_append, hd]
    rfl

theorem Solid.join {p q : List Char} (hp : Solid p) (m : List Char) (hq : Solid q) :
    Solid (p ++ m ++ q) := by
  obtain ⟨d, hd, hwhite⟩ := hq.last
  rw [List.append_assoc]
  refine hp.append ?_ hwhite
  rw [List.getLast?_append, hd]
  rfl

/-- No word of the text is an operator. -/
def Plain (s : List Char) : Prop := ∀ w ∈ symbols, w ∉ splitChar ' ' s

theorem space_notMem_symbol : ∀ w ∈ symbols, ' ' ∉ w := by decide

theorem symbol_head : ∀ w ∈ symbols, ∃ c ∈ symbolChars, w.head? = some c := by
  simp [symbols, symbolChars, CompareOp.ops, CompareOp.symbol]

theorem mem_words_join {w v p q : List Char} (hv : ' ' ∉ v) :
    w ∈ splitChar ' ' (p ++ spaced v ++ q) ↔ w ∈ splitChar ' ' p ∨ w = v ∨ w ∈ splitChar ' ' q := by
  have hshape : p ++ spaced v ++ q = p ++ ' ' :: (v ++ ' ' :: q) := by simp [spaced]
  rw [hshape, splitChar_append, splitChar_append, splitChar_of_notMem hv]
  simp

theorem Plain.unsplit {s : List Char} (h : Plain s) : Unsplit s := by
  intro w hw hwithin
  exact h w hw (mem_splitChar_of_between (space_notMem_symbol w hw) hwithin)

theorem Plain.join {p q : List Char} (hp : Plain p) (hq : Plain q) {v w : List Char} (hv : v ∈ symbols)
    (hw : w ∈ symbols) (hne : w ≠ v) : w ∉ splitChar ' ' (p ++ spaced v ++ q) := by
  rw [mem_words_join (space_notMem_symbol v hv)]
  rintro (hmem | heq | hmem)
  · exact hp w hw hmem
  · exact hne heq
  · exact hq w hw hmem

/-! ### Of literals and references -/

theorem digit_ne {c d : Char} (hc : c.isDigit = true) (hd : d.isDigit = false) : c ≠ d := by
  rintro rfl
  rw [hc] at hd
  cases hd

theorem digit_visible {c : Char} (h : c.isDigit = true) :
    isWhitespace c = false ∧ c ∉ symbolChars := by
  constructor
  · have hrange : 48 ≤ c.toNat ∧ c.toNat ≤ 57 := by
      simpa [Char.isDigit, UInt32.le_iff_toNat_le] using h
    simp only [isWhitespace, Bool.or_eq_false_iff, Bool.and_eq_false_iff, decide_eq_false_iff_not,
      beq_eq_false_iff_ne]
    omega
  · intro hmem
    have hnone : ∀ d ∈ symbolChars, d.isDigit = false := forall_mem_of_all (by decide)
    exact digit_ne h (hnone c hmem) rfl

theorem digitsValue_eq {l : List Char} (h : ∀ c ∈ l, c.isDigit = true) (acc : ℕ) :
    digitsValue l acc = some (Nat.ofDigitChars 10 l acc) := by
  induction l generalizing acc with
  | nil => rfl
  | cons c l ih =>
    obtain ⟨hc, hl⟩ := List.forall_mem_cons.mp h
    rw [digitsValue, if_pos hc, ih hl, Nat.ofDigitChars_cons, Nat.mul_comm]
    rfl

theorem toDigits_digit {n : ℕ} : ∀ c ∈ Nat.toDigits 10 n, c.isDigit = true :=
  fun _ hc => Nat.isDigit_of_mem_toDigits (by decide) (by decide) hc

/-- An integer is written as digits, with a minus sign before them when it is negative. -/
theorem int_text (i : Int) :
    (∃ n : ℕ, i = n ∧ (toString i).toList = Nat.toDigits 10 n) ∨
      ∃ n : ℕ, i = -(n : Int) ∧ 0 < n ∧ (toString i).toList = '-' :: Nat.toDigits 10 n := by
  cases i with
  | ofNat n => exact .inl ⟨n, rfl, Nat.toList_repr⟩
  | negSucc n =>
    refine .inr ⟨n + 1, rfl, Nat.succ_pos n, ?_⟩
    have htext : toString (Int.negSucc n) = "-" ++ Nat.repr (n + 1) := rfl
    rw [htext, String.toList_append, Nat.toList_repr]
    rfl

theorem parseI64_toString {i : Int} (h : -(2 ^ 63) ≤ i ∧ i < 2 ^ 63) :
    parseI64 (toString i).toList = some i := by
  have hdigits : ∀ n, digitsValue (Nat.toDigits 10 n) 0 = some n := by
    intro n
    rw [digitsValue_eq toDigits_digit, Nat.ofDigitChars_ten_toDigits]
  have hne : ∀ n, (Nat.toDigits 10 n).isEmpty = false := by
    intro n
    simp [Nat.toDigits_ne_nil]
  obtain ⟨n, rfl, htext⟩ | ⟨n, rfl, -, htext⟩ := int_text i
  · have hlt : n < 2 ^ 63 := by omega
    have hhead : ∀ c l, Nat.toDigits 10 n = c :: l → c.isDigit = true := by
      intro c l hlist
      exact toDigits_digit c (by rw [hlist]; exact List.mem_cons_self)
    rw [htext]
    unfold parseI64
    split
    · rename_i hlist
      exact absurd (hhead _ _ hlist) (by decide)
    · rename_i hlist
      exact absurd (hhead _ _ hlist) (by decide)
    · simp only [hne, hdigits, Bool.false_eq_true, if_false, Option.filter_some, decide_eq_true hlt,
        if_true, Option.map_some]
  · have hle : n ≤ 2 ^ 63 := by omega
    rw [htext]
    simp only [parseI64, hne, hdigits, Bool.false_eq_true, if_false, Option.filter_some,
      decide_eq_true hle, if_true, Option.map_some]

/-- A word: visible characters, none of them an operator's. -/
structure IsWord (s : List Char) : Prop where
  nonempty : s ≠ []
  visible : ∀ c ∈ s, isWhitespace c = false
  noSymbol : ∀ c ∈ s, c ∉ symbolChars

theorem IsWord.space {s : List Char} (h : IsWord s) : ' ' ∉ s := by
  intro hmem
  cases h.visible ' ' hmem

theorem IsWord.solid {s : List Char} (h : IsWord s) : Solid s :=
  ⟨⟨s.head h.nonempty, List.head?_eq_some_head h.nonempty, h.visible _ (List.head_mem _)⟩,
    ⟨s.getLast h.nonempty, List.getLast?_eq_some_getLast h.nonempty, h.visible _ (List.getLast_mem _)⟩⟩

theorem IsWord.plain {s : List Char} (h : IsWord s) : Plain s := by
  intro w hw hmem
  rw [splitChar_of_notMem h.space, List.mem_singleton] at hmem
  obtain ⟨c, hc, hhead⟩ := symbol_head w hw
  rw [hmem] at hhead
  exact h.noSymbol c (List.mem_of_mem_head? hhead) hc

theorem Reference.isWord (r : Reference) : IsWord r.text :=
  ⟨r.nonempty, fun c hc => (r.chars c hc).1, fun c hc => (r.chars c hc).2.1⟩

theorem int_isWord (i : Int) : IsWord (toString i).toList := by
  have hdigit : ∀ n, ∀ c ∈ Nat.toDigits 10 n, isWhitespace c = false ∧ c ∉ symbolChars :=
    fun n c hc => digit_visible (toDigits_digit c hc)
  obtain ⟨n, -, htext⟩ | ⟨n, -, -, htext⟩ := int_text i
  · rw [htext]
    exact ⟨Nat.toDigits_ne_nil, fun c hc => (hdigit n c hc).1, fun c hc => (hdigit n c hc).2⟩
  · rw [htext]
    exact ⟨List.cons_ne_nil _ _,
      List.forall_mem_cons.mpr ⟨by decide, fun c hc => (hdigit n c hc).1⟩,
      List.forall_mem_cons.mpr ⟨by decide, fun c hc => (hdigit n c hc).2⟩⟩

theorem bool_isWord (b : Bool) : IsWord (toString b).toList := by
  cases b
  · exact ⟨by decide, forall_mem_of_all (by decide), forall_mem_of_all (by decide)⟩
  · exact ⟨by decide, forall_mem_of_all (by decide), forall_mem_of_all (by decide)⟩

theorem quote_notMem (q : Quote) : ∀ w ∈ symbols, q.char ∉ spaced w := by
  cases q <;> decide

/-- Quotes keep an operator from being found, unless it stands inside them. -/
theorem plain_quoted {q : Quote} {content : List Char} (h : Unsplit content) :
    Plain (q.char :: content ++ [q.char]) := by
  intro w hw hmem
  have hq := quote_notMem q w hw
  rw [splitChar_eq_cons, List.mem_cons] at hmem
  obtain hfirst | hlater := hmem
  · obtain ⟨c, hc, hhead⟩ := symbol_head w hw
    rw [hfirst, List.cons_append, splitChar_cons_of_ne (by cases q <;> decide)] at hhead
    cases hhead
    revert hc
    cases q <;> decide
  · have hfound := infix_of_mem_splitChar_tail hlater
    have hshape : q.char :: content ++ [q.char] ++ [' '] = [] ++ q.char :: (content ++ q.char :: [' ']) := by
      simp
    rw [hshape] at hfound
    obtain hnil | hfound := infix_append_cons hq hfound
    · exact absurd (List.infix_nil.mp hnil) (spaced_ne_nil w)
    · obtain hinside | hlast := infix_append_cons hq hfound
      · exact h w hw hinside
      · have hlen := hlast.length_le
        simp [spaced] at hlen

/-! ### Of what stands between operators -/

theorem quote_visible (q : Quote) : isWhitespace q.char = false := by
  cases q <;> decide

theorem quoted_solid (q : Quote) (content : List Char) : Solid (q.char :: content ++ [q.char]) :=
  ⟨⟨q.char, rfl, quote_visible q⟩, ⟨q.char, List.getLast?_concat, quote_visible q⟩⟩

theorem Atom.print_shape (a : Atom) :
    IsWord a.print ∨ ∃ (q : Quote) (content : List Char), a.print = q.char :: content ++ [q.char] := by
  cases a with
  | int i => exact .inl (int_isWord i)
  | bool b => exact .inl (bool_isWord b)
  | ref r => exact .inl r.isWord
  | str q content => exact .inr ⟨q, content.toList, rfl⟩

theorem Atom.print_solid (a : Atom) : Solid a.print := by
  obtain hword | ⟨q, content, hquoted⟩ := a.print_shape
  · exact hword.solid
  · rw [hquoted]
    exact quoted_solid q content

theorem Atom.print_plain {a : Atom} (h : Legible a.strings) : Plain a.print := by
  cases a with
  | int i => exact (int_isWord i).plain
  | bool b => exact (bool_isWord b).plain
  | ref r => exact r.isWord.plain
  | str q content => exact plain_quoted (h content (List.mem_singleton_self _))

/-- Only `!` begins a text and an operator. -/
theorem Atom.print_head (a : Atom) {c : Char} (hc : c ∈ symbolChars) : a.print.head? ≠ some c := by
  intro hhead
  obtain hword | ⟨q, content, hquoted⟩ := a.print_shape
  · exact hword.noSymbol c (List.mem_of_mem_head? hhead) hc
  · rw [hquoted] at hhead
    cases hhead
    revert hc
    cases q <;> decide

theorem Reference.head_append (r : Reference) (k : List Char) {c : Char} (hc : c ∈ symbolChars) :
    (r.text ++ k).head? ≠ some c := by
  intro hhead
  rw [List.head?_append_of_ne_nil _ r.nonempty] at hhead
  exact r.isWord.noSymbol c (List.mem_of_mem_head? hhead) hc

theorem Unary.print_solid (u : Unary) : Solid u.print := by
  induction u with
  | atom a => exact a.print_solid
  | not u ih => exact ⟨⟨'!', rfl, by decide⟩, by
      obtain ⟨c, hc, hwhite⟩ := ih.last
      exact ⟨c, by rw [Unary.print, List.getLast?_cons, hc]; rfl, hwhite⟩⟩
  | refExists r => exact r.isWord.solid.append rfl (by decide)
  | refIsEmpty r => exact r.isWord.solid.append rfl (by decide)

theorem Unary.print_head (u : Unary) : u.print.head? ≠ some '=' := by
  have hmem : '=' ∈ symbolChars := by decide
  cases u with
  | atom a => exact a.print_head hmem
  | not u => exact fun heq => nomatch heq
  | refExists r => exact r.head_append _ hmem
  | refIsEmpty r => exact r.head_append _ hmem

theorem Plain.keyword {p k : List Char} (hp : Plain p) (hk : Plain k) : Plain (p ++ ' ' :: k) := by
  intro w hw hmem
  rw [splitChar_append, List.mem_append] at hmem
  obtain hmem | hmem := hmem
  · exact hp w hw hmem
  · exact hk w hw hmem

/-- After `!` stands no `=`. -/
theorem Plain.not {s : List Char} (hs : Plain s) (hhead : s.head? ≠ some '=') : Plain ('!' :: s) := by
  have hne : ∀ w ∈ symbols, w.head? = some '!' → w = ['!', '='] := by decide
  intro w hw hmem
  rw [splitChar_cons_of_ne (by decide), List.mem_cons] at hmem
  obtain rfl | hlater := hmem
  · have hword := (List.cons.inj (hne _ hw rfl)).2
    obtain hs' | ⟨rest, hs'⟩ := (splitChar_head ' ' s).2
    · rw [hs', hword] at hhead
      exact hhead rfl
    · rw [hs', hword] at hhead
      exact hhead rfl
  · refine hs w hw ?_
    rw [splitChar_eq_cons]
    exact List.mem_cons_of_mem _ hlater

theorem Unary.print_plain {u : Unary} (h : Legible u.strings) : Plain u.print := by
  induction u with
  | atom a => exact Atom.print_plain h
  | not u ih => exact (ih h).not u.print_head
  | refExists r =>
    have hkey : Plain "exists".toList := by unfold Plain; decide
    exact r.isWord.plain.keyword hkey
  | refIsEmpty r =>
    have hkey : Plain "is empty".toList := by unfold Plain; decide
    exact r.isWord.plain.keyword hkey

/-! ## Evaluating the text of a tree -/

section Evaluation
variable {F : Type} (fl : Floats F) (context : StrMap (ExprValue F))

theorem findComparison_none {s : List Char} (h : Unsplit s) : findComparison s = none := by
  rw [findComparison, List.findSome?_eq_none_iff]
  intro op hop
  have hsymbol : op.symbol ∈ symbols := by
    revert op
    decide
  rw [splitOnce_eq_none.mpr (h _ hsymbol)]
  rfl

theorem not_orText {s : List Char} (h : ['|', '|'] ∉ splitChar ' ' s) : ¬orText <:+: s :=
  fun hwithin => h (mem_splitChar_of_between (by decide) hwithin)

theorem not_andText {s : List Char} (h : ['&', '&'] ∉ splitChar ' ' s) : ¬andText <:+: s :=
  fun hwithin => h (mem_splitChar_of_between (by decide) hwithin)

theorem evalExpr_plain {s : List Char} (hs : Solid s) (h : Plain s) :
    evalExpr fl context s = evalComparison fl context s := by
  have hor : ¬orText <:+: trimList s := by
    rw [hs.trimList]
    exact h.unsplit _ (by decide)
  have hand : ¬andText <:+: trimList s := by
    rw [hs.trimList]
    exact h.unsplit _ (by decide)
  rw [evalExpr_comparison fl context hor hand, hs.trimList]

theorem evalExpr_not {s : List Char} (hs : Solid ('!' :: s)) (h : Plain ('!' :: s)) :
    evalExpr fl context ('!' :: s) = (do
      let val ← evalExpr fl context s
      .ok (.bool (!toBool fl val))) := by
  rw [evalExpr_plain fl context hs h]
  unfold evalComparison
  rw [findComparison_none h.unsplit]
  rfl

theorem evalExpr_operand {s : List Char} (hs : Solid s) (h : Plain s) (hhead : s.head? ≠ some '!') :
    evalExpr fl context s = match tryKeywordOp fl context s with
      | .error e => .error e
      | .ok (some res) => .ok res
      | .ok none => evalValue fl context s := by
  rw [evalExpr_plain fl context hs h]
  unfold evalComparison
  rw [findComparison_none h.unsplit]
  dsimp only
  split
  · exact absurd rfl hhead
  · rfl

theorem beforeSuffix_append (p k : List Char) : beforeSuffix k (p ++ k) = some p := by
  rw [beforeSuffix, if_pos (List.isSuffixOf_iff_suffix.mpr (List.suffix_append p k)),
    List.length_append, Nat.add_sub_cancel, List.take_left]

theorem beforeSuffix_eq_none {k s : List Char} (h : k.getLast? ≠ s.getLast?) (hk : k ≠ []) :
    beforeSuffix k s = none := by
  rw [beforeSuffix, if_neg]
  intro hsuffix
  obtain ⟨p, rfl⟩ := List.isSuffixOf_iff_suffix.mp hsuffix
  rw [List.getLast?_append_of_ne_nil _ hk] at h
  exact h rfl

theorem beforeSuffix_of_word {k s : List Char} (h : ' ' ∉ s) (hk : ' ' ∈ k) :
    beforeSuffix k s = none := by
  rw [beforeSuffix, if_neg]
  intro hsuffix
  exact h ((List.isSuffixOf_iff_suffix.mp hsuffix).subset hk)

theorem tryKeywordOp_none {s : List Char} (hexists : beforeSuffix existsText s = none)
    (hempty : beforeSuffix isEmptyText s = none) : tryKeywordOp fl context s = .ok none := by
  rw [tryKeywordOp, hexists, hempty]

theorem constants_head : ∀ s ∈ constants, ∃ c ∈ ['t', 'f', 'n', 'N'], s.head? = some c := by
  simp [constants]

theorem evalValue_notConstant {s : List Char} (hs : Solid s) (h : s ∉ constants) :
    evalValue fl context s =
      if isQuoted s then .ok (.string (String.ofList s.tail.dropLast))
      else evalWord fl context s := by
  simp only [constants, List.mem_cons, List.not_mem_nil, or_false, not_or] at h
  obtain ⟨htrue, hfalse, hnull, hnone⟩ := h
  rw [evalValue, hs.trimList, if_neg htrue, if_neg hfalse, if_neg (not_or.mpr ⟨hnull, hnone⟩)]

theorem not_isQuoted {s : List Char} (h : ∀ c, s.head? = some c → c ≠ '\'' ∧ c ≠ '"') :
    isQuoted s = false := by
  cases s with
  | nil => rfl
  | cons c s => simp [isQuoted, h c rfl]

theorem Reference.evalValue_text (r : Reference) :
    evalValue fl context r.text = readReference fl context r.text := by
  have hquoted : isQuoted r.text = false :=
    not_isQuoted fun c hc => (r.chars c (List.mem_of_mem_head? hc)).2.2
  rw [evalValue_notConstant fl context r.isWord.solid r.notConstant, hquoted]
  rw [evalWord, r.notInt, r.notFloat]
  rfl

theorem int_head (i : Int) {c : Char} (hc : (toString i).toList.head? = some c) :
    c = '-' ∨ c.isDigit = true := by
  obtain ⟨n, -, htext⟩ | ⟨n, -, -, htext⟩ := int_text i
  · rw [htext] at hc
    exact .inr (toDigits_digit c (List.mem_of_mem_head? hc))
  · rw [htext] at hc
    cases hc
    exact .inl rfl

theorem evalValue_int {i : Int} (range : -(2 ^ 63) ≤ i ∧ i < 2 ^ 63) :
    evalValue fl context (toString i).toList = .ok (.int i) := by
  have hconstant : (toString i).toList ∉ constants := by
    intro hmem
    obtain ⟨c, hc, hhead⟩ := constants_head _ hmem
    have hletter : ∀ d ∈ ['t', 'f', 'n', 'N'], d.isDigit = false ∧ d ≠ '-' :=
      forall_mem_of_all (by decide)
    obtain rfl | hdigit := int_head i hhead
    · exact (hletter _ hc).2 rfl
    · exact digit_ne hdigit (hletter _ hc).1 rfl
  have hquoted : isQuoted (toString i).toList = false := by
    refine not_isQuoted fun c hc => ?_
    obtain rfl | hdigit := int_head i hc
    · decide
    · exact ⟨digit_ne hdigit rfl, digit_ne hdigit rfl⟩
  rw [evalValue_notConstant fl context (int_isWord i).solid hconstant, hquoted]
  rw [evalWord, parseI64_toString range]
  rfl

theorem evalValue_quoted (q : Quote) (content : List Char) :
    evalValue fl context (q.char :: content ++ [q.char]) = .ok (.string (String.ofList content)) := by
  have hconstant : q.char :: content ++ [q.char] ∉ constants := by
    intro hmem
    obtain ⟨c, hc, hhead⟩ := constants_head _ hmem
    cases hhead
    revert hc
    cases q <;> decide
  have hquoted : isQuoted (q.char :: content ++ [q.char]) = true := by
    cases q <;> simp [isQuoted, Quote.char, List.getLast?_cons]
  rw [evalValue_notConstant fl context (quoted_solid q content) hconstant, if_pos hquoted]
  simp

theorem Atom.evalValue_print (a : Atom) : evalValue fl context a.print = a.value fl context := by
  cases a with
  | int i range => exact evalValue_int fl context range
  | bool b => cases b <;> rfl
  | str q content =>
    rw [Atom.print, evalValue_quoted, String.ofList_toList]
    rfl
  | ref r => exact r.evalValue_text fl context

theorem Atom.tryKeywordOp_print (a : Atom) : tryKeywordOp fl context a.print = .ok none := by
  obtain hword | ⟨q, content, hquoted⟩ := a.print_shape
  · exact tryKeywordOp_none fl context (beforeSuffix_of_word hword.space (by decide))
      (beforeSuffix_of_word hword.space (by decide))
  · have hlast : a.print.getLast? = some q.char := by rw [hquoted, List.getLast?_concat]
    refine tryKeywordOp_none fl context (beforeSuffix_eq_none ?_ (by decide))
      (beforeSuffix_eq_none ?_ (by decide))
    · rw [hlast]
      cases q <;> decide
    · rw [hlast]
      cases q <;> decide

theorem Unary.evalExpr_print {u : Unary} (h : Legible u.strings) :
    evalExpr fl context u.print = u.value fl context := by
  have hsolid := u.print_solid
  have hplain := Unary.print_plain h
  have hmem : '!' ∈ symbolChars := by decide
  induction u with
  | atom a =>
    rw [Unary.print, evalExpr_operand fl context a.print_solid hplain (a.print_head hmem),
      a.tryKeywordOp_print]
    exact a.evalValue_print fl context
  | not u ih =>
    rw [Unary.print, evalExpr_not fl context hsolid hplain, ih h u.print_solid (Unary.print_plain h)]
    rfl
  | refExists r =>
    rw [evalExpr_operand fl context hsolid hplain (r.head_append _ hmem), Unary.print, tryKeywordOp,
      beforeSuffix_append]
    dsimp only
    rw [r.isWord.solid.trimList, r.evalValue_text, Unary.value]
    cases readReference fl context r.text <;> rfl
  | refIsEmpty r =>
    have hexists : beforeSuffix existsText (r.text ++ isEmptyText) = none := by
      refine beforeSuffix_eq_none ?_ (by decide)
      rw [List.getLast?_append_of_ne_nil _ (by decide)]
      decide
    rw [evalExpr_operand fl context hsolid hplain (r.head_append _ hmem), Unary.print, tryKeywordOp, hexists,
      beforeSuffix_append]
    dsimp only
    rw [r.isWord.solid.trimList, r.evalValue_text, Unary.value]
    cases readReference fl context r.text <;> rfl

/-! ### Comparisons -/

theorem Comparison.print_solid (c : Comparison) : Solid c.print := by
  cases c with
  | unary u => exact u.print_solid
  | compare op left right => exact left.print_solid.join _ right.print_solid

theorem symbol_mem (op : CompareOp) : op.symbol ∈ symbols := by
  cases op <;> decide

theorem symbol_injective {op op' : CompareOp} (h : op.symbol = op'.symbol) : op = op' := by
  cases op <;> cases op' <;> first | rfl | cases h

theorem Comparison.print_words {c : Comparison} (h : Legible c.strings) :
    ∀ w ∈ [['|', '|'], ['&', '&']], w ∉ splitChar ' ' c.print := by
  have hlogical : ∀ w ∈ [['|', '|'], ['&', '&']], w ∈ symbols ∧ ∀ op : CompareOp, w ≠ op.symbol := by
    intro w hw
    simp only [List.mem_cons, List.not_mem_nil, or_false] at hw
    obtain rfl | rfl := hw
    · exact ⟨by decide, fun op => by cases op <;> decide⟩
    · exact ⟨by decide, fun op => by cases op <;> decide⟩
  intro w hw
  obtain ⟨hsymbol, hne⟩ := hlogical w hw
  cases c with
  | unary u => exact Unary.print_plain h w hsymbol
  | compare op left right =>
    obtain ⟨hl, hr⟩ := legible_append.mp h
    exact (Unary.print_plain hl).join (Unary.print_plain hr) (symbol_mem op) hsymbol (hne op)

theorem findComparison_join {p q : List Char} (hp : Plain p) (hq : Plain q) (op : CompareOp) :
    findComparison (p ++ spaced op.symbol ++ q) = some (op, p, q) := by
  have hnone : ∀ op', op' ≠ op → splitOnce (spaced op'.symbol) (p ++ spaced op.symbol ++ q) = none := by
    intro op' hne
    rw [splitOnce_eq_none]
    intro hwithin
    refine hp.join hq (symbol_mem op) (symbol_mem op') ?_
      (mem_splitChar_of_between (space_notMem_symbol _ (symbol_mem op')) hwithin)
    exact fun heq => hne (symbol_injective heq)
  have hsome : splitOnce (spaced op.symbol) (p ++ spaced op.symbol ++ q) = some (p, q) :=
    splitOnce_word (space_notMem_symbol _ (symbol_mem op)) (hp _ (symbol_mem op))
  generalize p ++ spaced op.symbol ++ q = text at hnone hsome
  cases op <;> simp [findComparison, CompareOp.ops, hnone, hsome]

theorem Comparison.evalExpr_print {c : Comparison} (h : Legible c.strings) :
    evalExpr fl context c.print = c.value fl context := by
  have hsolid := c.print_solid
  have hwords := Comparison.print_words h
  cases c with
  | unary u => exact Unary.evalExpr_print fl context h
  | compare op left right =>
    obtain ⟨hl, hr⟩ := legible_append.mp h
    have hor : ¬orText <:+: trimList (Comparison.compare op left right).print := by
      rw [hsolid.trimList]
      exact not_orText (hwords _ (by decide))
    have hand : ¬andText <:+: trimList (Comparison.compare op left right).print := by
      rw [hsolid.trimList]
      exact not_andText (hwords _ (by decide))
    rw [evalExpr_comparison fl context hor hand, hsolid.trimList, Comparison.print]
    unfold evalComparison
    rw [findComparison_join (Unary.print_plain hl) (Unary.print_plain hr)]
    dsimp only
    rw [left.print_solid.trimList, right.print_solid.trimList, Unary.evalExpr_print fl context hl,
      Unary.evalExpr_print fl context hr, Comparison.value]

/-! ### Conjunctions and disjunctions

The last operator is found, and the operators are associative: the text behind an operator may be
evaluated first, whatever stands before it. -/

theorem Conjunction.print_solid (c : Conjunction) : Solid c.print := by
  induction c with
  | comparison c => exact c.print_solid
  | and left right ihl ihr => exact ihl.join _ ihr

theorem Conjunction.print_words {c : Conjunction} (h : Legible c.strings) :
    ['|', '|'] ∉ splitChar ' ' c.print := by
  induction c with
  | comparison c => exact Comparison.print_words h _ (by decide)
  | and left right ihl ihr =>
    obtain ⟨hl, hr⟩ := legible_append.mp h
    rw [Conjunction.print, andText, mem_words_join (by decide)]
    rintro (hmem | heq | hmem)
    · exact ihl hl hmem
    · cases heq
    · exact ihr hr hmem

theorem evalExpr_andText {p q : List Char} (hp : Solid p) (hq : Solid q)
    (hor : ['|', '|'] ∉ splitChar ' ' (p ++ andText ++ q)) (hand : ['&', '&'] ∉ splitChar ' ' q) :
    evalExpr fl context (p ++ andText ++ q) =
      both fl (· && ·) (evalExpr fl context p) (evalExpr fl context q) := by
  have htrim := (hp.join andText hq).trimList
  have hor' : ¬orText <:+: trimList (p ++ andText ++ q) := by
    rw [htrim]
    exact not_orText hor
  have hsplit : rsplitOnce andText (trimList (p ++ andText ++ q)) = some (p, q) := by
    rw [htrim]
    exact rsplitOnce_word (by decide) hand
  rw [evalExpr_and fl context hor' hsplit]
  rfl

theorem evalExpr_orText {p q : List Char} (hp : Solid p) (hq : Solid q)
    (hor : ['|', '|'] ∉ splitChar ' ' q) :
    evalExpr fl context (p ++ orText ++ q) =
      both fl (· || ·) (evalExpr fl context p) (evalExpr fl context q) := by
  have hsplit : rsplitOnce orText (trimList (p ++ orText ++ q)) = some (p, q) := by
    rw [(hp.join orText hq).trimList]
    exact rsplitOnce_word (by decide) hor
  rw [evalExpr_or fl context hsplit]
  rfl

theorem Conjunction.evalExpr_after {c : Conjunction} (h : Legible c.strings) {p : List Char}
    (hp : Solid p) (hor : ['|', '|'] ∉ splitChar ' ' p) :
    evalExpr fl context (p ++ andText ++ c.print) =
      both fl (· && ·) (evalExpr fl context p) (c.value fl context) := by
  induction c generalizing p with
  | comparison c =>
    have hwords := Comparison.print_words h
    have hor' : ['|', '|'] ∉ splitChar ' ' (p ++ andText ++ c.print) := by
      rw [andText, mem_words_join (by decide), not_or, not_or]
      exact ⟨hor, by decide, hwords _ (by decide)⟩
    rw [Conjunction.print, evalExpr_andText fl context hp c.print_solid hor' (hwords _ (by decide)),
      Comparison.evalExpr_print fl context h, Conjunction.value]
  | and left right ihl ihr =>
    obtain ⟨hl, hr⟩ := legible_append.mp h
    have hor' : ['|', '|'] ∉ splitChar ' ' (p ++ andText ++ left.print) := by
      rw [andText, mem_words_join (by decide), not_or, not_or]
      exact ⟨hor, by decide, Conjunction.print_words hl⟩
    have hshape : p ++ andText ++ (left.and right).print =
        p ++ andText ++ left.print ++ andText ++ right.print := by
      simp [Conjunction.print]
    rw [hshape, ihr hr (hp.join andText left.print_solid) hor', ihl hl hp hor,
      both_assoc fl Bool.and_assoc, Conjunction.value]

theorem Conjunction.evalExpr_print {c : Conjunction} (h : Legible c.strings) :
    evalExpr fl context c.print = c.value fl context := by
  induction c with
  | comparison c => exact Comparison.evalExpr_print fl context h
  | and left right ihl ihr =>
    obtain ⟨hl, hr⟩ := legible_append.mp h
    rw [Conjunction.print, Conjunction.evalExpr_after fl context hr left.print_solid
      (Conjunction.print_words hl), ihl hl, Conjunction.value]

theorem Disjunction.print_solid (t : Disjunction) : Solid t.print := by
  induction t with
  | conjunction c => exact c.print_solid
  | or left right ihl ihr => exact ihl.join _ ihr

theorem Disjunction.evalExpr_after {t : Disjunction} (h : Legible t.strings) {p : List Char}
    (hp : Solid p) :
    evalExpr fl context (p ++ orText ++ t.print) =
      both fl (· || ·) (evalExpr fl context p) (t.value fl context) := by
  induction t generalizing p with
  | conjunction c =>
    rw [Disjunction.print, evalExpr_orText fl context hp c.print_solid (Conjunction.print_words h),
      Conjunction.evalExpr_print fl context h, Disjunction.value]
  | or left right ihl ihr =>
    obtain ⟨hl, hr⟩ := legible_append.mp h
    have hshape : p ++ orText ++ (left.or right).print =
        p ++ orText ++ left.print ++ orText ++ right.print := by
      simp [Disjunction.print]
    rw [hshape, ihr hr (hp.join orText left.print_solid), ihl hl hp,
      both_assoc fl Bool.or_assoc, Disjunction.value]

theorem Disjunction.evalExpr_print {t : Disjunction} (h : Legible t.strings) :
    evalExpr fl context t.print = t.value fl context := by
  induction t with
  | conjunction c => exact Conjunction.evalExpr_print fl context h
  | or left right ihl ihr =>
    obtain ⟨hl, hr⟩ := legible_append.mp h
    rw [Disjunction.print, Disjunction.evalExpr_after fl context hr left.print_solid, ihl hl,
      Disjunction.value]

theorem evaluate_print (t : Disjunction) :
    evaluate fl context (String.ofList t.print) = evalExpr fl context t.print := by
  have hsolid := t.print_solid
  have hne : t.print.isEmpty = false := by
    obtain ⟨c, hc, -⟩ := hsolid.first
    cases hprint : t.print with
    | nil =>
      rw [hprint] at hc
      cases hc
    | cons d s => rfl
  rw [evaluate, String.toList_ofList, hsolid.trimList, hne]
  rfl

end Evaluation

end Konf.Condition
