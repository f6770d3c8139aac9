import Konf.Substrate.Grammar

/-! # Operators in string literals

The evaluator looks for operators inside string literals too. It cuts a literal there into two texts
with one quote each, and no such text has a value: however the text is cut further, one of the parts
keeps the odd quote. -/

namespace Konf.Condition
open Konf.Text
set_option autoImplicit false

/-! ## Texts with an odd quote -/

section Cut
variable {q c : Char} {l m r x y s t : List Char}

/-- A character outside the middle part stands before it or behind it. -/
theorem locate (hm : c ∉ m) (h : l ++ m ++ r = x ++ c :: y) :
    (∃ x', x = l ++ m ++ x' ∧ r = x' ++ c :: y) ∨ ∃ y', l = x ++ c :: y' ∧ y = y' ++ m ++ r := by
  rw [List.append_assoc] at h
  obtain ⟨d, rfl, hd⟩ | ⟨d, rfl, hd⟩ := List.append_eq_append_iff.mp h
  · obtain ⟨e, rfl, he⟩ | ⟨e, rfl, he⟩ := List.append_eq_append_iff.mp hd
    · exact .inl ⟨e, by rw [List.append_assoc], he⟩
    · cases e with
      | nil => exact .inl ⟨[], by simp, he.symm⟩
      | cons e₀ e =>
        rw [List.cons_append, List.cons.injEq] at he
        exact absurd (by simp [he.1]) hm
  · cases d with
    | nil =>
      cases m with
      | nil => exact .inl ⟨[], by simp, hd.symm⟩
      | cons m₀ m =>
        simp only [List.nil_append, List.cons_append, List.cons.injEq] at hd
        exact absurd (by simp [hd.1]) hm
    | cons d₀ d =>
      rw [List.cons_append, List.cons.injEq] at hd
      exact .inr ⟨d, by rw [hd.1], by rw [hd.2, List.append_assoc]⟩

/-- What may follow a closing quote: nothing, or an operator. -/
def Detached (y : List Char) : Prop :=
  y = [] ∨ ∃ w ∈ symbols, ∃ rest, y = ' ' :: w ++ rest ∧ ∀ c, rest.head? = some c → c = ' '

theorem symbol_last : ∀ w ∈ symbols, ∃ c ∈ symbolChars, w.getLast? = some c := by
  simp [symbols, symbolChars, CompareOp.ops, CompareOp.symbol]

theorem symbol_visible : ∀ w ∈ symbols, ∀ c ∈ w, isWhitespace c = false := by
  have hall : ∀ w ∈ symbols, w.all (fun c => decide (isWhitespace c = false)) = true := by decide
  exact fun w hw => forall_mem_of_all (hall w hw)

theorem Detached.cut (h : Detached (y ++ r)) (hr : ∀ c, r.head? = some c → isWhitespace c = true) :
    Detached y := by
  obtain hnil | ⟨w, hw, rest, hy, hrest⟩ := h
  · exact .inl (List.append_eq_nil_iff.mp hnil).1
  · obtain ⟨d, hd, hr'⟩ | ⟨d, rfl, hd⟩ := List.append_eq_append_iff.mp hy
    · -- the cut is inside the operator, hence before it or behind it
      cases y with
      | nil => exact .inl rfl
      | cons y₀ y =>
        cases d with
        | nil =>
          rw [List.append_nil] at hd
          exact .inr ⟨w, hw, [], by rw [List.append_nil, hd], fun c hc => nomatch hc⟩
        | cons d₀ d =>
          have hmem : d₀ ∈ w := by
            rw [List.cons_append, List.cons.injEq] at hd
            rw [hd.2]
            simp
          have hwhite := hr d₀ (by rw [hr']; rfl)
          rw [symbol_visible w hw d₀ hmem] at hwhite
          cases hwhite
    · refine .inr ⟨w, hw, d, rfl, ?_⟩
      intro c hc
      apply hrest
      rw [hd, List.head?_append, hc]
      rfl

/-- One quote, and before it none of its kind. -/
def Dangling (q : Quote) (s : List Char) : Prop :=
  ∃ x y, s = x ++ q.char :: y ∧ q.char ∉ x ∧ Detached y

/-- A literal with an operator inside. -/
def Torn (s : List Char) : Prop :=
  ∃ (q : Quote) (x content y : List Char), s = x ++ q.char :: (content ++ q.char :: y) ∧
    q.char ∉ content ∧ ¬Unsplit content ∧ Detached y

def Broken (s : List Char) : Prop := (∃ q, Dangling q s) ∨ Torn s

/-- Take a piece without quotes out of the middle, in front of which no word is cut: what stands
before it or what stands behind it is broken. -/
theorem Broken.cut (hm : ∀ q : Quote, q.char ∉ m)
    (hwhite : l ≠ [] → ∀ c, (m ++ r).head? = some c → isWhitespace c = true)
    (h : Broken (l ++ m ++ r)) : Broken l ∨ Broken r := by
  obtain ⟨q, x, y, hs, hx, hy⟩ | ⟨q, x, content, y, hs, hcontent, hsplit, hy⟩ := h
  · obtain ⟨x', rfl, rfl⟩ | ⟨y', rfl, rfl⟩ := locate (hm q) hs
    · exact .inr (.inl ⟨q, x', y, rfl, fun hmem => hx (by simp [hmem]), hy⟩)
    · rw [List.append_assoc] at hy
      exact .inl (.inl ⟨q, x, y', rfl, hx, hy.cut (hwhite (by simp))⟩)
  · obtain ⟨x', rfl, rfl⟩ | ⟨y', rfl, hrest⟩ := locate (hm q) hs
    · exact .inr (.inr ⟨q, x', content, y, rfl, hcontent, hsplit, hy⟩)
    · obtain ⟨content', rfl, rfl⟩ | ⟨y'', rfl, rfl⟩ := locate (hm q) hrest.symm
      · exact .inr (.inl ⟨q, content', y, rfl, fun hmem => hcontent (by simp [hmem]), hy⟩)
      · rw [List.append_assoc] at hy
        exact .inl (.inr ⟨q, x, content, y'', rfl, hcontent, hsplit, hy.cut (hwhite (by simp))⟩)

theorem not_broken_nil : ¬Broken [] := by
  rintro (⟨q, x, y, hs, -, -⟩ | ⟨q, x, content, y, hs, -, -, -⟩)
  · simp at hs
  · simp at hs

theorem Broken.trim (h : Broken s) : Broken (trimList s) := by
  obtain ⟨a, b, hsplit, ha, hb⟩ := trimList_split s
  have hnone : ∀ {l : List Char}, (∀ c ∈ l, isWhitespace c = true) → ∀ q : Quote, q.char ∉ l := by
    intro l hl q hmem
    have hwhite := hl _ hmem
    rw [quote_visible] at hwhite
    cases hwhite
  rw [hsplit] at h
  have hfront : Broken (trimList s ++ b) := by
    have hshape : a ++ trimList s ++ b = [] ++ a ++ (trimList s ++ b) := by simp
    rw [hshape] at h
    exact (h.cut (hnone ha) (fun hne => absurd rfl hne)).resolve_left not_broken_nil
  have hshape : trimList s ++ b = trimList s ++ b ++ [] := by simp
  rw [hshape] at hfront
  refine (hfront.cut (hnone hb) ?_).resolve_right not_broken_nil
  intro _ c hc
  rw [List.append_nil] at hc
  exact hb c (List.mem_of_mem_head? hc)

theorem Broken.split (w : List Char) (hw : w ∈ symbols) (h : Broken (l ++ spaced w ++ r)) :
    Broken l ∨ Broken r := by
  refine h.cut (fun q => quote_notMem q w hw) ?_
  intro _ c hc
  cases hc
  rfl

theorem Broken.not (h : Broken ('!' :: s)) : Broken s := by
  have hshape : '!' :: s = [] ++ ['!'] ++ s := rfl
  rw [hshape] at h
  refine (h.cut ?_ (fun hne => absurd rfl hne)).resolve_left not_broken_nil
  intro q
  cases q <;> decide

/-- When no operator is left, there is one odd quote, at the end or before an operator there. -/
theorem Broken.rest (h : Broken s) (hs : Unsplit s) : ∃ (q : Quote) (x : List Char), q.char ∉ x ∧
    (s = x ++ [q.char] ∨ ∃ w ∈ symbols, s = x ++ q.char :: ' ' :: w) := by
  obtain ⟨q, x, y, rfl, hx, hy⟩ | ⟨q, x, content, y, rfl, hcontent, hsplit, hy⟩ := h
  · refine ⟨q, x, hx, ?_⟩
    obtain rfl | ⟨w, hw, rest, rfl, hrest⟩ := hy
    · exact .inl rfl
    · refine .inr ⟨w, hw, ?_⟩
      cases rest with
      | nil => simp
      | cons c rest =>
        rw [hrest c rfl] at hs
        exact absurd ⟨x ++ [q.char], rest, by simp [spaced]⟩ (hs w hw)
  · refine absurd ?_ hsplit
    intro w hw hwithin
    exact hs w hw (hwithin.trans ⟨x ++ [q.char], q.char :: y, by simp⟩)

/-- The last character is that quote or an operator's. -/
theorem Broken.last (h : Broken s) (hs : Unsplit s) :
    ∃ c ∈ '\'' :: '"' :: symbolChars, s.getLast? = some c := by
  obtain ⟨q, x, -, rfl | ⟨w, hw, rfl⟩⟩ := h.rest hs
  · exact ⟨q.char, by cases q <;> decide, List.getLast?_concat⟩
  · obtain ⟨c, hc, hend⟩ := symbol_last w hw
    refine ⟨c, List.mem_cons_of_mem _ (List.mem_cons_of_mem _ hc), ?_⟩
    simp [List.getLast?_append, List.getLast?_cons, hend]

theorem Broken.isQuoted (h : Broken s) (hs : Unsplit s) : isQuoted s = false := by
  rw [Bool.eq_false_iff]
  intro hquoted
  have hends : 2 ≤ s.length ∧ ∃ q : Quote, s.head? = some q.char ∧ s.getLast? = some q.char := by
    simp only [Condition.isQuoted, Bool.and_eq_true, Bool.or_eq_true, decide_eq_true_eq,
      beq_iff_eq] at hquoted
    obtain ⟨hlen, hdouble | hsingle⟩ := hquoted
    · exact ⟨hlen, .double, hdouble⟩
    · exact ⟨hlen, .single, hsingle⟩
  obtain ⟨hlen, q', hfirst, hend⟩ := hends
  obtain ⟨q, x, hx, rfl | ⟨w, hw, rfl⟩⟩ := h.rest hs
  · rw [List.getLast?_concat] at hend
    rw [Option.some.inj hend] at hx
    cases x with
    | nil => simp at hlen
    | cons c x =>
      cases hfirst
      exact hx List.mem_cons_self
  · obtain ⟨c, hc, hlast⟩ := symbol_last w hw
    simp only [List.getLast?_append, List.getLast?_cons, hlast] at hend
    cases hend
    revert hc
    cases q' <;> decide

end Cut

/-! ## They have no value -/

section Numbers
variable {s : List Char}

theorem digitsValue_eq_none {c : Char} (hc : c ∈ s) (hdigit : c.isDigit = false) (acc : ℕ) :
    digitsValue s acc = none := by
  induction s generalizing acc with
  | nil => cases hc
  | cons d s ih =>
    rw [digitsValue]
    split_ifs with hd
    · obtain rfl | hc := List.mem_cons.mp hc
      · rw [hdigit] at hd
        cases hd
      · exact ih hc _
    · rfl

theorem mem_of_mem_cons_of_ne {c d : Char} (h : c ∈ d :: s) (hne : c ≠ d) : c ∈ s :=
  (List.mem_cons.mp h).resolve_left hne

/-- The characters of a numeral. -/
def numeralChar (c : Char) : Bool := c.isDigit || ['.', 'e', 'E', '+', '-'].contains c

/-- A character that stands in no number, infinities and `nan` included. -/
def foreignToNumerals (c : Char) : Bool :=
  !numeralChar c && c.toLower == c && !("infinity".toList ++ "nan".toList).contains c

theorem quote_foreign (q : Quote) : foreignToNumerals q.char = true := by cases q <;> decide

section Foreign
variable {c : Char} (hforeign : foreignToNumerals c = true)
include hforeign

theorem numeralChar_foreign : numeralChar c = false := by
  simp only [foreignToNumerals, Bool.and_eq_true, Bool.not_eq_true'] at hforeign
  exact hforeign.1.1

theorem foreign_ne {d : Char} (hd : numeralChar d = true) : c ≠ d := by
  intro heq
  rw [← heq, numeralChar_foreign hforeign] at hd
  cases hd

theorem parseI64_foreign (hc : c ∈ s) : parseI64 s = none := by
  have hdigit : c.isDigit = false := by
    have hchar := numeralChar_foreign hforeign
    simp only [numeralChar, Bool.or_eq_false_iff] at hchar
    exact hchar.1
  have hnumber : ∀ digits, c ∈ digits →
      (if digits.isEmpty then none else digitsValue digits 0) = none := by
    intro digits hmem
    rw [digitsValue_eq_none hmem hdigit]
    exact ite_self none
  unfold parseI64
  split
  · simp only [hnumber _ (mem_of_mem_cons_of_ne hc (foreign_ne hforeign rfl))]
    rfl
  · simp only [hnumber _ (mem_of_mem_cons_of_ne hc (foreign_ne hforeign rfl))]
    rfl
  · simp only [hnumber _ hc]
    rfl

end Foreign

theorem numeralChar_digits {digits : List Char} (h : digits.all Char.isDigit = true) :
    ∀ c ∈ digits, numeralChar c = true := by
  intro c hc
  rw [numeralChar, List.all_eq_true.mp h c hc, Bool.true_or]

theorem isExponent_chars (h : isExponent s = true) : ∀ c ∈ s, numeralChar c = true := by
  cases s with
  | nil => exact fun c hc => nomatch hc
  | cons e rest =>
    simp only [isExponent, Bool.and_eq_true, Bool.or_eq_true, beq_iff_eq] at h
    obtain ⟨⟨he, -⟩, hdigits⟩ := h
    refine List.forall_mem_cons.mpr ⟨?_, ?_⟩
    · obtain rfl | rfl := he
      · rfl
      · rfl
    · split at hdigits
      · exact List.forall_mem_cons.mpr ⟨rfl, numeralChar_digits hdigits⟩
      · exact List.forall_mem_cons.mpr ⟨rfl, numeralChar_digits hdigits⟩
      · exact numeralChar_digits hdigits

theorem isNumber_chars (h : isNumber s = true) : ∀ c ∈ s, numeralChar c = true := by
  have htake : ∀ l : List Char, ∀ c ∈ l.takeWhile Char.isDigit, numeralChar c = true :=
    fun l => numeralChar_digits (List.all_takeWhile)
  have hcut : ∀ l : List Char, (∀ c ∈ l.dropWhile Char.isDigit, numeralChar c = true) →
      ∀ c ∈ l, numeralChar c = true := by
    intro l hrest
    rw [← List.takeWhile_append_dropWhile (p := Char.isDigit) (l := l)]
    exact List.forall_mem_append.mpr ⟨htake l, hrest⟩
  apply hcut
  unfold isNumber at h
  split at h
  · rename_i rest hrest
    simp only [Bool.and_eq_true] at h
    rw [hrest]
    exact List.forall_mem_cons.mpr ⟨rfl, hcut rest (isExponent_chars h.2)⟩
  · simp only [Bool.and_eq_true] at h
    exact isExponent_chars h.2

theorem isFloatText_foreign {c : Char} (hforeign : foreignToNumerals c = true) (hc : c ∈ s) :
    isFloatText s = false := by
  have hletters : c.toLower = c ∧ c ∉ "infinity".toList ∧ c ∉ "nan".toList := by
    simp only [foreignToNumerals, Bool.and_eq_true, Bool.not_eq_true', beq_iff_eq,
      List.contains_eq_mem, decide_eq_false_iff_not, List.mem_append, not_or] at hforeign
    exact ⟨hforeign.1.2, hforeign.2⟩
  obtain ⟨hlower, hinfinity, hnan⟩ := hletters
  have hinf : c ∉ "inf".toList := fun h => hinfinity (List.mem_append_left "inity".toList h)
  have hunsigned : ∀ u : List Char, c ∈ u →
      (u.map Char.toLower == "inf".toList || u.map Char.toLower == "infinity".toList ||
        u.map Char.toLower == "nan".toList || isNumber u) = false := by
    intro u hu
    have hmem : c ∈ u.map Char.toLower := List.mem_map.mpr ⟨_, hu, hlower⟩
    have hne : ∀ text : List Char, c ∉ text → (u.map Char.toLower == text) = false := by
      intro text htext
      rw [beq_eq_false_iff_ne]
      intro heq
      rw [heq] at hmem
      exact htext hmem
    have hnumber : isNumber u = false := by
      by_contra hnot
      have htrue := isNumber_chars (Bool.eq_true_of_not_eq_false hnot) _ hu
      rw [numeralChar_foreign hforeign] at htrue
      cases htrue
    rw [hne _ hinf, hne _ hinfinity, hne _ hnan, hnumber]
    rfl
  unfold isFloatText
  split
  · exact hunsigned _ (mem_of_mem_cons_of_ne hc (foreign_ne hforeign rfl))
  · exact hunsigned _ (mem_of_mem_cons_of_ne hc (foreign_ne hforeign rfl))
  · exact hunsigned _ hc

end Numbers

section Evaluation
variable {F : Type} (fl : Floats F) (context : StrMap (ExprValue F))

/-- No reference with a quote in it has a value. -/
def Unquoted : Prop :=
  ∀ (s : List Char) (q : Quote), q.char ∈ s → ∃ e, readReference fl context s = .error e

variable {fl context} (hcontext : Unquoted fl context)
include hcontext

theorem evalValue_error {s : List Char} (h : Broken s) (hs : Unsplit s) :
    ∃ e, evalValue fl context s = .error e := by
  have htrim : Unsplit (trimList s) := by
    obtain ⟨a, b, hsplit, -, -⟩ := trimList_split s
    intro w hw hwithin
    exact hs w hw (hwithin.trans ⟨a, b, hsplit.symm⟩)
  obtain ⟨q, x, hx, hshape⟩ := h.trim.rest htrim
  have hq : q.char ∈ trimList s := by
    obtain hend | ⟨w, -, hend⟩ := hshape
    · rw [hend]
      simp
    · rw [hend]
      simp
  have hconstant : ∀ text ∈ constants, trimList s ≠ text := by
    have hnone : ∀ text ∈ constants, q.char ∉ text := by cases q <;> decide
    intro text htext heq
    rw [heq] at hq
    exact hnone text htext hq
  obtain ⟨e, he⟩ := hcontext _ q hq
  refine ⟨e, ?_⟩
  rw [evalValue, if_neg (hconstant _ (by decide)), if_neg (hconstant _ (by decide)),
    if_neg (not_or.mpr ⟨hconstant _ (by decide), hconstant _ (by decide)⟩), h.trim.isQuoted htrim]
  rw [evalWord, parseI64_foreign (quote_foreign q) hq, isFloatText_foreign (quote_foreign q) hq]
  exact he

omit hcontext in
theorem tryKeywordOp_broken {s : List Char} (h : Broken s) (hs : Unsplit s) :
    tryKeywordOp fl context s = .ok none := by
  obtain ⟨c, hc, hlast⟩ := h.last hs
  have hne : ∀ d ∈ ['s', 'y'], d ≠ c := by
    rintro d hd rfl
    have hletter : ∀ d ∈ ['s', 'y'], d ∉ '\'' :: '"' :: symbolChars := forall_mem_of_all (by decide)
    exact hletter d hd hc
  refine tryKeywordOp_none fl context (beforeSuffix_eq_none ?_ (by decide))
    (beforeSuffix_eq_none ?_ (by decide))
  · rw [hlast]
    exact fun heq => hne 's' (by decide) (Option.some.inj heq)
  · rw [hlast]
    exact fun heq => hne 'y' (by decide) (Option.some.inj heq)

omit hcontext in
theorem error_of_part {x y : Except ExprError (ExprValue F)}
    (f : ExprValue F → ExprValue F → Except ExprError (ExprValue F))
    (h : (∃ e, x = .error e) ∨ ∃ e, y = .error e) :
    ∃ e, (do let l ← x; let r ← y; f l r) = .error e := by
  obtain ⟨e, rfl⟩ | ⟨e, rfl⟩ := h
  · exact ⟨e, rfl⟩
  · cases x with
    | error e' => exact ⟨e', rfl⟩
    | ok l => exact ⟨e, rfl⟩

omit hcontext in
theorem unsplit_of_not_found {s : List Char} (hor : ¬orText <:+: s) (hand : ¬andText <:+: s)
    (hcmp : findComparison s = none) : Unsplit s := by
  have hops : ∀ op ∈ CompareOp.ops, ¬spaced op.symbol <:+: s := by
    rw [findComparison, List.findSome?_eq_none_iff] at hcmp
    intro op hop
    have hnone := hcmp op hop
    rw [Option.map_eq_none_iff, splitOnce_eq_none] at hnone
    exact hnone
  intro w hw
  simp only [symbols, List.mem_cons, List.mem_map] at hw
  obtain rfl | rfl | ⟨op, hop, rfl⟩ := hw
  · exact hor
  · exact hand
  · exact hops op hop

omit hcontext in
/-- A property of texts that every cut leaves to one of the parts, down to a text that is no value. -/
theorem evalExpr_error {P : List Char → Prop} (htrim : ∀ s, P s → P (trimList s))
    (hsplit : ∀ w ∈ symbols, ∀ l r, P (l ++ spaced w ++ r) → P l ∨ P r)
    (hnot : ∀ s, P ('!' :: s) → P s)
    (hleaf : ∀ s, P s → Unsplit s →
      tryKeywordOp fl context s = .ok none ∧ ∃ e, evalValue fl context s = .error e)
    {s : List Char} (h : P s) : ∃ e, evalExpr fl context s = .error e := by
  induction hn : s.length using Nat.strong_induction_on generalizing s with
  | h n ih =>
    subst hn
    have hle := length_trimList_le s
    have hs := htrim s h
    have hpart : ∀ {w l r : List Char}, w ∈ symbols → trimList s = l ++ spaced w ++ r →
        (l.length < s.length ∧ P l) ∨ (r.length < s.length ∧ P r) := by
      intro w l r hw hcut
      have hlen := length_of_split hcut
      rw [hcut] at hs
      exact (hsplit w hw l r hs).imp (fun hl => ⟨by omega, hl⟩) (fun hr => ⟨by omega, hr⟩)
    have hshorter : ∀ {t : List Char}, t.length < s.length ∧ P t →
        ∃ e, evalExpr fl context t = .error e := fun ht => ih _ ht.1 ht.2 rfl
    cases hor : rsplitOnce orText (trimList s) with
    | some parts =>
      have hcut := ((rsplitOnce_eq_some (spaced_ne_nil _)).mp hor).1
      rw [evalExpr_or fl context hor]
      apply error_of_part
      exact (hpart (by decide) hcut).imp hshorter hshorter
    | none =>
      rw [rsplitOnce_eq_none] at hor
      cases hand : rsplitOnce andText (trimList s) with
      | some parts =>
        have hcut := ((rsplitOnce_eq_some (spaced_ne_nil _)).mp hand).1
        rw [evalExpr_and fl context hor hand]
        apply error_of_part
        exact (hpart (by decide) hcut).imp hshorter hshorter
      | none =>
        rw [rsplitOnce_eq_none] at hand
        rw [evalExpr_comparison fl context hor hand]
        unfold evalComparison
        cases hcmp : findComparison (trimList s) with
        | some found =>
          obtain ⟨op, l, r⟩ := found
          have hside : ∀ {t : List Char}, t.length < s.length ∧ P t →
              ∃ e, evalExpr fl context (trimList t) = .error e := by
            intro t ht
            have htle := length_trimList_le t
            exact hshorter ⟨by omega, htrim t ht.2⟩
          apply error_of_part
          exact (hpart (symbol_mem op) (findComparison_split hcmp)).imp hside hside
        | none =>
          have hunsplit := unsplit_of_not_found hor hand hcmp
          dsimp only
          split
          · rename_i stripped hstripped
            rw [hstripped] at hs hle
            have hlt : stripped.length < s.length := Nat.lt_of_succ_le hle
            obtain ⟨e, he⟩ := hshorter ⟨hlt, hnot _ hs⟩
            exact ⟨e, by rw [he]; rfl⟩
          · rw [(hleaf _ hs hunsplit).1]
            exact (hleaf _ hs hunsplit).2

theorem Broken.evalExpr {s : List Char} (h : Broken s) :
    ∃ e, evalExpr fl context s = .error e := by
  refine evalExpr_error (P := Broken) (fun _ hs => hs.trim) ?_ (fun _ hs => hs.not) ?_ h
  · intro w hw l r hs
    exact hs.split w hw
  · intro s hs hunsplit
    exact ⟨tryKeywordOp_broken hs hunsplit, evalValue_error hcontext hs hunsplit⟩

end Evaluation

/-! ## Trees with an operator in a literal -/

theorem Torn.behind {s : List Char} (h : Torn s) (p : List Char) : Torn (p ++ s) := by
  obtain ⟨q, x, content, y, rfl, hrest⟩ := h
  exact ⟨q, p ++ x, content, y, by rw [List.append_assoc], hrest⟩

theorem Torn.before {s w : List Char} (h : Torn s) (hw : w ∈ symbols) (p : List Char) :
    Torn (s ++ spaced w ++ p) := by
  obtain ⟨q, x, content, y, rfl, hcontent, hsplit, hy⟩ := h
  refine ⟨q, x, content, y ++ spaced w ++ p, by simp, hcontent, hsplit, ?_⟩
  obtain rfl | ⟨v, hv, rest, rfl, hrest⟩ := hy
  · refine .inr ⟨w, hw, ' ' :: p, by simp [spaced], ?_⟩
    intro c hc
    exact (Option.some.inj hc).symm
  · refine .inr ⟨v, hv, rest ++ spaced w ++ p, by simp, ?_⟩
    intro c hc
    cases rest with
    | nil => exact (Option.some.inj hc).symm
    | cons d rest => exact hrest c hc

theorem Unary.print_torn {u : Unary} (h : ¬Legible u.strings) : Torn u.print := by
  induction u with
  | atom a =>
    cases a with
    | str q content unquoted =>
      have hsplit : ¬Unsplit content.toList := by
        intro hunsplit
        refine h fun s hs => ?_
        rw [List.mem_singleton.mp hs]
        exact hunsplit
      exact ⟨q, [], content.toList, [], rfl, unquoted, hsplit, .inl rfl⟩
    | int i => exact absurd (fun s hs => nomatch hs) h
    | bool b => exact absurd (fun s hs => nomatch hs) h
    | ref r => exact absurd (fun s hs => nomatch hs) h
  | not u ih => exact (ih h).behind ['!']
  | refExists r => exact absurd (fun s hs => nomatch hs) h
  | refIsEmpty r => exact absurd (fun s hs => nomatch hs) h

theorem torn_join {p q w : List Char} {a b : List String} (hw : w ∈ symbols)
    (hp : ¬Legible a → Torn p) (hq : ¬Legible b → Torn q) (h : ¬Legible (a ++ b)) :
    Torn (p ++ spaced w ++ q) := by
  rw [legible_append, not_and_or] at h
  obtain h | h := h
  · exact (hp h).before hw q
  · exact (hq h).behind _

theorem Comparison.print_torn {c : Comparison} (h : ¬Legible c.strings) : Torn c.print := by
  cases c with
  | unary u => exact Unary.print_torn h
  | compare op left right =>
    exact torn_join (symbol_mem op) Unary.print_torn Unary.print_torn h

theorem Conjunction.print_torn {c : Conjunction} (h : ¬Legible c.strings) : Torn c.print := by
  induction c with
  | comparison c => exact Comparison.print_torn h
  | and left right ihl ihr => exact torn_join (by decide) ihl ihr h

theorem Disjunction.print_torn {t : Disjunction} (h : ¬Legible t.strings) : Torn t.print := by
  induction t with
  | conjunction c => exact Conjunction.print_torn h
  | or left right ihl ihr => exact torn_join (by decide) ihl ihr h

section Evaluate
variable {F : Type} (fl : Floats F)

/-- The text of a tree evaluates to the tree's value when no string literal of it has an operator
between spaces, and, in a context whose names and fields are without quotes, only then. -/
theorem evaluate_print_iff (t : Disjunction) :
    (Legible t.strings → ∀ context,
      evaluate fl context (String.ofList t.print) = t.value fl context) ∧
    ∀ context v, Unquoted fl context → t.value fl context = .ok v →
      (evaluate fl context (String.ofList t.print) = .ok v ↔ Legible t.strings) := by
  have hsound : Legible t.strings → ∀ context,
      evaluate fl context (String.ofList t.print) = t.value fl context := by
    intro h context
    rw [evaluate_print, Disjunction.evalExpr_print fl context h]
  refine ⟨hsound, ?_⟩
  intro context v hcontext hvalue
  constructor
  · intro hok
    by_contra hlegible
    obtain ⟨e, he⟩ := Broken.evalExpr hcontext (.inr (Disjunction.print_torn hlegible))
    rw [evaluate_print, he] at hok
    cases hok
  · intro h
    rw [hsound h context, hvalue]

end Evaluate

/-! ### The tests' category -/

def categoryContext (category : String) : StrMap (ExprValue Int) :=
  StrMap.ofList [("category", .string category)] (by simp)

def categoryReference : Reference where
  text := "category".toList
  nonempty := by decide
  chars := forall_mem_of_all (by decide)
  notConstant := by decide
  notInt := by decide
  notFloat := by decide

/-- `category == '…'` -/
def categoryIs (content : String) (h : Quote.single.char ∉ content.toList) : Disjunction :=
  .conjunction (.comparison (.compare .eq (.atom (.ref categoryReference))
    (.atom (.str .single content h))))

theorem categoryContext_unquoted (category : String) :
    Unquoted integerFloats (categoryContext category) := by
  intro s q hq
  obtain ⟨-, hshape⟩ := splitChar_head '.' s
  by_cases hname : String.ofList (splitChar '.' s).headI = "category"
  · have hhead : (splitChar '.' s).headI = "category".toList := by
      rw [← hname, String.toList_ofList]
    have hlookup : (categoryContext category).lookup (String.ofList (splitChar '.' s).headI) =
        some (.string category) := by
      rw [hname]
      rfl
    rw [hhead] at hshape
    obtain rfl | ⟨rest, rfl⟩ := hshape
    · refine absurd hq ?_
      cases q <;> decide
    · refine ⟨.typeError "map or object" "", ?_⟩
      rw [readReference, hlookup, splitChar_append, splitChar_of_notMem (by decide),
        splitChar_eq_cons '.' rest]
      rfl
  · have hlookup : (categoryContext category).lookup (String.ofList (splitChar '.' s).headI) = none := by
      rw [AList.lookup_eq_none]
      intro hmem
      exact hname (List.mem_singleton.mp hmem)
    refine ⟨.unknownReference (String.ofList s), ?_⟩
    rw [readReference, hlookup]

theorem billing_category_evaluates :
    Unquoted integerFloats (categoryContext "billing") ∧
      evaluate integerFloats (categoryContext "billing") "category == 'billing'" =
        .ok (.bool true) := by
  have hlegible : Legible (categoryIs "billing" (by decide)).strings := by
    intro s hs w hw hwithin
    rw [List.mem_singleton.mp hs] at hwithin
    have hspace : ' ' ∈ "billing".toList := hwithin.subset List.mem_cons_self
    revert hspace
    decide
  have htext : String.ofList (categoryIs "billing" (by decide)).print = "category == 'billing'" := by
    decide
  have hvalue : (categoryIs "billing" (by decide)).value integerFloats (categoryContext "billing") =
    .ok (.bool true) := by rfl
  have hcontext := categoryContext_unquoted "billing"
  rw [← htext]
  exact ⟨hcontext, ((evaluate_print_iff integerFloats _).2 _ _ hcontext hvalue).mpr hlegible⟩

theorem operator_in_category_unread :
    (categoryIs "x || y" (by decide)).value integerFloats (categoryContext "x || y") =
      .ok (.bool true) ∧
    ∃ e, evaluate integerFloats (categoryContext "x || y") "category == 'x || y'" = .error e := by
  have htext : String.ofList (categoryIs "x || y" (by decide)).print = "category == 'x || y'" := by
    decide
  refine ⟨rfl, ?_⟩
  rw [← htext, evaluate_print]
  refine Broken.evalExpr (categoryContext_unquoted _) (.inr (Disjunction.print_torn ?_))
  intro hlegible
  exact hlegible "x || y" (List.mem_singleton_self _) ['|', '|'] (by decide) ⟨['x'], ['y'], rfl⟩

end Konf.Condition
