import Mathlib.Algebra.Ring.Int.Defs
import Mathlib.Algebra.Ring.Nat
import Mathlib.Data.List.Basic
import Mathlib.Data.List.TakeWhile

/-! # String slices

The slice operations on UTF-8 text that the modelled code uses, as functions of the character
list. Lengths and ranges are in bytes: `getRange s lo hi` is the checked slice `s.get(lo..hi)`,
which fails when an end is out of range or falls inside a character. -/

namespace Konf.Text
set_option autoImplicit false

/-- A test of the characters of a list goes through the list. -/
theorem forall_mem_of_all {l : List Char} {P : Char → Prop} [DecidablePred P]
    (h : l.all (fun c => decide (P c)) = true) : ∀ c ∈ l, P c := by
  simpa using h

/-! ## Prefixes and suffixes -/

def startsWith (s p : String) : Bool := p.toList.isPrefixOf s.toList

def endsWith (s p : String) : Bool := p.toList.isSuffixOf s.toList

/-- The text before the suffix, when `s` ends with it. -/
def stripSuffix (s suffix : String) : Option String :=
  if endsWith s suffix then
    some (String.ofList (s.toList.take (s.toList.length - suffix.toList.length)))
  else none

/-- The text after the start, when `s` begins with it. -/
def stripPrefix (s start : String) : Option String :=
  if startsWith s start then some (String.ofList (s.toList.drop start.toList.length)) else none

theorem startsWith_iff {s p : String} : startsWith s p = true ↔ p.toList <+: s.toList := by
  rw [startsWith, List.isPrefixOf_iff_prefix]

theorem stripSuffix_eq_some {s suffix p : String} :
    stripSuffix s suffix = some p ↔ s = p ++ suffix := by
  unfold stripSuffix endsWith
  constructor
  · intro h
    split at h
    · rename_i hs
      have hs' := List.suffix_iff_eq_append.mp (List.isSuffixOf_iff_suffix.mp hs)
      have hp : String.ofList _ = p := Option.some.inj h
      apply String.toList_injective
      rw [String.toList_append, ← hp, String.toList_ofList, hs']
    · cases h
  · rintro rfl
    have hs : suffix.toList.isSuffixOf (p ++ suffix).toList = true := by
      rw [List.isSuffixOf_iff_suffix, String.toList_append]
      exact List.suffix_append _ _
    rw [if_pos hs, String.toList_append, List.length_append, Nat.add_sub_cancel, List.take_left,
      String.ofList_toList]

theorem stripSuffix_eq_none {s suffix : String} :
    stripSuffix s suffix = none ↔ ∀ p, s ≠ p ++ suffix := by
  constructor
  · intro h p hp
    rw [stripSuffix_eq_some.mpr hp] at h
    cases h
  · intro h
    cases hs : stripSuffix s suffix with
    | none => rfl
    | some p => exact absurd (stripSuffix_eq_some.mp hs) (h p)

theorem stripPrefix_eq_some {s start r : String} : stripPrefix s start = some r ↔ s = start ++ r := by
  unfold stripPrefix
  constructor
  · intro h
    split at h
    · rename_i hs
      obtain ⟨rest, hrest⟩ := startsWith_iff.mp hs
      have hr : String.ofList _ = r := Option.some.inj h
      apply String.toList_injective
      rw [String.toList_append, ← hr, String.toList_ofList, ← hrest, List.drop_left]
    · cases h
  · rintro rfl
    have hs : startsWith (start ++ r) start = true := by
      rw [startsWith_iff, String.toList_append]
      exact List.prefix_append _ _
    rw [if_pos hs, String.toList_append, List.drop_left, String.ofList_toList]

/-! ## Searching, splitting, trimming -/

/-- The text before and after the first occurrence of `pat`. -/
def splitOnce (pat : List Char) : List Char → Option (List Char × List Char)
  | [] => if pat.isEmpty then some ([], []) else none
  | c :: s =>
    if pat.isPrefixOf (c :: s) then some ([], (c :: s).drop pat.length)
    else (splitOnce pat s).map fun r => (c :: r.1, r.2)

def contains (s pat : String) : Bool := (splitOnce pat.toList s.toList).isSome

theorem splitOnce_isSome_iff (pat s : List Char) : (splitOnce pat s).isSome = true ↔ pat <:+: s := by
  induction s with
  | nil =>
    rw [splitOnce, List.infix_nil]
    cases pat <;> simp
  | cons c s ih =>
    rw [splitOnce, List.infix_cons_iff, ← ih, ← List.isPrefixOf_iff_prefix]
    split_ifs with hp
    · simp [hp]
    · simp [hp]

/-- What is found is the first occurrence. -/
theorem splitOnce_eq_some {pat s a b : List Char} (hpat : pat ≠ []) :
    splitOnce pat s = some (a, b) ↔
      s = a ++ pat ++ b ∧ ∀ a' b', s = a' ++ pat ++ b' → a.length ≤ a'.length := by
  induction s generalizing a with
  | nil => simp [splitOnce, hpat]
  | cons c s ih =>
    rw [splitOnce]
    split_ifs with hprefix
    · obtain ⟨rest, hrest⟩ := List.isPrefixOf_iff_prefix.mp hprefix
      have hdrop : (c :: s).drop pat.length = rest := by rw [← hrest, List.drop_left]
      rw [hdrop, Option.some.injEq, Prod.mk.injEq]
      constructor
      · rintro ⟨rfl, rfl⟩
        exact ⟨hrest.symm, fun _ _ _ => Nat.zero_le _⟩
      · rintro ⟨hsplit, hfirst⟩
        have ha : a = [] := List.length_eq_zero_iff.mp (Nat.le_zero.mp (hfirst [] rest hrest.symm))
        rw [ha, List.nil_append, ← hrest, List.append_cancel_left_eq] at hsplit
        exact ⟨ha.symm, hsplit⟩
    · have hcons : ∀ a' b', c :: s = a' ++ pat ++ b' → ∃ a'', a' = c :: a'' ∧ s = a'' ++ pat ++ b' := by
        intro a' b' hsplit
        cases a' with
        | nil => exact absurd (List.isPrefixOf_iff_prefix.mpr ⟨b', hsplit.symm⟩) hprefix
        | cons d a'' =>
          rw [List.cons_append, List.cons_append, List.cons.injEq] at hsplit
          exact ⟨a'', by rw [hsplit.1], hsplit.2⟩
      rw [Option.map_eq_some_iff]
      constructor
      · rintro ⟨⟨a'', b''⟩, hfound, heq⟩
        rw [Prod.mk.injEq] at heq
        obtain ⟨rfl, rfl⟩ := heq
        obtain ⟨hsplit, hfirst⟩ := ih.mp hfound
        refine ⟨by rw [hsplit]; rfl, ?_⟩
        intro a' b' hother
        obtain ⟨a₂, rfl, hrest⟩ := hcons a' b' hother
        exact Nat.succ_le_succ (hfirst a₂ b' hrest)
      · rintro ⟨hsplit, hfirst⟩
        obtain ⟨a'', rfl, hrest⟩ := hcons a b hsplit
        refine ⟨(a'', b), ih.mpr ⟨hrest, ?_⟩, rfl⟩
        intro a' b' hother
        exact Nat.le_of_succ_le_succ (hfirst (c :: a') b' (by rw [hother]; rfl))

/-- A first part without the separator is the shorter one. -/
theorem length_le_of_notMem {sep : Char} {xs ys xs' ys' : List Char} (h : xs ++ sep :: ys = xs' ++ sep :: ys')
    (hxs : sep ∉ xs) : xs.length ≤ xs'.length := by
  by_contra hlt
  have hlt' : xs'.length < xs.length := Nat.lt_of_not_le hlt
  have hget := congrArg (fun l : List Char => l[xs'.length]?) h
  simp only [List.getElem?_append_left hlt', List.getElem?_append_right (Nat.le_refl _),
    Nat.sub_self, List.getElem?_cons_zero] at hget
  exact hxs (List.mem_of_getElem? hget)

/-- A pattern is found where its first character first stands. -/
theorem splitOnce_of_notMem {pat a b : List Char} {c : Char} (hc : c ∉ a) :
    splitOnce (c :: pat) (a ++ c :: pat ++ b) = some (a, b) := by
  refine (splitOnce_eq_some (List.cons_ne_nil _ _)).mpr ⟨rfl, ?_⟩
  intro a' b' hother
  rw [List.append_assoc, List.append_assoc, List.cons_append, List.cons_append] at hother
  exact length_le_of_notMem hother hc

/-- The text before and after the last occurrence of `pat`. -/
def rsplitOnce (pat s : List Char) : Option (List Char × List Char) :=
  (splitOnce pat.reverse s.reverse).map fun r => (r.2.reverse, r.1.reverse)

/-- What is found is the last occurrence. -/
theorem rsplitOnce_eq_some {pat s a b : List Char} (hpat : pat ≠ []) :
    rsplitOnce pat s = some (a, b) ↔
      s = a ++ pat ++ b ∧ ∀ a' b', s = a' ++ pat ++ b' → a'.length ≤ a.length := by
  have hrev : ∀ x y : List Char, s.reverse = x ++ pat.reverse ++ y ↔
      s = y.reverse ++ pat ++ x.reverse := by
    intro x y
    rw [← List.reverse_inj, List.reverse_reverse]
    simp
  have hlen : ∀ {x y x' y' : List Char}, s = x ++ pat ++ y → s = x' ++ pat ++ y' →
      (y.length ≤ y'.length ↔ x'.length ≤ x.length) := by
    intro x y x' y' h h'
    have hsame := congrArg List.length (h.symm.trans h')
    simp only [List.length_append] at hsame
    omega
  rw [rsplitOnce, Option.map_eq_some_iff]
  constructor
  · rintro ⟨⟨x, y⟩, hfound, heq⟩
    rw [Prod.mk.injEq] at heq
    obtain ⟨rfl, rfl⟩ := heq
    obtain ⟨hsplit, hfirst⟩ := (splitOnce_eq_some (by simpa using hpat)).mp hfound
    refine ⟨(hrev x y).mp hsplit, ?_⟩
    intro a' b' hother
    have hle := hfirst b'.reverse a'.reverse ((hrev _ _).mpr (by simpa using hother))
    refine (hlen ((hrev x y).mp hsplit) hother).mp ?_
    simpa using hle
  · rintro ⟨hsplit, hlast⟩
    refine ⟨(b.reverse, a.reverse), (splitOnce_eq_some (by simpa using hpat)).mpr ⟨?_, ?_⟩, by simp⟩
    · rw [hrev]
      simpa using hsplit
    · intro x y hother
      have hother' := (hrev x y).mp hother
      have hle := (hlen hsplit hother').mpr (hlast _ _ hother')
      simpa using hle

theorem rsplitOnce_eq_none {pat s : List Char} : rsplitOnce pat s = none ↔ ¬pat <:+: s := by
  rw [rsplitOnce, Option.map_eq_none_iff, ← Option.not_isSome_iff_eq_none, splitOnce_isSome_iff,
    List.reverse_infix]

theorem splitOnce_eq_none {pat s : List Char} : splitOnce pat s = none ↔ ¬pat <:+: s := by
  rw [← Option.not_isSome_iff_eq_none, splitOnce_isSome_iff]

theorem contains_iff {s pat : String} : contains s pat = true ↔ pat.toList <:+: s.toList :=
  splitOnce_isSome_iff ..

theorem contains_append_right (a : String) {b pat : String} (h : contains b pat = true) :
    contains (a ++ b) pat = true := by
  refine contains_iff.mpr ((contains_iff.mp h).trans ?_)
  simp only [String.toList_append]
  exact (List.suffix_append a.toList b.toList).isInfix

/-- `s.split(sep)`: one part more than there are separators. -/
def splitChar (sep : Char) : List Char → List (List Char)
  | [] => [[]]
  | c :: s =>
    if c = sep then [] :: splitChar sep s
    else match splitChar sep s with
      | [] => [[c]]
      | part :: parts => (c :: part) :: parts

theorem splitChar_ne_nil (sep : Char) (s : List Char) : splitChar sep s ≠ [] := by
  cases s with
  | nil => exact List.cons_ne_nil _ _
  | cons c s =>
    rw [splitChar]
    split_ifs
    · exact List.cons_ne_nil _ _
    · split <;> exact List.cons_ne_nil _ _

theorem splitChar_eq_cons (sep : Char) (s : List Char) :
    splitChar sep s = (splitChar sep s).headI :: (splitChar sep s).tail := by
  cases hparts : splitChar sep s with
  | nil => exact absurd hparts (splitChar_ne_nil sep s)
  | cons part parts => rfl

theorem splitChar_cons_of_ne {sep c : Char} (hc : c ≠ sep) (s : List Char) :
    splitChar sep (c :: s) = (c :: (splitChar sep s).headI) :: (splitChar sep s).tail := by
  rw [splitChar, if_neg hc, splitChar_eq_cons sep s]
  rfl

theorem splitChar_append (sep : Char) (a b : List Char) :
    splitChar sep (a ++ sep :: b) = splitChar sep a ++ splitChar sep b := by
  induction a with
  | nil => simp [splitChar]
  | cons c a ih =>
    rw [List.cons_append, splitChar, splitChar, ih]
    split_ifs with hc
    · rfl
    · cases hparts : splitChar sep a with
      | nil => exact absurd hparts (splitChar_ne_nil sep a)
      | cons part parts => rfl

theorem splitChar_of_notMem {sep : Char} {s : List Char} (h : sep ∉ s) : splitChar sep s = [s] := by
  induction s with
  | nil => rfl
  | cons c s ih =>
    rw [List.mem_cons, not_or] at h
    rw [splitChar, if_neg (Ne.symm h.1), ih h.2]

theorem splitChar_head (sep : Char) (l : List Char) :
    sep ∉ (splitChar sep l).headI ∧
      (l = (splitChar sep l).headI ∨ ∃ rest, l = (splitChar sep l).headI ++ sep :: rest) := by
  induction l with
  | nil => simp [splitChar]
  | cons c l ih =>
    rw [splitChar]
    split_ifs with hc
    · exact ⟨List.not_mem_nil, .inr ⟨l, by rw [hc]; rfl⟩⟩
    · have hne : sep ≠ c := fun h => hc h.symm
      cases hrest : splitChar sep l with
      | nil =>
        rw [hrest] at ih
        obtain ⟨-, rfl | ⟨rest, rfl⟩⟩ := ih
        · exact ⟨by simpa using hne, .inl rfl⟩
        · exact ⟨by simpa using hne, .inr ⟨rest, rfl⟩⟩
      | cons part parts =>
        rw [hrest] at ih
        refine ⟨?_, ?_⟩
        · simpa [hne] using ih.1
        · obtain heq | ⟨rest, heq⟩ := ih.2
          · exact .inl (by rw [heq]; rfl)
          · exact .inr ⟨rest, by rw [heq]; rfl⟩

/-- A part behind the first stands between two separators, or between one and the end. -/
theorem infix_of_mem_splitChar_tail {sep : Char} {w s : List Char} (h : w ∈ (splitChar sep s).tail) :
    sep :: w ++ [sep] <:+: s ++ [sep] := by
  induction s with
  | nil => simp [splitChar] at h
  | cons c s ih =>
    by_cases hc : c = sep
    · rw [hc]
      rw [splitChar, if_pos hc, List.tail_cons, splitChar_eq_cons, List.mem_cons] at h
      obtain rfl | h := h
      · obtain hs | ⟨rest, hs⟩ := (splitChar_head sep s).2
        · exact ⟨[], [], by simp [← hs]⟩
        · have htext : sep :: s ++ [sep] = sep :: ((splitChar sep s).headI ++ sep :: rest) ++ [sep] := by
            rw [← hs]
          rw [htext]
          exact ⟨[], rest ++ [sep], by simp⟩
      · exact (ih h).trans (List.suffix_cons sep _).isInfix
    · rw [splitChar_cons_of_ne hc, List.tail_cons] at h
      exact (ih h).trans (List.suffix_cons c _).isInfix

/-- The Unicode property `White_Space`. -/
def isWhitespace (c : Char) : Bool :=
  (9 ≤ c.toNat && c.toNat ≤ 13) || c.toNat == 32 || c.toNat == 0x85 || c.toNat == 0xA0 ||
    c.toNat == 0x1680 || (0x2000 ≤ c.toNat && c.toNat ≤ 0x200A) || c.toNat == 0x2028 ||
    c.toNat == 0x2029 || c.toNat == 0x202F || c.toNat == 0x205F || c.toNat == 0x3000

def trimList (s : List Char) : List Char :=
  ((s.dropWhile isWhitespace).reverse.dropWhile isWhitespace).reverse

def trim (s : String) : String := String.ofList (trimList s.toList)

/-- Trimming takes white space away at both ends, and nothing else. -/
theorem trimList_split (s : List Char) : ∃ a b, s = a ++ trimList s ++ b ∧
    (∀ c ∈ a, isWhitespace c = true) ∧ ∀ c ∈ b, isWhitespace c = true := by
  refine ⟨s.takeWhile isWhitespace, ((s.dropWhile isWhitespace).reverse.takeWhile isWhitespace).reverse,
    ?_, fun c hc => List.mem_takeWhile_imp hc,
    fun c hc => List.mem_takeWhile_imp (List.mem_reverse.mp hc)⟩
  rw [trimList, List.append_assoc, ← List.reverse_append, List.takeWhile_append_dropWhile,
    List.reverse_reverse, List.takeWhile_append_dropWhile]

theorem trimList_eq_self {s : List Char} (hfirst : ∀ c, s.head? = some c → isWhitespace c = false)
    (hlast : ∀ c, s.getLast? = some c → isWhitespace c = false) : trimList s = s := by
  have hdrop : ∀ l : List Char, (∀ c, l.head? = some c → isWhitespace c = false) →
      l.dropWhile isWhitespace = l := by
    intro l hl
    cases l with
    | nil => rfl
    | cons c l =>
      apply List.dropWhile_cons_of_neg
      simp [hl c rfl]
  rw [trimList, hdrop s hfirst, hdrop s.reverse (by simpa using hlast), List.reverse_reverse]

def digitsValue : List Char → ℕ → Option ℕ
  | [], acc => some acc
  | c :: s, acc => if c.isDigit then digitsValue s (acc * 10 + (c.toNat - 48)) else none

/-- `s.parse::<u64>()`: an optional `+`, then decimal digits, within 64 bits. -/
def parseU64 (s : String) : Option ℕ :=
  let digits := match s.toList with
    | '+' :: rest => rest
    | all => all
  if digits.isEmpty then none
  else (digitsValue digits 0).filter fun n => n < 2 ^ 64

/-! ## Byte ranges -/

def byteLen (s : List Char) : ℕ := (s.map Char.utf8Size).sum

/-- Cut off the first `n` bytes; `none` unless `n` is a character boundary of `s`. -/
def splitAtByte : List Char → ℕ → Option (List Char × List Char)
  | s, 0 => some ([], s)
  | [], _ + 1 => none
  | c :: s, n + 1 =>
    if c.utf8Size ≤ n + 1 then
      (splitAtByte s (n + 1 - c.utf8Size)).map fun r => (c :: r.1, r.2)
    else none

/-- The checked slice `s.get(lo..hi)`. -/
def getRange (s : String) (lo hi : ℕ) : Option String :=
  if lo ≤ hi then
    ((splitAtByte s.toList lo).bind fun r => splitAtByte r.2 (hi - lo)).map
      fun r => String.ofList r.1
  else none

/-- `s.as_bytes().get(n)`. -/
def byteAt (s : String) (n : ℕ) : Option UInt8 := (s.toList.flatMap String.utf8EncodeChar)[n]?

theorem splitAtByte_append (p rest : List Char) :
    splitAtByte (p ++ rest) (byteLen p) = some (p, rest) := by
  induction p with
  | nil => simp [byteLen, splitAtByte]
  | cons c p ih =>
    have hlen : byteLen (c :: p) = c.utf8Size + byteLen p := by simp [byteLen]
    have hpos := Char.utf8Size_pos c
    obtain ⟨n, hn⟩ : ∃ n, byteLen (c :: p) = n + 1 := ⟨byteLen (c :: p) - 1, by omega⟩
    have hle : c.utf8Size ≤ n + 1 := by omega
    have hrest : n + 1 - c.utf8Size = byteLen p := by omega
    rw [hn, List.cons_append, splitAtByte, if_pos hle, hrest, ih]
    rfl

/-- A one-byte slice at the front reads the first character. -/
theorem splitAtByte_one {s : List Char} {c : Char} (hc : c.utf8Size = 1) :
    (splitAtByte s 1).map (fun r => String.ofList r.1) = some (String.ofList [c]) ↔
      [c] <+: s := by
  cases s with
  | nil => simp [splitAtByte]
  | cons d s =>
    rw [splitAtByte, List.cons_prefix_cons]
    by_cases hd : d.utf8Size ≤ 0 + 1
    · have hd1 : d.utf8Size = 1 := Nat.le_antisymm hd (Char.utf8Size_pos d)
      have hrest : 0 + 1 - d.utf8Size = 0 := by omega
      rw [if_pos hd, hrest, splitAtByte]
      simp [eq_comm]
    · rw [if_neg hd]
      have hne : c ≠ d := fun h => hd (Nat.le_of_eq (h ▸ hc))
      simp [hne]

/-- `t.starts_with(p) && t.get(p.len()..p.len() + 1) == Some(c)` is a test for one prefix. -/
theorem startsWith_and_getRange {t p : String} {c : Char} (hc : c.utf8Size = 1) :
    (startsWith t p = true ∧ getRange t (byteLen p.toList) (byteLen p.toList + 1) =
      some (String.ofList [c])) ↔ p.toList ++ [c] <+: t.toList := by
  constructor
  · rintro ⟨hp, hget⟩
    obtain ⟨rest, hrest⟩ := startsWith_iff.mp hp
    rw [getRange, if_pos (Nat.le_succ _), ← hrest, splitAtByte_append, Option.bind_some,
      Nat.add_sub_cancel_left, splitAtByte_one hc] at hget
    rw [← hrest]
    exact (List.prefix_append_right_inj _).mpr hget
  · rintro ⟨rest, hrest⟩
    rw [List.append_assoc] at hrest
    refine ⟨startsWith_iff.mpr ⟨[c] ++ rest, hrest⟩, ?_⟩
    rw [getRange, if_pos (Nat.le_succ _), ← hrest, splitAtByte_append, Option.bind_some,
      Nat.add_sub_cancel_left, splitAtByte_one hc]
    exact List.prefix_append _ _

theorem length_utf8Encode (p : List Char) :
    (p.flatMap String.utf8EncodeChar).length = byteLen p := by
  rw [List.length_flatMap, byteLen]
  simp only [String.length_utf8EncodeChar]

/-- The first byte of a character is below 128 only when it is the character's code. -/
theorem utf8EncodeChar_head {d : Char} {n : ℕ} (hn : n ≤ 127) :
    (String.utf8EncodeChar d)[0]? = some (UInt8.ofNat n) ↔ d.toNat = n := by
  have hval : d.toNat = d.val.toNat := rfl
  rw [hval]
  unfold String.utf8EncodeChar
  simp only
  split_ifs with h1 h2 h3
  all_goals
    simp only [List.getElem?_cons_zero, Option.some.injEq, ← UInt8.toNat_inj, UInt8.toNat_ofNat']
    omega

/-- `t.starts_with(p) && t.as_bytes().get(p.len()) == Some(&c)` is a test for one prefix. -/
theorem startsWith_and_byteAt {t p : String} {c : Char} (hc : c.toNat ≤ 127) :
    (startsWith t p = true ∧ byteAt t (byteLen p.toList) = some (UInt8.ofNat c.toNat)) ↔
      p.toList ++ [c] <+: t.toList := by
  have hread : ∀ rest, ((p.toList ++ rest).flatMap String.utf8EncodeChar)[byteLen p.toList]? =
      (rest.flatMap String.utf8EncodeChar)[0]? := by
    intro rest
    rw [List.flatMap_append, ← length_utf8Encode,
      List.getElem?_append_right (Nat.le_refl _), Nat.sub_self]
  have hfirst : ∀ (d : Char) rest, ((d :: rest).flatMap String.utf8EncodeChar)[0]? =
      (String.utf8EncodeChar d)[0]? := by
    intro d rest
    rw [List.flatMap_cons, List.getElem?_append_left]
    exact List.length_pos_iff.mpr String.utf8EncodeChar_ne_nil
  constructor
  · rintro ⟨hp, hbyte⟩
    obtain ⟨rest, hrest⟩ := startsWith_iff.mp hp
    rw [byteAt, ← hrest, hread] at hbyte
    rw [← hrest, List.prefix_append_right_inj]
    cases rest with
    | nil => cases hbyte
    | cons d rest =>
      rw [hfirst, utf8EncodeChar_head hc] at hbyte
      rw [← Char.toNat_inj.mp hbyte]
      exact ⟨rest, rfl⟩
  · rintro ⟨rest, hrest⟩
    rw [List.append_assoc] at hrest
    refine ⟨startsWith_iff.mpr ⟨[c] ++ rest, hrest⟩, ?_⟩
    rw [byteAt, ← hrest, hread, List.singleton_append, hfirst]
    exact (utf8EncodeChar_head hc).mpr rfl

/-! ## Two parts and a separator -/

section Joined
variable {sep a b a' b' : String} {c : Char}

/-- The first part of one join ends at or before the first part of the other. -/
theorem joined_split {xs ys xs' ys' : List Char} (h : xs ++ c :: ys = xs' ++ c :: ys')
    (hle : xs.length ≤ xs'.length) :
    (xs = xs' ∧ ys = ys') ∨ ∃ mid, xs' = xs ++ c :: mid ∧ ys = mid ++ c :: ys' := by
  obtain ⟨rest, rfl⟩ : xs <+: xs' := List.prefix_of_prefix_length_le
    (h ▸ List.prefix_append xs (c :: ys)) (List.prefix_append xs' (c :: ys')) hle
  rw [List.append_assoc, List.append_cancel_left_eq] at h
  cases rest with
  | nil =>
    rw [List.nil_append, List.cons.injEq] at h
    exact .inl ⟨(List.append_nil xs).symm, h.2⟩
  | cons d mid =>
    rw [List.cons_append, List.cons.injEq] at h
    exact .inr ⟨mid, by rw [h.1], h.2⟩

/-- Two joins with a one-character separator are the same text exactly when the parts are the same or
the separator of one stands inside a part of the other. -/
theorem joined_eq_iff (hsep : sep.toList = [c]) :
    a ++ sep ++ b = a' ++ sep ++ b' ↔
      (a = a' ∧ b = b') ∨ (∃ mid, a' = a ++ sep ++ mid ∧ b = mid ++ sep ++ b') ∨
        ∃ mid, a = a' ++ sep ++ mid ∧ b' = mid ++ sep ++ b := by
  have hlist : ∀ x y z : String, x = y ++ sep ++ z ↔ x.toList = y.toList ++ c :: z.toList := by
    intro x y z
    rw [← String.toList_inj, String.toList_append, String.toList_append, hsep, List.append_assoc,
      List.singleton_append]
  constructor
  · intro h
    have h := (hlist _ a' b').mp h
    rw [(hlist _ a b).mp rfl] at h
    obtain hle | hle := Nat.le_total a.toList.length a'.toList.length
    · obtain ⟨ha, hb⟩ | ⟨mid, ha, hb⟩ := joined_split h hle
      · exact .inl ⟨String.toList_inj.mp ha, String.toList_inj.mp hb⟩
      · refine .inr (.inl ⟨String.ofList mid, (hlist ..).mpr ?_, (hlist ..).mpr ?_⟩)
        · rw [ha, String.toList_ofList]
        · rw [hb, String.toList_ofList]
    · obtain ⟨ha, hb⟩ | ⟨mid, ha, hb⟩ := joined_split h.symm hle
      · exact .inl ⟨(String.toList_inj.mp ha).symm, (String.toList_inj.mp hb).symm⟩
      · refine .inr (.inr ⟨String.ofList mid, (hlist ..).mpr ?_, (hlist ..).mpr ?_⟩)
        · rw [ha, String.toList_ofList]
        · rw [hb, String.toList_ofList]
  · rintro (⟨rfl, rfl⟩ | ⟨mid, rfl, rfl⟩ | ⟨mid, rfl, rfl⟩)
    · rfl
    · simp only [String.append_assoc]
    · simp only [String.append_assoc]

end Joined

/-! ## Words

A word of a text stands between two separators, or between one and an end. -/

section Words
variable {sep : Char} {w p q : List Char}

theorem mem_splitChar_of_between {s : List Char} (hw : sep ∉ w) (h : sep :: w ++ [sep] <:+: s) :
    w ∈ splitChar sep s := by
  obtain ⟨a, b, rfl⟩ := h
  have hshape : a ++ (sep :: w ++ [sep]) ++ b = a ++ sep :: (w ++ sep :: b) := by simp
  rw [hshape, splitChar_append, splitChar_append, splitChar_of_notMem hw]
  simp

theorem rsplitOnce_word (hw : sep ∉ w) (hq : w ∉ splitChar sep q) :
    rsplitOnce (sep :: w ++ [sep]) (p ++ (sep :: w ++ [sep]) ++ q) = some (p, q) := by
  have hpat : sep :: w ++ [sep] ≠ [] := List.cons_ne_nil _ _
  refine (rsplitOnce_eq_some hpat).mpr ⟨rfl, ?_⟩
  intro a b hother
  by_contra hlt
  simp only [List.append_assoc] at hother
  obtain ⟨d, rfl, hd⟩ | ⟨d, rfl, -⟩ := List.append_eq_append_iff.mp hother
  · cases d with
    | nil => simp at hlt
    | cons c d =>
      simp only [List.cons_append, List.nil_append, List.cons.injEq] at hd
      obtain ⟨rfl, hd⟩ := hd
      obtain ⟨-, hrest⟩ | ⟨mid, -, hrest⟩ := joined_split hd (length_le_of_notMem hd hw)
      · rw [hrest, splitChar_append, splitChar_of_notMem hw] at hq
        simp at hq
      · rw [hrest, splitChar_append, splitChar_append, splitChar_of_notMem hw] at hq
        simp at hq
  · simp at hlt

theorem splitOnce_word (hw : sep ∉ w) (hp : w ∉ splitChar sep p) :
    splitOnce (sep :: w ++ [sep]) (p ++ (sep :: w ++ [sep]) ++ q) = some (p, q) := by
  have hpat : sep :: w ++ [sep] ≠ [] := List.cons_ne_nil _ _
  refine (splitOnce_eq_some hpat).mpr ⟨rfl, ?_⟩
  intro a b hother
  by_contra hlt
  simp only [List.append_assoc] at hother
  obtain ⟨d, rfl, -⟩ | ⟨d, rfl, hd⟩ := List.append_eq_append_iff.mp hother
  · simp at hlt
  · cases d with
    | nil => simp at hlt
    | cons c d =>
      simp only [List.cons_append, List.nil_append, List.cons.injEq] at hd
      obtain ⟨rfl, hd⟩ := hd
      obtain ⟨rfl, -⟩ | ⟨mid, rfl, -⟩ := joined_split hd (length_le_of_notMem hd hw)
      · rw [splitChar_append, splitChar_of_notMem hw] at hp
        simp at hp
      · rw [splitChar_append, splitChar_append, splitChar_of_notMem hw] at hp
        simp at hp

/-- An occurrence does not run over a character that it lacks. -/
theorem infix_append_cons {pat a b : List Char} {c : Char} (hc : c ∉ pat)
    (h : pat <:+: a ++ c :: b) : pat <:+: a ∨ pat <:+: b := by
  obtain ⟨x, y, hxy⟩ := h
  rw [List.append_assoc] at hxy
  obtain ⟨d, rfl, hd⟩ | ⟨d, rfl, hd⟩ := List.append_eq_append_iff.mp hxy
  · obtain ⟨e, rfl, -⟩ | ⟨e, rfl, he⟩ := List.append_eq_append_iff.mp hd
    · exact .inl ⟨x, e, by simp⟩
    · cases e with
      | nil => exact .inl ⟨x, [], by simp⟩
      | cons e₀ e =>
        rw [List.cons_append, List.cons.injEq] at he
        exact absurd (by simp [he.1]) hc
  · cases d with
    | nil =>
      cases pat with
      | nil => exact .inl List.nil_infix
      | cons p₀ pat =>
        simp only [List.nil_append, List.cons_append, List.cons.injEq] at hd
        exact absurd (by simp [hd.1]) hc
    | cons d₀ d =>
      rw [List.cons_append, List.cons.injEq] at hd
      exact .inr ⟨d, y, by rw [hd.2, List.append_assoc]⟩

end Words

end Konf.Text
