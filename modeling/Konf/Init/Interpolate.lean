import Mathlib.Data.List.Infix
import Konf.Init.Reload

/-! # References to the environment

A text of the configuration is read in one way, as characters and references. Interpolation puts the
value of each reference in its place, and never reads what it has put there. -/

namespace Konf.Init
open Konf.Text
set_option autoImplicit false

/-! ## Pieces -/

/-- A character that stands for itself, or a reference, without a default or with one. -/
inductive Piece
  | char (c : Char)
  | ref (name : List Char)
  | refOr (name default_ : List Char)

namespace Piece

def text : Piece → List Char
  | char c => [c]
  | ref name => '$' :: '\x7b' :: name ++ ['\x7d']
  | refOr name default_ => '$' :: '\x7b' :: (name ++ [':', '-'] ++ default_) ++ ['\x7d']

def value (env : String → Option String) : Piece → List Char
  | char c => [c]
  | ref name => ((env (String.ofList name)).map String.toList).getD []
  | refOr name default_ => ((env (String.ofList name)).map String.toList).getD default_

/-- The name ends with the brace or with the first `:-`. -/
def Fits : Piece → Prop
  | char _ => True
  | ref name => '\x7d' ∉ name ∧ ¬[':', '-'] <:+: name
  | refOr name default_ => '\x7d' ∉ name ∧ '\x7d' ∉ default_ ∧ ¬[':', '-'] <:+: name

/-- The reference with this text between its braces. -/
def ofInner (inner : List Char) : Piece :=
  match splitOnce [':', '-'] inner with
  | some (name, default_) => refOr name default_
  | none => ref inner

end Piece

def textOf (ps : List Piece) : List Char := ps.flatMap Piece.text

/-- Pieces that are read as they are written: no `$` opens a reference with the text after it. -/
inductive Written : List Piece → Prop
  | nil : Written []
  | cons {p : Piece} {ps : List Piece} (hp : p.Fits)
      (hopen : p = .char '$' → (textOf ps).head? = some '\x7b' → '\x7d' ∉ textOf ps) (h : Written ps) :
      Written (p :: ps)

/-- The pieces of a text, with at most as many rounds as there are characters. -/
def piecesOf : ℕ → List Char → List Piece
  | 0, _ => []
  | _ + 1, [] => []
  | fuel + 1, c :: rest =>
    if c = '$' ∧ rest.head? = some '\x7b' then
      match splitOnce ['\x7d'] rest.tail with
      | some (inner, after) => .ofInner inner :: piecesOf fuel after
      | none => (c :: rest).map .char
    else .char c :: piecesOf fuel rest

/-! ## Reading -/

/-- What stands before the first occurrence has none. -/
theorem splitOnce_left {pat s a b : List Char} (hpat : pat ≠ []) (h : splitOnce pat s = some (a, b)) :
    s = a ++ pat ++ b ∧ ¬pat <:+: a := by
  obtain ⟨rfl, hfirst⟩ := (splitOnce_eq_some hpat).mp h
  refine ⟨rfl, ?_⟩
  rintro ⟨x, y, rfl⟩
  have hle := hfirst x (y ++ pat ++ b) (by simp)
  have hpos := List.length_pos_iff.mpr hpat
  simp only [List.length_append] at hle
  omega

/-- The first `:-` is the one after a name without one: two of them do not overlap. -/
theorem splitOnce_default {name default_ : List Char} (h : ¬[':', '-'] <:+: name) :
    splitOnce [':', '-'] (name ++ [':', '-'] ++ default_) = some (name, default_) := by
  refine (splitOnce_eq_some (by simp)).mpr ⟨rfl, ?_⟩
  intro a b hother
  rw [List.append_assoc, List.append_assoc] at hother
  obtain ⟨e, ha, -⟩ | ⟨e, hname, he⟩ := List.append_eq_append_iff.mp hother
  · rw [ha, List.length_append]
    omega
  · obtain _ | ⟨x, _ | ⟨y, e⟩⟩ := e
    · simp [hname]
    · simp at he
    · simp only [List.cons_append, List.nil_append, List.cons.injEq] at he
      obtain ⟨rfl, rfl, -⟩ := he
      exact absurd ⟨a, e, by rw [hname]; simp⟩ h

theorem envValue_eq (env : String → Option String) (inner : List Char) :
    envValue env inner = (Piece.ofInner inner).value env := by
  unfold envValue Piece.ofInner
  cases splitOnce [':', '-'] inner <;> rfl

theorem ofInner_fits {inner : List Char} (h : '\x7d' ∉ inner) : (Piece.ofInner inner).Fits := by
  unfold Piece.ofInner
  split
  · rename_i name default_ hsplit
    obtain ⟨rfl, hname⟩ := splitOnce_left (by simp) hsplit
    refine ⟨?_, ?_, hname⟩
    · intro hmem
      exact h (by simp [hmem])
    · intro hmem
      exact h (by simp [hmem])
  · rename_i hsplit
    exact ⟨h, splitOnce_eq_none.mp hsplit⟩

theorem ofInner_text (inner : List Char) :
    (Piece.ofInner inner).text = '$' :: '\x7b' :: inner ++ ['\x7d'] := by
  unfold Piece.ofInner
  split
  · rename_i name default_ hsplit
    obtain ⟨rfl, -⟩ := splitOnce_left (by simp) hsplit
    rfl
  · rfl

theorem textOf_chars (l : List Char) : textOf (l.map .char) = l := by
  rw [textOf, List.flatMap_map]
  exact List.flatMap_singleton' l

theorem written_chars {l : List Char} (h : '\x7d' ∉ l) : Written (l.map .char) := by
  induction l with
  | nil => exact .nil
  | cons c l ih =>
    rw [List.mem_cons, not_or] at h
    refine .cons trivial ?_ (ih h.2)
    intro _ _
    rw [textOf_chars]
    exact h.2

/-- A reference is closed. -/
theorem chars_of_notMem {ps : List Piece} (h : '\x7d' ∉ textOf ps) : (textOf ps).map .char = ps := by
  induction ps with
  | nil => rfl
  | cons p ps ih =>
    rw [textOf, List.flatMap_cons, List.mem_append, not_or] at h
    cases p with
    | char c => exact congrArg (Piece.char c :: ·) (ih h.2)
    | ref | refOr => simp [Piece.text] at h

/-- Where a reference opens, and what it is. -/
theorem piecesOf_opened {fuel : ℕ} {inner after : List Char} (h : '\x7d' ∉ inner) :
    piecesOf (fuel + 1) ('$' :: '\x7b' :: inner ++ ['\x7d'] ++ after) =
      .ofInner inner :: piecesOf fuel after := by
  have hsplit : splitOnce ['\x7d'] (inner ++ ['\x7d'] ++ after) = some (inner, after) :=
    splitOnce_of_notMem h
  have htail : ('\x7b' :: inner ++ ['\x7d'] ++ after).tail = inner ++ ['\x7d'] ++ after := rfl
  rw [List.cons_append, List.cons_append, piecesOf, if_pos ⟨rfl, rfl⟩, htail, hsplit]

theorem piecesOf_spec {fuel : ℕ} {s : List Char} (hfuel : s.length ≤ fuel) :
    textOf (piecesOf fuel s) = s ∧ Written (piecesOf fuel s) := by
  induction fuel generalizing s with
  | zero =>
    rw [List.length_eq_zero_iff.mp (Nat.le_zero.mp hfuel)]
    exact ⟨rfl, .nil⟩
  | succ fuel ih =>
    cases s with
    | nil => exact ⟨rfl, .nil⟩
    | cons c rest =>
      rw [List.length_cons] at hfuel
      rw [piecesOf]
      split_ifs with hopens
      · obtain ⟨rfl, hbrace⟩ := hopens
        obtain ⟨tail, rfl⟩ := List.head?_eq_some_iff.mp hbrace
        rw [List.tail_cons]
        split
        · rename_i inner after hsplit
          obtain ⟨rfl, hclosed⟩ := splitOnce_left (by simp) hsplit
          have hfree : '\x7d' ∉ inner := fun hmem => hclosed ((List.singleton_infix_iff _ _).mpr hmem)
          have hshort : after.length ≤ fuel := by
            simp only [List.length_cons, List.length_append] at hfuel
            omega
          obtain ⟨htext, hwritten⟩ := ih hshort
          refine ⟨?_, .cons (ofInner_fits hfree) ?_ hwritten⟩
          · show (Piece.ofInner inner).text ++ textOf (piecesOf fuel after) = _
            rw [htext, ofInner_text]
            simp
          · intro hchar
            have htext' := congrArg Piece.text hchar
            rw [ofInner_text] at htext'
            cases htext'
        · rename_i hsplit
          refine ⟨textOf_chars _, written_chars ?_⟩
          have hopen : '\x7d' ∉ tail := by
            intro hmem
            exact splitOnce_eq_none.mp hsplit ((List.singleton_infix_iff _ _).mpr hmem)
          simp [hopen]
      · obtain ⟨htext, hwritten⟩ := ih (Nat.le_of_succ_le_succ hfuel)
        refine ⟨congrArg (c :: ·) htext, .cons trivial ?_ hwritten⟩
        intro hchar hbrace
        cases hchar
        rw [htext] at hbrace
        exact absurd ⟨rfl, hbrace⟩ hopens

theorem Piece.text_pos (p : Piece) : 0 < p.text.length := by
  cases p <;> exact Nat.succ_pos _

theorem piecesOf_textOf {fuel : ℕ} {ps : List Piece} (h : Written ps) (hfuel : (textOf ps).length ≤ fuel) :
    piecesOf fuel (textOf ps) = ps := by
  induction h generalizing fuel with
  | nil => cases fuel <;> rfl
  | @cons p ps hp hopen _ ih =>
    have hcons : textOf (p :: ps) = p.text ++ textOf ps := rfl
    have hpos := p.text_pos
    rw [hcons, List.length_append] at hfuel
    rw [hcons]
    obtain ⟨fuel, rfl⟩ := Nat.exists_eq_succ_of_ne_zero (by omega : fuel ≠ 0)
    have hshort : (textOf ps).length ≤ fuel := by omega
    cases p with
    | char c =>
      show piecesOf (fuel + 1) (c :: textOf ps) = _
      rw [piecesOf]
      split_ifs with hopens
      · obtain ⟨rfl, hbrace⟩ := hopens
        have hfree := hopen rfl hbrace
        have hnone : splitOnce ['\x7d'] (textOf ps).tail = none := by
          rw [splitOnce_eq_none]
          intro hsub
          exact hfree (List.mem_of_mem_tail (hsub.subset List.mem_cons_self))
        rw [hnone]
        exact congrArg (Piece.char '$' :: ·) (chars_of_notMem hfree)
      · rw [ih hshort]
    | ref name =>
      show piecesOf (fuel + 1) ('$' :: '\x7b' :: name ++ ['\x7d'] ++ textOf ps) = _
      rw [piecesOf_opened hp.1, ih hshort, Piece.ofInner, splitOnce_eq_none.mpr hp.2]
    | refOr name default_ =>
      have hfree : '\x7d' ∉ name ++ [':', '-'] ++ default_ := by
        simp [hp.1, hp.2.1]
      show piecesOf (fuel + 1) ('$' :: '\x7b' :: (name ++ [':', '-'] ++ default_) ++ ['\x7d'] ++ textOf ps) = _
      rw [piecesOf_opened hfree, ih hshort, Piece.ofInner, splitOnce_default hp.2.2]

/-! ## Interpolation -/

theorem value_chars (env : String → Option String) (l : List Char) :
    (l.map Piece.char).flatMap (Piece.value env) = l := by
  rw [List.flatMap_map]
  exact List.flatMap_singleton' l

theorem interpolateFrom_eq (env : String → Option String) (fuel : ℕ) (s : List Char) :
    interpolateFrom env fuel s = (piecesOf fuel s).flatMap (Piece.value env) := by
  induction fuel generalizing s with
  | zero => rfl
  | succ fuel ih =>
    cases s with
    | nil => rfl
    | cons c rest =>
      rw [interpolateFrom, piecesOf]
      split_ifs
      · cases splitOnce ['\x7d'] rest.tail with
        | none => exact (value_chars env (c :: rest)).symm
        | some found =>
          show envValue env found.1 ++ interpolateFrom env fuel found.2 = _
          rw [ih, envValue_eq]
          rfl
      · rw [ih]
        rfl

/-- A text is written with one list of pieces, and in every environment interpolation gives their values
one after another. -/
theorem interpolation_by_pieces (input : String) :
    ∃ ps, (Written ps ∧ textOf ps = input.toList) ∧
      (∀ qs, Written qs → textOf qs = input.toList → qs = ps) ∧
      ∀ env, (interpolateEnvVars env input).toList = ps.flatMap (Piece.value env) := by
  obtain ⟨htext, hwritten⟩ := piecesOf_spec (Nat.le_refl input.toList.length)
  refine ⟨piecesOf input.toList.length input.toList, ⟨hwritten, htext⟩, ?_, ?_⟩
  · intro qs hqs hsame
    rw [← hsame]
    exact (piecesOf_textOf hqs (Nat.le_refl _)).symm
  · intro env
    rw [interpolateEnvVars, String.toList_ofList]
    exact interpolateFrom_eq env _ _

end Konf.Init
