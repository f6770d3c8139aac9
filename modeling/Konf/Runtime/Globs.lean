import Konf.Runtime.Guard

/-! # The language of a glob

What a pattern stands for, and what the matching loop of `glob_matches` accepts. The loop compares a
pattern character with the text before it looks for a `*`, so a `*` of the pattern that stands before
a `*` of the text takes that one character and leaves no point to come back to. -/

namespace Konf.Runtime
set_option autoImplicit false

/-! ## Two readings of a pattern -/

/-- The language of a pattern. -/
def Globs : List Char → List Char → Prop
  | [], t => t = []
  | c :: p, t =>
    if c = '*' then ∃ s, s <:+ t ∧ Globs p s
    else ∃ d s, t = d :: s ∧ (c = '?' ∨ c = d) ∧ Globs p s

/-- The same, but a `*` that stands before a `*` of the text takes exactly that character. -/
def SparingGlobs : List Char → List Char → Prop
  | [], t => t = []
  | c :: p, t =>
    if c = '*' then
      if t.head? = some '*' then SparingGlobs p t.tail else ∃ s, s <:+ t ∧ SparingGlobs p s
    else ∃ d s, t = d :: s ∧ (c = '?' ∨ c = d) ∧ SparingGlobs p s

section Readings
variable {c d : Char} {p q t s u : List Char}

theorem globs_star : Globs ('*' :: p) t ↔ ∃ s, s <:+ t ∧ Globs p s := by
  rw [Globs, if_pos rfl]

theorem globs_cons (hc : c ≠ '*') :
    Globs (c :: p) t ↔ ∃ d s, t = d :: s ∧ (c = '?' ∨ c = d) ∧ Globs p s := by
  rw [Globs, if_neg hc]

theorem sparing_star_star : SparingGlobs ('*' :: p) ('*' :: t) ↔ SparingGlobs p t := by
  rw [SparingGlobs, if_pos rfl, List.head?_cons, if_pos rfl, List.tail_cons]

theorem sparing_star (h : t.head? ≠ some '*') :
    SparingGlobs ('*' :: p) t ↔ ∃ s, s <:+ t ∧ SparingGlobs p s := by
  rw [SparingGlobs, if_pos rfl, if_neg h]

theorem sparing_cons (hc : c ≠ '*') :
    SparingGlobs (c :: p) t ↔ ∃ d s, t = d :: s ∧ (c = '?' ∨ c = d) ∧ SparingGlobs p s := by
  rw [SparingGlobs, if_neg hc]

/-- A character that meets its own kind goes on with the rest of both. -/
theorem sparing_step (hc : c = '?' ∨ c = d) : SparingGlobs (c :: p) (d :: t) ↔ SparingGlobs p t := by
  by_cases hs : c = '*'
  · obtain rfl : d = '*' := by
      obtain h | h := hc
      · rw [hs] at h
        cases h
      · rw [← h, hs]
    rw [hs, sparing_star_star]
  · rw [sparing_cons hs]
    constructor
    · rintro ⟨d', s, heq, -, h⟩
      rw [List.cons.injEq] at heq
      rw [heq.2]
      exact h
    · intro h
      exact ⟨d, t, rfl, hc, h⟩

theorem not_sparing_cons (hc : c ≠ '*') (hm : ¬(c = '?' ∨ c = d)) :
    ¬SparingGlobs (c :: p) (d :: t) := by
  rw [sparing_cons hc]
  rintro ⟨d', s, heq, hd, -⟩
  rw [List.cons.injEq] at heq
  exact hm (heq.1 ▸ hd)

theorem sparing_nil : SparingGlobs p [] ↔ (p.all fun c => c == '*') = true := by
  induction p with
  | nil => simp [SparingGlobs]
  | cons c p ih =>
    by_cases hc : c = '*'
    · rw [hc, sparing_star (by simp)]
      simp [ih]
    · rw [sparing_cons hc]
      simp [hc]

/-- A `*` reaches every later place that the rest of the pattern matches at. -/
theorem SparingGlobs.star_suffix (h : SparingGlobs ('*' :: p) t) : ∃ s, s <:+ t ∧ SparingGlobs p s := by
  by_cases hh : t.head? = some '*'
  · obtain ⟨r, rfl⟩ := List.head?_eq_some_iff.mp hh
    exact ⟨r, List.suffix_cons _ _, sparing_star_star.mp h⟩
  · exact (sparing_star hh).mp h

/-- One step of pattern and text together, for a match that starts later in the text: it is still
at or behind. -/
theorem SparingGlobs.behind (h : SparingGlobs (c :: p) u) (hu : u <:+ d :: t) (hc : c = '?' ∨ c = d) :
    ∃ s, s <:+ t ∧ SparingGlobs p s := by
  obtain rfl | hu := List.suffix_cons_iff.mp hu
  · exact ⟨t, List.suffix_rfl, (sparing_step hc).mp h⟩
  · by_cases hs : c = '*'
    · subst hs
      obtain ⟨s, hsu, hp⟩ := h.star_suffix
      exact ⟨s, hsu.trans hu, hp⟩
    · obtain ⟨d', s, rfl, -, hp⟩ := (sparing_cons hs).mp h
      exact ⟨s, (List.suffix_cons _ _).trans hu, hp⟩

theorem SparingGlobs.globs (h : SparingGlobs p t) : Globs p t := by
  induction p generalizing t with
  | nil => exact h
  | cons c p ih =>
    by_cases hc : c = '*'
    · subst hc
      obtain ⟨s, hs, hp⟩ := h.star_suffix
      exact globs_star.mpr ⟨s, hs, ih hp⟩
    · obtain ⟨d, s, ht, hd, hp⟩ := (sparing_cons hc).mp h
      exact (globs_cons hc).mpr ⟨d, s, ht, hd, ih hp⟩

end Readings

/-! ## The loop -/

/-- What the loop has still to decide: without a `*` behind it, whether the rest of the pattern
matches the rest of the text; with one, whether the pattern after it matches from some place on. -/
def GlobState.Accepts (p t : List Char) (s : GlobState) : Prop :=
  match s.star with
  | none => SparingGlobs (p.drop s.pi) (t.drop s.ti)
  | some (sp, st) => ∃ u, u <:+ t.drop st ∧ SparingGlobs (p.drop sp) u

/-- The current attempt started behind the last `*`, and every attempt that starts later is still at
or behind the place the current one has come to. -/
def GlobState.Attempt (p t : List Char) (s : GlobState) : Prop :=
  ∀ sp st, s.star = some (sp, st) → st ≤ s.ti ∧
    (SparingGlobs (p.drop sp) (t.drop st) ↔ SparingGlobs (p.drop s.pi) (t.drop s.ti)) ∧
    ∀ u, u <:+ t.drop st → SparingGlobs (p.drop sp) u →
      ∃ v, v <:+ t.drop s.ti ∧ SparingGlobs (p.drop s.pi) v

-- a backtrack moves the text position of the `*`; every other iteration moves on in the pattern
def GlobState.measure (p t : List Char) (s : GlobState) : ℕ :=
  (t.length - (s.star.map Prod.snd).getD 0) * (p.length + 1) + (p.length - s.pi)

section Loop
variable {p t : List Char} {s s' : GlobState}

/-- The branches of one iteration, with the characters that stand at the two positions. -/
theorem GlobState.step_cases (hlt : s.ti < t.length) :
    (∃ c d p' t', p.drop s.pi = c :: p' ∧ t.drop s.ti = d :: t' ∧ (c = '?' ∨ c = d) ∧
      s.step p t = some { s with pi := s.pi + 1, ti := s.ti + 1 }) ∨
    (∃ d p' t', p.drop s.pi = '*' :: p' ∧ t.drop s.ti = d :: t' ∧ d ≠ '*' ∧
      s.step p t = some ⟨s.pi + 1, s.ti, some (s.pi + 1, s.ti)⟩) ∨
    (¬SparingGlobs (p.drop s.pi) (t.drop s.ti) ∧
      s.step p t = s.star.map fun r => ⟨r.1, r.2 + 1, some (r.1, r.2 + 1)⟩) := by
  have ht : t.drop s.ti = t[s.ti] :: t.drop (s.ti + 1) := List.drop_eq_getElem_cons hlt
  have hget : t[s.ti]? = some t[s.ti] := List.getElem?_eq_getElem hlt
  by_cases hp : s.pi < p.length
  · have hpd : p.drop s.pi = p[s.pi] :: p.drop (s.pi + 1) := List.drop_eq_getElem_cons hp
    have hpget : p[s.pi]? = some p[s.pi] := List.getElem?_eq_getElem hp
    by_cases hm : p[s.pi] = '?' ∨ p[s.pi] = t[s.ti]
    · refine .inl ⟨_, _, _, _, hpd, ht, hm, ?_⟩
      simp only [step, hpget, hget, Option.some.injEq, hp, hm, and_self, if_true]
    · by_cases hs : p[s.pi] = '*'
      · refine .inr (.inl ⟨_, _, _, hs ▸ hpd, ht, fun h => hm (.inr (hs.trans h.symm)), ?_⟩)
        rw [step, if_neg, if_pos]
        · exact ⟨hp, hpget.trans (congrArg some hs)⟩
        · rw [hpget, hget, Option.some.injEq, Option.some.injEq]
          exact fun h => hm h.2
      · refine .inr (.inr ⟨?_, ?_⟩)
        · rw [hpd, ht]
          exact not_sparing_cons hs hm
        · simp only [step, hpget, hget, Option.some.injEq, hm, and_false, if_false, hs]
          cases s.star <;> rfl
  · refine .inr (.inr ⟨?_, ?_⟩)
    · rw [List.drop_eq_nil_of_le (Nat.le_of_not_lt hp), ht]
      exact List.cons_ne_nil _ _
    · simp only [step, hp, false_and, if_false]
      cases s.star <;> rfl

theorem drop_add_one {α : Type} {l r : List α} {a : α} {n : ℕ} (h : l.drop n = a :: r) :
    l.drop (n + 1) = r := by
  rw [← List.drop_drop, h]
  rfl

theorem lt_of_drop_eq_cons {α : Type} {l r : List α} {a : α} {n : ℕ} (h : l.drop n = a :: r) :
    n < l.length := by
  by_contra hle
  rw [List.drop_eq_nil_of_le (Nat.le_of_not_lt hle)] at h
  cases h

/-- An iteration leaves open what was open before it, keeps to the current attempt and comes nearer
to the end. -/
def GlobState.Follows (p t : List Char) (s s' : GlobState) : Prop :=
  s'.Attempt p t ∧ (s'.Accepts p t ↔ s.Accepts p t) ∧ s'.measure p t < s.measure p t

theorem GlobState.Attempt.advance {c d : Char} {p' t' : List Char} (ha : s.Attempt p t)
    (hp : p.drop s.pi = c :: p') (ht : t.drop s.ti = d :: t') (hm : c = '?' ∨ c = d) :
    s.Follows p t { s with pi := s.pi + 1, ti := s.ti + 1 } := by
  have hpi : s.pi < p.length := lt_of_drop_eq_cons hp
  have hon : SparingGlobs (p.drop s.pi) (t.drop s.ti) ↔
      SparingGlobs (p.drop (s.pi + 1)) (t.drop (s.ti + 1)) := by
    rw [hp, ht, drop_add_one hp, drop_add_one ht]
    exact sparing_step hm
  refine ⟨?_, ?_, ?_⟩
  · intro sp st hstar
    obtain ⟨hle, hsame, hlater⟩ := ha sp st hstar
    refine ⟨Nat.le_succ_of_le hle, hsame.trans hon, ?_⟩
    intro u hu hmatch
    obtain ⟨v, hv, hrest⟩ := hlater u hu hmatch
    rw [hp] at hrest
    rw [ht] at hv
    show ∃ v, v <:+ t.drop (s.ti + 1) ∧ SparingGlobs (p.drop (s.pi + 1)) v
    rw [drop_add_one hp, drop_add_one ht]
    exact hrest.behind hv hm
  · unfold Accepts
    cases s.star with
    | none => exact hon.symm
    | some r => exact Iff.rfl
  · apply Nat.add_lt_add_left
    show p.length - (s.pi + 1) < p.length - s.pi
    omega

theorem GlobState.Attempt.atStar {d : Char} {p' t' : List Char} (ha : s.Attempt p t)
    (hp : p.drop s.pi = '*' :: p') (ht : t.drop s.ti = d :: t') (hd : d ≠ '*') :
    s.Follows p t ⟨s.pi + 1, s.ti, some (s.pi + 1, s.ti)⟩ := by
  have hpi : s.pi < p.length := lt_of_drop_eq_cons hp
  have hopen : SparingGlobs (p.drop s.pi) (t.drop s.ti) ↔
      ∃ u, u <:+ t.drop s.ti ∧ SparingGlobs (p.drop (s.pi + 1)) u := by
    rw [hp, drop_add_one hp]
    apply sparing_star
    rw [ht]
    simpa using hd
  refine ⟨?_, ?_, ?_⟩
  · intro sp st hstar
    cases hstar
    exact ⟨Nat.le_refl _, Iff.rfl, fun u hu hmatch => ⟨u, hu, hmatch⟩⟩
  · show (∃ u, u <:+ t.drop s.ti ∧ SparingGlobs (p.drop (s.pi + 1)) u) ↔ s.Accepts p t
    rw [← hopen]
    unfold Accepts
    cases hs : s.star with
    | none => exact Iff.rfl
    | some r =>
      obtain ⟨-, hsame, hlater⟩ := ha r.1 r.2 hs
      constructor
      · intro hmatch
        exact ⟨_, List.suffix_rfl, hsame.mpr hmatch⟩
      · -- the older `*` may be forgotten: what it could still reach, the new one can
        rintro ⟨u, hu, hmatch⟩
        obtain ⟨v, hv, hrest⟩ := hlater u hu hmatch
        rw [hp] at hrest
        obtain ⟨w, hw, hrest⟩ := hrest.star_suffix
        exact hopen.mpr ⟨w, hw.trans hv, drop_add_one hp ▸ hrest⟩
  · have hle : (s.star.map Prod.snd).getD 0 ≤ s.ti := by
      cases hs : s.star with
      | none => exact Nat.zero_le _
      | some r => exact (ha r.1 r.2 hs).1
    have hmul : (t.length - s.ti) * (p.length + 1) ≤
        (t.length - (s.star.map Prod.snd).getD 0) * (p.length + 1) :=
      Nat.mul_le_mul_right _ (Nat.sub_le_sub_left hle _)
    show (t.length - s.ti) * (p.length + 1) + (p.length - (s.pi + 1)) <
      (t.length - (s.star.map Prod.snd).getD 0) * (p.length + 1) + (p.length - s.pi)
    omega

theorem GlobState.Attempt.retry {sp st : ℕ} (ha : s.Attempt p t) (hs : s.star = some (sp, st))
    (hlt : s.ti < t.length) (hno : ¬SparingGlobs (p.drop s.pi) (t.drop s.ti)) :
    s.Follows p t ⟨sp, st + 1, some (sp, st + 1)⟩ := by
  obtain ⟨hle, hsame, -⟩ := ha sp st hs
  have hst : st < t.length := Nat.lt_of_le_of_lt hle hlt
  -- the attempt that failed is the one that starts at the place left behind
  have hmiss : ¬SparingGlobs (p.drop sp) (t.drop st) := fun hmatch => hno (hsame.mp hmatch)
  refine ⟨?_, ?_, ?_⟩
  · intro sp' st' hstar
    cases hstar
    exact ⟨Nat.le_refl _, Iff.rfl, fun u hu hmatch => ⟨u, hu, hmatch⟩⟩
  · unfold Accepts
    rw [hs]
    have hcons := List.drop_eq_getElem_cons hst
    constructor
    · rintro ⟨u, hu, hmatch⟩
      refine ⟨u, hu.trans ?_, hmatch⟩
      rw [hcons]
      exact List.suffix_cons _ _
    · rintro ⟨u, hu, hmatch⟩
      rw [hcons, List.suffix_cons_iff, ← hcons] at hu
      obtain rfl | hu := hu
      · exact absurd hmatch hmiss
      · exact ⟨u, hu, hmatch⟩
  · unfold measure
    rw [hs]
    show (t.length - (st + 1)) * (p.length + 1) + (p.length - sp) <
      (t.length - st) * (p.length + 1) + (p.length - s.pi)
    obtain ⟨k, hk⟩ : ∃ k, t.length - st = k + 1 := ⟨t.length - st - 1, by omega⟩
    have hk' : t.length - (st + 1) = k := by omega
    rw [hk, hk', Nat.succ_mul]
    omega

/-- One iteration: a step that follows, or the end without a match. -/
theorem GlobState.Attempt.step (ha : s.Attempt p t) (hlt : s.ti < t.length) :
    (∃ s', s.step p t = some s' ∧ s.Follows p t s') ∨
      (s.step p t = none ∧ ¬s.Accepts p t) := by
  obtain ⟨c, d, p', t', hp, ht, hm, hstep⟩ | ⟨d, p', t', hp, ht, hd, hstep⟩ | ⟨hno, hstep⟩ :=
    step_cases (p := p) hlt
  · exact .inl ⟨_, hstep, ha.advance hp ht hm⟩
  · exact .inl ⟨_, hstep, ha.atStar hp ht hd⟩
  · cases hs : s.star with
    | none =>
      rw [hs] at hstep
      refine .inr ⟨hstep, ?_⟩
      unfold Accepts
      rw [hs]
      exact hno
    | some r =>
      rw [hs] at hstep
      exact .inl ⟨_, hstep, ha.retry hs hlt hno⟩

/-- At the end of the text only a rest of `*` is left to match. -/
theorem GlobState.Attempt.finish (ha : s.Attempt p t) (hend : t.length ≤ s.ti) :
    s.Accepts p t ↔ ((p.drop s.pi).all fun c => c == '*') = true := by
  have hnil : t.drop s.ti = [] := List.drop_eq_nil_of_le hend
  rw [← sparing_nil]
  unfold Accepts
  cases hs : s.star with
  | none =>
    show SparingGlobs _ (t.drop s.ti) ↔ _
    rw [hnil]
  | some r =>
    obtain ⟨-, hsame, hlater⟩ := ha r.1 r.2 hs
    rw [hnil] at hsame hlater
    constructor
    · rintro ⟨u, hu, hmatch⟩
      obtain ⟨v, hv, hrest⟩ := hlater u hu hmatch
      rw [List.suffix_nil.mp hv] at hrest
      exact hrest
    · intro hmatch
      exact ⟨_, List.suffix_rfl, hsame.mpr hmatch⟩

/-- Enough iterations decide what was open. -/
theorem globLoop_accepts {fuel : ℕ} (ha : s.Attempt p t) (hfuel : s.measure p t < fuel) :
    ∃ b, globLoop p t fuel s = some b ∧ (b = true ↔ s.Accepts p t) := by
  induction fuel generalizing s with
  | zero => exact absurd hfuel (Nat.not_lt_zero _)
  | succ fuel ih =>
    rw [globLoop]
    split_ifs with hlt
    · obtain ⟨s', hstep, ha', hsame, hdown⟩ | ⟨hstep, hno⟩ := ha.step hlt
      · rw [hstep]
        obtain ⟨b, hb, hiff⟩ := ih ha' (by omega)
        exact ⟨b, hb, hiff.trans hsame⟩
      · rw [hstep]
        exact ⟨false, rfl, by simpa using hno⟩
    · exact ⟨_, rfl, (ha.finish (Nat.le_of_not_lt hlt)).symm⟩

theorem globLoop_total (p t : List Char) :
    ∃ b, globLoop p t (globFuel p t) ⟨0, 0, none⟩ = some b ∧ (b = true ↔ SparingGlobs p t) := by
  refine globLoop_accepts ?_ ?_
  · intro sp st hstar
    cases hstar
  · show t.length * (p.length + 1) + p.length < (t.length + 1) * (p.length + 1) + 1
    rw [Nat.succ_mul]
    omega

end Loop

theorem globMatches_iff_sparing (pattern text : String) :
    globMatches pattern text = true ↔ SparingGlobs pattern.toList text.toList := by
  obtain ⟨b, hb, hiff⟩ := globLoop_total pattern.toList text.toList
  rw [globMatches, decide_eq_true_iff, hb, Option.some.injEq, hiff]

/-! ## Where the two readings part -/

section Stars
variable {p t : List Char}

theorem globs_sparing_of_text (ht : '*' ∉ t) (h : Globs p t) : SparingGlobs p t := by
  induction p generalizing t with
  | nil => exact h
  | cons c p ih =>
    by_cases hc : c = '*'
    · subst hc
      obtain ⟨s, hs, hp⟩ := globs_star.mp h
      rw [sparing_star (fun hh => ht (List.mem_of_head? hh))]
      exact ⟨s, hs, ih (fun hmem => ht (hs.subset hmem)) hp⟩
    · obtain ⟨d, s, rfl, hd, hp⟩ := (globs_cons hc).mp h
      rw [List.mem_cons, not_or] at ht
      exact (sparing_cons hc).mpr ⟨d, s, rfl, hd, ih ht.2 hp⟩

theorem globs_sparing_of_pattern (hp : '*' ∉ p) (h : Globs p t) : SparingGlobs p t := by
  induction p generalizing t with
  | nil => exact h
  | cons c p ih =>
    rw [List.mem_cons, not_or] at hp
    have hc : c ≠ '*' := Ne.symm hp.1
    obtain ⟨d, s, rfl, hd, hrest⟩ := (globs_cons hc).mp h
    exact (sparing_cons hc).mpr ⟨d, s, rfl, hd, ih hp.2 hrest⟩

/-- Without a `*` a pattern matches texts of its own length only. -/
theorem SparingGlobs.length_eq (hp : '*' ∉ p) (h : SparingGlobs p t) : t.length = p.length := by
  induction p generalizing t with
  | nil =>
    obtain rfl : t = [] := h
    rfl
  | cons c p ih =>
    rw [List.mem_cons, not_or] at hp
    obtain ⟨d, s, rfl, -, hrest⟩ := (sparing_cons (Ne.symm hp.1)).mp h
    simp [ih hp.2 hrest]

theorem globs_self_append (u : List Char) (h : Globs p t) : Globs (u ++ p) (u ++ t) := by
  induction u with
  | nil => exact h
  | cons c u ih =>
    by_cases hc : c = '*'
    · rw [hc]
      exact globs_star.mpr ⟨u ++ t, List.suffix_cons _ _, ih⟩
    · exact (globs_cons hc).mpr ⟨c, u ++ t, rfl, .inr rfl, ih⟩

theorem sparing_self_append (u : List Char) : SparingGlobs (u ++ p) (u ++ t) ↔ SparingGlobs p t := by
  induction u with
  | nil => exact Iff.rfl
  | cons c u ih => exact (sparing_step (.inr rfl)).trans ih

theorem globs_any_append (u : List Char) (h : Globs p t) :
    Globs (List.replicate u.length '?' ++ p) (u ++ t) := by
  induction u with
  | nil => exact h
  | cons c u ih => exact (globs_cons (by decide)).mpr ⟨c, u ++ t, rfl, .inl rfl, ih⟩

theorem sparing_any_append (u : List Char) :
    SparingGlobs (List.replicate u.length '?' ++ p) (u ++ t) ↔ SparingGlobs p t := by
  induction u with
  | nil => exact Iff.rfl
  | cons c u ih => exact (sparing_step (.inl rfl)).trans ih

/-- A pattern with a `*` has a text that only a `*` of two characters matches. -/
theorem exists_text_missed (hp : '*' ∈ p) : ∃ t, Globs p t ∧ ¬SparingGlobs p t := by
  obtain ⟨v, u, hrev, hv⟩ := List.eq_append_cons_of_mem (List.mem_reverse.mpr hp)
  have hsplit : p = u.reverse ++ '*' :: v.reverse := by
    rw [← List.reverse_reverse p, hrev]
    simp
  have hv' : '*' ∉ v.reverse := fun h => hv (List.mem_reverse.mp h)
  refine ⟨u.reverse ++ '*' :: 'x' :: v.reverse, ?_, ?_⟩
  · rw [hsplit]
    apply globs_self_append
    refine globs_star.mpr ⟨v.reverse, ⟨['*', 'x'], rfl⟩, ?_⟩
    simpa [Globs] using globs_self_append v.reverse (p := []) (t := []) rfl
  · rw [hsplit, sparing_self_append, sparing_star_star]
    intro h
    have hlen := h.length_eq hv'
    simp at hlen

/-- A text with a `*` has a pattern that matches it only where a `*` takes no character. -/
theorem exists_pattern_missing (ht : '*' ∈ t) : ∃ p, Globs p t ∧ ¬SparingGlobs p t := by
  obtain ⟨u, v, rfl⟩ := List.append_of_mem ht
  have hany : '*' ∉ List.replicate (v.length + 1) '?' := by
    intro h
    cases List.eq_of_mem_replicate h
  refine ⟨List.replicate u.length '?' ++ '*' :: List.replicate (v.length + 1) '?', ?_, ?_⟩
  · apply globs_any_append
    refine globs_star.mpr ⟨'*' :: v, List.suffix_rfl, ?_⟩
    simpa [Globs] using globs_any_append ('*' :: v) (p := []) (t := []) rfl
  · rw [sparing_any_append, sparing_star_star]
    intro h
    have hlen := h.length_eq hany
    simp at hlen

end Stars

/-! ## The matcher against the language -/

/-- The matcher answers for a pattern and a text as the language of the pattern does. -/
def RightOn (pattern text : String) : Prop :=
  globMatches pattern text = true ↔ Globs pattern.toList text.toList

theorem rightOn_iff (pattern text : String) :
    RightOn pattern text ↔
      (Globs pattern.toList text.toList → SparingGlobs pattern.toList text.toList) := by
  rw [RightOn, globMatches_iff_sparing]
  exact ⟨fun h => h.mpr, fun h => ⟨SparingGlobs.globs, h⟩⟩

/-- The loop always ends. Its answer is right for one pattern and text exactly when the text is not in
the language, or stays in it with every `*` that stands before a `*` of the text taking just that one;
it is right for one pattern and all texts exactly when the pattern holds no `*`, and for one text and
all patterns exactly when the text holds none. -/
theorem globMatches_right_iff (pattern text : String) :
    (∃ b, globLoop pattern.toList text.toList (globFuel pattern.toList text.toList) ⟨0, 0, none⟩ =
      some b) ∧
    (RightOn pattern text ↔
      (Globs pattern.toList text.toList → SparingGlobs pattern.toList text.toList)) ∧
    ((∀ text', RightOn pattern text') ↔ '*' ∉ pattern.toList) ∧
    ((∀ pattern', RightOn pattern' text) ↔ '*' ∉ text.toList) := by
  refine ⟨?_, rightOn_iff pattern text, ?_, ?_⟩
  · obtain ⟨b, hb, -⟩ := globLoop_total pattern.toList text.toList
    exact ⟨b, hb⟩
  · constructor
    · intro hall hmem
      obtain ⟨t, hin, hout⟩ := exists_text_missed hmem
      have hright := (rightOn_iff _ _).mp (hall (String.ofList t))
      rw [String.toList_ofList] at hright
      exact hout (hright hin)
    · intro hmem text'
      exact (rightOn_iff _ _).mpr (globs_sparing_of_pattern hmem)
  · constructor
    · intro hall hmem
      obtain ⟨p, hin, hout⟩ := exists_pattern_missing hmem
      have hright := (rightOn_iff _ _).mp (hall (String.ofList p))
      rw [String.toList_ofList] at hright
      exact hout (hright hin)
    · intro hmem pattern'
      exact (rightOn_iff _ _).mpr (globs_sparing_of_text hmem)

/-- A rule for `rm *` does not see `rm * -rf`. -/
theorem rm_star_unseen :
    globMatches "rm *" "rm * -rf" = false ∧ Globs "rm *".toList "rm * -rf".toList := by
  refine ⟨by decide +kernel, ?_⟩
  have hrest : Globs ['*'] ("* -rf".toList) := globs_star.mpr ⟨[], List.nil_suffix, rfl⟩
  simpa using globs_self_append "rm ".toList hrest

end Konf.Runtime
