import Mathlib.Data.List.Forall2

/-! # Fallible computations

When a chain of `Except` computations succeeds, each of its parts does. -/

namespace Konf.Fallible
set_option autoImplicit false

variable {ε α β : Type}

theorem bind_ok {x : Except ε α} {f : α → Except ε β} {b : β} (h : (x >>= f) = .ok b) :
    ∃ a, x = .ok a ∧ f a = .ok b := by
  cases x with
  | error e => cases h
  | ok a => exact ⟨a, rfl, h⟩

theorem map_eq_ok_iff {x : Except ε α} {g : α → β} {b : β} :
    (x >>= fun a => .ok (g a)) = .ok b ↔ ∃ a, x = .ok a ∧ b = g a := by
  cases x with
  | error e => exact iff_of_false nofun (by rintro ⟨a, ⟨⟩, -⟩)
  | ok a =>
    constructor
    · intro h
      exact ⟨a, rfl, (Except.ok.inj h).symm⟩
    · rintro ⟨a', ⟨⟩, rfl⟩
      rfl

/-- Two computations that fail in one way only are equal when they succeed alike. -/
theorem eq_of_ok_iff {x y : Except ε α} {e : ε} (hx : ∀ e', x = .error e' → e' = e)
    (hy : ∀ e', y = .error e' → e' = e) (h : ∀ a, x = .ok a ↔ y = .ok a) : x = y := by
  cases hx' : x with
  | ok a => exact ((h a).mp hx').symm
  | error e₁ =>
    cases hy' : y with
    | ok a => cases hx'.symm.trans ((h a).mpr hy')
    | error e₂ => rw [hx e₁ hx', hy e₂ hy']

theorem forM_ok {f : α → Except ε PUnit} {l : List α} (h : l.forM f = .ok ()) :
    ∀ a ∈ l, f a = .ok () := by
  induction l with
  | nil =>
    intro a ha
    cases ha
  | cons x l ih =>
    rw [List.forM_eq_forM, List.forM_cons] at h
    obtain ⟨⟨⟩, hx, hl⟩ := bind_ok h
    intro a ha
    obtain rfl | ha := List.mem_cons.mp ha
    · exact hx
    · exact ih hl a ha

theorem forM_eq_ok {f : α → Except ε PUnit} {l : List α} (h : ∀ a ∈ l, f a = .ok ()) :
    l.forM f = .ok () := by
  induction l with
  | nil => rfl
  | cons x l ih =>
    rw [List.forM_eq_forM, List.forM_cons, h x (List.mem_cons_self ..)]
    exact ih fun a ha => h a (List.mem_cons_of_mem _ ha)

theorem mapError_ok {ε' : Type} {x : Except ε α} {f : ε → ε'} {a : α}
    (h : x.mapError f = .ok a) : x = .ok a := by
  cases x with
  | error e => cases h
  | ok b =>
    cases h
    rfl

theorem isOk_iff {x : Except ε α} : x.isOk = true ↔ ∃ a, x = .ok a := by
  cases x with
  | error e => simp [Except.isOk, Except.toBool]
  | ok a => simp [Except.isOk, Except.toBool]

theorem ok_of_toOption {x : Except ε α} {a : α} (h : x.toOption = some a) : x = .ok a := by
  cases x with
  | error e => cases h
  | ok b =>
    cases h
    rfl

theorem mapM_ok {f : α → Except ε β} {l : List α} {out : List β} (h : l.mapM f = .ok out) :
    List.Forall₂ (fun a b => f a = .ok b) l out := by
  induction l generalizing out with
  | nil =>
    rw [List.mapM_nil] at h
    cases h
    exact .nil
  | cons x l ih =>
    rw [List.mapM_cons] at h
    obtain ⟨b, hb, h⟩ := bind_ok h
    obtain ⟨bs, hbs, h⟩ := bind_ok h
    cases h
    exact .cons hb (ih hbs)

theorem mapM_eq_ok {f : α → Except ε β} {g : α → β} {l : List α} (h : ∀ a ∈ l, f a = .ok (g a)) :
    l.mapM f = .ok (l.map g) := by
  induction l with
  | nil => rfl
  | cons x l ih =>
    rw [List.mapM_cons, h x (List.mem_cons_self ..),
      ih fun a ha => h a (List.mem_cons_of_mem _ ha)]
    rfl

/-- A loop fails as one of its items does. -/
theorem mapM_error {f : α → Except ε β} {l : List α} {e : ε} (h : l.mapM f = .error e) :
    ∃ a ∈ l, f a = .error e := by
  induction l with
  | nil =>
    rw [List.mapM_nil] at h
    cases h
  | cons x l ih =>
    rw [List.mapM_cons] at h
    cases hx : f x with
    | error e' =>
      rw [hx] at h
      cases h
      exact ⟨x, List.mem_cons_self .., hx⟩
    | ok b =>
      rw [hx] at h
      cases hl : l.mapM f with
      | error e' =>
        rw [hl] at h
        cases h
        obtain ⟨a, ha, he⟩ := ih hl
        exact ⟨a, List.mem_cons_of_mem _ ha, he⟩
      | ok bs =>
        rw [hl] at h
        cases h

/-- A loop over the items that succeeds exactly when each of them is good. -/
theorem mapM_eq_ok_iff {f : α → Except ε β} {g : α → β} {p : α → Prop}
    (hf : ∀ a b, f a = .ok b ↔ p a ∧ b = g a) {l : List α} {out : List β} :
    l.mapM f = .ok out ↔ (∀ a ∈ l, p a) ∧ out = l.map g := by
  constructor
  · intro h
    have hall := mapM_ok h
    simp only [hf, List.forall₂_and_left] at hall
    refine ⟨hall.1, ?_⟩
    have hsame := List.forall₂_map_left_iff.mpr (hall.2.imp fun a b hb => hb.symm)
    rw [List.forall₂_eq_eq_eq] at hsame
    exact hsame.symm
  · rintro ⟨hgood, rfl⟩
    exact mapM_eq_ok fun a ha => (hf a _).mpr ⟨hgood a ha, rfl⟩

theorem optionMapM_ok {f : α → Except ε β} {o : Option α} {out : Option β}
    (h : o.mapM f = .ok out) :
    (o = none ∧ out = none) ∨ ∃ a b, o = some a ∧ f a = .ok b ∧ out = some b := by
  cases o with
  | none =>
    cases h
    exact .inl ⟨rfl, rfl⟩
  | some a =>
    rw [Option.mapM_some] at h
    cases hf : f a with
    | error e =>
      rw [hf] at h
      cases h
    | ok b =>
      rw [hf] at h
      cases h
      exact .inr ⟨a, b, rfl, hf, rfl⟩

theorem foldlM_eq_ok {f : β → α → Except ε β} {g : β → α → β} {l : List α}
    (h : ∀ a ∈ l, ∀ b, f b a = .ok (g b a)) (b : β) : l.foldlM f b = .ok (l.foldl g b) := by
  induction l generalizing b with
  | nil => rfl
  | cons x l ih =>
    rw [List.foldlM_cons, h x (List.mem_cons_self ..)]
    exact ih (fun a ha => h a (List.mem_cons_of_mem _ ha)) (g b x)

theorem foldlM_congr {f g : β → α → Except ε β} {l : List α} (h : ∀ a ∈ l, ∀ b, f b a = g b a) (b : β) :
    l.foldlM f b = l.foldlM g b := by
  induction l generalizing b with
  | nil => rfl
  | cons x l ih =>
    rw [List.foldlM_cons, List.foldlM_cons, h x (List.mem_cons_self ..)]
    cases g b x with
    | error e => rfl
    | ok b' => exact ih (fun a ha => h a (List.mem_cons_of_mem _ ha)) b'

/-- Items that leave the accumulator alone may be left out. -/
theorem foldlM_filter {f : β → α → Except ε β} {p : α → Bool} {l : List α}
    (h : ∀ a ∈ l, p a = false → ∀ b, f b a = .ok b) (b : β) :
    (l.filter p).foldlM f b = l.foldlM f b := by
  induction l generalizing b with
  | nil => rfl
  | cons x l ih =>
    have hrest := ih fun a ha => h a (List.mem_cons_of_mem _ ha)
    cases hp : p x with
    | true =>
      rw [List.filter_cons_of_pos hp, List.foldlM_cons, List.foldlM_cons]
      cases f b x with
      | error e => rfl
      | ok b' => exact hrest b'
    | false =>
      rw [List.filter_cons_of_neg (by simp [hp]), List.foldlM_cons, h x (List.mem_cons_self ..) hp]
      exact hrest b

/-- A loop that succeeds has succeeded at each item, from some accumulator. -/
theorem foldlM_ok {f : β → α → Except ε β} {l : List α} {b out : β} (h : l.foldlM f b = .ok out) :
    ∀ a ∈ l, ∃ before after, f before a = .ok after := by
  induction l generalizing b with
  | nil =>
    intro a ha
    cases ha
  | cons x l ih =>
    rw [List.foldlM_cons] at h
    obtain ⟨b', hb, h⟩ := bind_ok h
    intro a ha
    obtain rfl | ha := List.mem_cons.mp ha
    · exact ⟨b, b', hb⟩
    · exact ih h a ha

end Konf.Fallible
