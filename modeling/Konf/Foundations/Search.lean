import Mathlib.Data.Finset.Card
import Mathlib.Logic.Relation

/-! # Searching a graph for cycles

Depth-first search with three colours: a node is white before it is visited, gray while the search is
below it, and black when the search is done with it. An edge to a gray node closes a cycle. The search
is bounded by a number of rounds; running out of them counts as a cycle.

Where no node has an endless descent, the search finds nothing (`searchAll_quiet`): the gray nodes are
those above the current one, so an edge to one of them would descend for ever, and every round below a
node has one white node less, so the number of nodes is a bound. -/

namespace Konf.Search
set_option autoImplicit false

variable {α : Type}

inductive Color
  | gray
  | black
deriving DecidableEq

/-- A node without a color is white. -/
structure State (α : Type) where
  color : α → Option Color
  path : List α

def State.start : State α := ⟨fun _ => none, []⟩

def State.paint [DecidableEq α] (s : State α) (node : α) (c : Color) : State α :=
  { s with color := Function.update s.color node (some c) }

/-- The loop over the neighbors of a node. The result says whether there is a cycle. -/
def scan (visit : α → State α → Bool × State α) : List α → State α → Bool × State α
  | [], s => (false, s)
  | n :: rest, s =>
    match s.color n with
    | some .gray => (true, { s with path := s.path ++ [n] })
    | some .black => scan visit rest s
    | none =>
      let r := visit n s
      if r.1 then r else scan visit rest r.2

def visit [DecidableEq α] (adjacency : α → List α) : ℕ → α → State α → Bool × State α
  | 0, _, s => (true, s)
  | fuel + 1, node, s =>
    let s := { s.paint node .gray with path := s.path ++ [node] }
    let r := scan (visit adjacency fuel) (adjacency node) s
    if r.1 then r else (false, { r.2.paint node .black with path := r.2.path.dropLast })

/-- Visit the nodes of a list that are still white. -/
def searchAll [DecidableEq α] (adjacency : α → List α) (fuel : ℕ) :
    List α → State α → Bool × State α
  | [], s => (false, s)
  | n :: rest, s =>
    if (s.color n).isSome then searchAll adjacency fuel rest s
    else
      let r := visit adjacency fuel n s
      if r.1 then r else searchAll adjacency fuel rest r.2

theorem State.paint_self [DecidableEq α] (s : State α) (node : α) (c : Color) :
    (s.paint node c).color node = some c := Function.update_self ..

theorem State.paint_of_ne [DecidableEq α] (s : State α) {node x : α} (h : x ≠ node) (c : Color) :
    (s.paint node c).color x = s.color x := Function.update_of_ne h ..

/-! ## Descent -/

/-- One step down: `y` is a neighbor of `x`. -/
def Below (adjacency : α → List α) (y x : α) : Prop := y ∈ adjacency x

theorem not_self_of_acc {r : α → α → Prop} {x : α} (h : Acc r x) : ¬ Relation.TransGen r x x := by
  have hirrefl : ∀ y, Acc (Relation.TransGen r) y → ¬ Relation.TransGen r y y := by
    intro y hy
    induction hy with
    | intro y _ ih =>
      intro hself
      exact ih y hself hself
  exact hirrefl x h.transGen

/-- What a search that finds nothing does to the colors: it takes none away, and the gray nodes are
the same after it. -/
structure Settled (s s' : State α) : Prop where
  gray : ∀ x, s'.color x = some .gray ↔ s.color x = some .gray
  kept : ∀ x, s'.color x = none → s.color x = none

theorem Settled.refl (s : State α) : Settled s s := ⟨fun _ => Iff.rfl, fun _ h => h⟩

theorem Settled.trans {s t u : State α} (h : Settled s t) (h' : Settled t u) : Settled s u :=
  ⟨fun x => (h'.gray x).trans (h.gray x), fun x hx => h.kept x (h'.kept x hx)⟩

/-- A loop finds nothing when no neighbor is gray at its start and the visits find nothing. -/
theorem scan_quiet {visit : α → State α → Bool × State α} {s : State α} {ns : List α}
    (hgray : ∀ n ∈ ns, s.color n ≠ some .gray)
    (hvisit : ∀ n ∈ ns, ∀ t, Settled s t → t.color n = none →
      (visit n t).1 = false ∧ Settled t (visit n t).2) (t : State α) (ht : Settled s t) :
    (scan visit ns t).1 = false ∧ Settled s (scan visit ns t).2 := by
  induction ns generalizing t with
  | nil => exact ⟨rfl, ht⟩
  | cons n rest ih =>
    have hhead := List.mem_cons_self (a := n) (l := rest)
    have ih := ih (fun m hm => hgray m (List.mem_cons_of_mem _ hm))
      (fun m hm => hvisit m (List.mem_cons_of_mem _ hm))
    rw [scan]
    cases hcolor : t.color n with
    | none =>
      obtain ⟨hquiet, hsettled⟩ := hvisit n hhead t ht hcolor
      simp only [hquiet, Bool.false_eq_true, if_false]
      exact ih _ (ht.trans hsettled)
    | some c =>
      cases c with
      | gray => exact absurd ((ht.gray n).mp hcolor) (hgray n hhead)
      | black => exact ih t ht

section Quiet
variable {adjacency : α → List α} {nodes : Finset α}

def white (nodes : Finset α) (s : State α) : Finset α := nodes.filter fun x => s.color x = none

theorem white_card_le {s s' : State α} (h : Settled s s') :
    (white nodes s').card ≤ (white nodes s).card := by
  refine Finset.card_le_card ?_
  intro x hx
  rw [white, Finset.mem_filter] at hx ⊢
  exact ⟨hx.1, h.kept x hx.2⟩

variable [DecidableEq α]

theorem white_card_paint {s : State α} {node : α} (hmem : node ∈ nodes)
    (hwhite : s.color node = none) (c : Color) :
    (white nodes (s.paint node c)).card < (white nodes s).card := by
  refine Finset.card_lt_card ⟨?_, ?_⟩
  · intro x hx
    rw [white, Finset.mem_filter] at hx ⊢
    refine ⟨hx.1, ?_⟩
    by_cases hxn : x = node
    · rw [hxn]
      exact hwhite
    · rw [← s.paint_of_ne hxn c]
      exact hx.2
  · intro hsub
    have hin : node ∈ white nodes s := Finset.mem_filter.mpr ⟨hmem, hwhite⟩
    have hcolor := (Finset.mem_filter.mp (hsub hin)).2
    rw [State.paint_self] at hcolor
    cases hcolor

theorem Settled.around {s t : State α} {node : α} (hwhite : s.color node = none)
    (h : Settled (s.paint node .gray) t) : Settled s (t.paint node .black) := by
  refine ⟨?_, ?_⟩
  · intro x
    by_cases hx : x = node
    · subst hx
      simp [State.paint_self, hwhite]
    · rw [State.paint_of_ne t hx, h.gray x, State.paint_of_ne s hx]
  · intro x hxwhite
    by_cases hx : x = node
    · rw [hx]
      exact hwhite
    · rw [State.paint_of_ne t hx] at hxwhite
      rw [← State.paint_of_ne s hx .gray]
      exact h.kept x hxwhite

/-- Below a node without an endless descent, with all gray nodes above it, a visit finds nothing. -/
theorem visit_quiet (hclosed : ∀ x ∈ nodes, ∀ y ∈ adjacency x, y ∈ nodes) (fuel : ℕ) (node : α)
    (s : State α) (hmem : node ∈ nodes) (hwhite : s.color node = none)
    (hacc : Acc (Below adjacency) node)
    (habove : ∀ g, s.color g = some .gray → Relation.TransGen (Below adjacency) node g)
    (hfuel : (white nodes s).card ≤ fuel) :
    (visit adjacency fuel node s).1 = false ∧ Settled s (visit adjacency fuel node s).2 := by
  induction fuel generalizing node s with
  | zero =>
    have hin : node ∈ white nodes s := Finset.mem_filter.mpr ⟨hmem, hwhite⟩
    have hpos := Finset.card_pos.mpr ⟨node, hin⟩
    omega
  | succ fuel ih =>
    have hcard := white_card_paint hmem hwhite .gray
    -- a gray node is the node itself or one above it, so its neighbors are below every gray node
    have hbelow : ∀ n ∈ adjacency node, ∀ g, (s.paint node .gray).color g = some .gray →
        Relation.TransGen (Below adjacency) n g := by
      intro n hn g hg
      have hstep : Relation.TransGen (Below adjacency) n node := .single hn
      by_cases hgn : g = node
      · rw [hgn]
        exact hstep
      · rw [State.paint_of_ne s hgn] at hg
        exact hstep.trans (habove g hg)
    let painted : State α := { s.paint node .gray with path := s.path ++ [node] }
    have hscan := @scan_quiet _ (visit adjacency fuel) painted (adjacency node)
      (fun n hn hgray => not_self_of_acc (hacc.inv hn) (hbelow n hn n hgray)) (by
        intro n hn t ht hcolor
        have hle : (white nodes t).card ≤ (white nodes (s.paint node .gray)).card :=
          white_card_le ⟨ht.gray, ht.kept⟩
        exact ih n t (hclosed node hmem n hn) hcolor (hacc.inv hn)
          (fun g hg => hbelow n hn g ((ht.gray g).mp hg)) (by omega)) painted (.refl _)
    rw [visit]
    simp only [painted] at hscan
    simp only [hscan.1, Bool.false_eq_true, if_false]
    have hsettled := Settled.around hwhite ⟨hscan.2.gray, hscan.2.kept⟩
    exact ⟨trivial, hsettled.gray, hsettled.kept⟩

theorem searchAll_quiet (hclosed : ∀ x ∈ nodes, ∀ y ∈ adjacency x, y ∈ nodes)
    (hacc : ∀ x ∈ nodes, Acc (Below adjacency) x) {fuel : ℕ} (hfuel : nodes.card ≤ fuel)
    (roots : List α) (s : State α) (hroots : ∀ n ∈ roots, n ∈ nodes)
    (hgray : ∀ g, s.color g ≠ some .gray) : (searchAll adjacency fuel roots s).1 = false := by
  induction roots generalizing s with
  | nil => rfl
  | cons n rest ih =>
    have hrest : ∀ m ∈ rest, m ∈ nodes := fun m hm => hroots m (List.mem_cons_of_mem _ hm)
    rw [searchAll]
    cases hcolor : s.color n with
    | some c =>
      simp only [Option.isSome_some, if_true]
      exact ih s hrest hgray
    | none =>
      have hn := hroots n (List.mem_cons_self ..)
      obtain ⟨hquiet, hsettled⟩ := visit_quiet hclosed fuel n s hn hcolor (hacc n hn)
        (fun g hg => absurd hg (hgray g)) ((Finset.card_filter_le ..).trans hfuel)
      simp only [Option.isSome_none, Bool.false_eq_true, if_false, hquiet]
      exact ih _ hrest fun g hg => hgray g ((hsettled.gray g).mp hg)

end Quiet

/-! ## A search that finds nothing

The search is done with a node only after all its neighbors, so a black node has no endless
descent. -/

section Sound
variable {adjacency : α → List α}

def State.Sound (adjacency : α → List α) (s : State α) : Prop :=
  ∀ x, s.color x = some .black → Acc (Below adjacency) x

/-- A search that found nothing: the nodes it was asked for are black, and no node lost its color. -/
structure Blackened (adjacency : α → List α) (asked : List α) (s s' : State α) : Prop where
  settled : Settled s s'
  sound : s'.Sound adjacency
  black : ∀ x, s.color x = some .black → s'.color x = some .black
  done : ∀ x ∈ asked, s'.color x = some .black

theorem Blackened.append {xs ys : List α} {s t u : State α} (h : Blackened adjacency xs s t)
    (h' : Blackened adjacency ys t u) : Blackened adjacency (xs ++ ys) s u := by
  refine ⟨h.settled.trans h'.settled, h'.sound, fun x hx => h'.black x (h.black x hx), ?_⟩
  intro x hx
  obtain hx | hx := List.mem_append.mp hx
  · exact h'.black x (h.done x hx)
  · exact h'.done x hx

theorem scan_sound {visit : α → State α → Bool × State α}
    (hvisit : ∀ n s, s.color n = none → s.Sound adjacency → (visit n s).1 = false →
      Blackened adjacency [n] s (visit n s).2) (ns : List α) (s : State α) (hs : s.Sound adjacency)
    (h : (scan visit ns s).1 = false) : Blackened adjacency ns s (scan visit ns s).2 := by
  induction ns generalizing s with
  | nil => exact ⟨.refl s, hs, fun _ hx => hx, fun x hx => (List.not_mem_nil hx).elim⟩
  | cons n rest ih =>
    rw [scan] at h ⊢
    cases hcolor : s.color n with
    | none =>
      simp only [hcolor] at h ⊢
      split_ifs at h ⊢ with hfound
      · rw [hfound] at h
        cases h
      · have hfirst := hvisit n s hcolor hs (by simpa using hfound)
        exact hfirst.append (ih _ hfirst.sound h)
    | some c =>
      cases c with
      | gray =>
        simp only [hcolor] at h
        cases h
      | black =>
        simp only [hcolor] at h ⊢
        have hrest := ih s hs h
        refine ⟨hrest.settled, hrest.sound, hrest.black, ?_⟩
        intro x hx
        obtain rfl | hx := List.mem_cons.mp hx
        · exact hrest.black x hcolor
        · exact hrest.done x hx

variable [DecidableEq α]

theorem visit_sound (fuel : ℕ) (node : α) (s : State α) (hwhite : s.color node = none)
    (hs : s.Sound adjacency) (h : (visit adjacency fuel node s).1 = false) :
    Blackened adjacency [node] s (visit adjacency fuel node s).2 := by
  induction fuel generalizing node s with
  | zero => cases h
  | succ fuel ih =>
    let painted : State α := { s.paint node .gray with path := s.path ++ [node] }
    have hpainted : painted.Sound adjacency := by
      intro x hx
      by_cases hxn : x = node
      · rw [hxn] at hx
        exact absurd (hx.symm.trans (s.paint_self node .gray)) (by decide)
      · exact hs x ((s.paint_of_ne hxn .gray).symm.trans hx)
    rw [visit] at h ⊢
    split_ifs at h ⊢ with hfound
    · simp only [hfound] at h
      cases h
    · have hscan : Blackened adjacency (adjacency node) painted
          (scan (visit adjacency fuel) (adjacency node) painted).2 :=
        scan_sound ih (adjacency node) painted hpainted (by simpa using hfound)
      have hnode : Acc (Below adjacency) node := .intro node fun y hy => hscan.sound y (hscan.done y hy)
      have haround := Settled.around hwhite ⟨hscan.settled.gray, hscan.settled.kept⟩
      refine ⟨⟨haround.gray, haround.kept⟩, ?_, ?_, ?_⟩
      · intro x hx
        by_cases hxn : x = node
        · rw [hxn]
          exact hnode
        · exact hscan.sound x ((State.paint_of_ne _ hxn .black).symm.trans hx)
      · intro x hx
        have hxn : x ≠ node := by
          rintro rfl
          rw [hwhite] at hx
          cases hx
        have hkept := hscan.black x ((s.paint_of_ne hxn .gray).trans hx)
        exact (State.paint_of_ne _ hxn .black).trans hkept
      · intro x hx
        rw [List.mem_singleton.mp hx]
        exact State.paint_self ..

/-- Where the search over a list of roots finds nothing, none of them has an endless descent. -/
theorem searchAll_sound (fuel : ℕ) (roots : List α) (s : State α) (hs : s.Sound adjacency)
    (hgray : ∀ g, s.color g ≠ some .gray) (h : (searchAll adjacency fuel roots s).1 = false) :
    ∀ n ∈ roots, Acc (Below adjacency) n := by
  suffices hall : Blackened adjacency roots s (searchAll adjacency fuel roots s).2 from
    fun n hn => hall.sound n (hall.done n hn)
  induction roots generalizing s with
  | nil => exact ⟨.refl s, hs, fun _ hx => hx, fun x hx => (List.not_mem_nil hx).elim⟩
  | cons n rest ih =>
    rw [searchAll] at h ⊢
    split_ifs at h ⊢ with hcolored
    · obtain ⟨c, hc⟩ := Option.isSome_iff_exists.mp hcolored
      have hblack : s.color n = some .black := by
        cases c with
        | gray => exact absurd hc (hgray n)
        | black => exact hc
      have hrest := ih s hs hgray h
      refine ⟨hrest.settled, hrest.sound, hrest.black, ?_⟩
      intro x hx
      obtain rfl | hx := List.mem_cons.mp hx
      · exact hrest.black x hblack
      · exact hrest.done x hx
    · have hwhite : s.color n = none := by simpa using hcolored
      simp only at h ⊢
      split_ifs at h ⊢ with hfound
      · rw [hfound] at h
        cases h
      · have hfirst := visit_sound fuel n s hwhite hs (by simpa using hfound)
        exact hfirst.append
          (ih _ hfirst.sound (fun g hg => hgray g ((hfirst.settled.gray g).mp hg)) h)

end Sound
end Konf.Search
