import Mathlib.Data.Prod.Lex
import Mathlib.Logic.Function.Basic
import Konf.Foundations.Table

/-! # Ranked tables

A table whose rows are keyed by a rank and an id, with an index from the ids to their ranks. The two
together stand for a partial map from ids to a rank and a value, as long as an id has one row and the
index has its rank. A row is moved to another rank by a removal and an insertion. -/

namespace Konf
set_option autoImplicit false

variable {P I V : Type} [LinearOrder P] [LinearOrder I]

/-- The two tables stand for the map. -/
structure Ranks (t : Table (P ×ₗ I) V) (index : Table I P) (m : I → Option (P × V)) : Prop where
  rows : ∀ p i v, (toLex (p, i), v) ∈ t.rows ↔ m i = some (p, v)
  index : ∀ i p, (i, p) ∈ index.rows ↔ ∃ v, m i = some (p, v)

theorem Table.remove_insert {K : Type} [LinearOrder K] (t : Table K V) (k : K) (v : V) :
    (t.remove k).insert k v = t.insert k v := by
  have hlow : (t.remove k).rows.filter (fun r => r.1 < k) = t.rows.filter fun r => r.1 < k := by
    rw [Table.remove, List.filter_filter]
    refine List.filter_congr ?_
    intro r _
    by_cases hlt : r.1 < k
    · simp [hlt, hlt.ne]
    · simp [hlt]
  have hhigh : (t.remove k).rows.filter (fun r => k < r.1) = t.rows.filter fun r => k < r.1 := by
    rw [Table.remove, List.filter_filter]
    refine List.filter_congr ?_
    intro r _
    by_cases hlt : k < r.1
    · simp [hlt, hlt.ne']
    · simp [hlt]
  refine Table.ext ?_
  change (t.remove k).rows.filter _ ++ (k, v) :: (t.remove k).rows.filter _ = _
  rw [hlow, hhigh]
  rfl

namespace Ranks

variable {t : Table (P ×ₗ I) V} {index : Table I P} {m : I → Option (P × V)} {i : I} {p q : P} {v : V}

theorem empty : Ranks (Table.empty : Table (P ×ₗ I) V) (Table.empty : Table I P) fun _ => none :=
  ⟨by simp [Table.empty], by simp [Table.empty]⟩

theorem get_index (h : Ranks t index m) (i : I) : index.get i = (m i).map Prod.fst := by
  cases hm : m i with
  | none =>
    rw [Option.map_none, Table.get_eq_none_iff]
    rintro ⟨i', p⟩ hr rfl
    obtain ⟨v, hv⟩ := (h.index _ p).mp hr
    cases hm.symm.trans hv
  | some r =>
    rw [Option.map_some, Table.get_eq_some_iff, h.index]
    exact ⟨r.2, hm⟩

theorem insert (h : Ranks t index m) (hnew : m i = none) (p : P) (v : V) :
    Ranks (t.insert (toLex (p, i)) v) (index.insert i p) (Function.update m i (some (p, v))) := by
  constructor
  · intro p' i' v'
    rw [Table.mem_insert, h.rows]
    by_cases hi : i' = i
    · subst hi
      simp only [Function.update_self, hnew, reduceCtorEq, and_false, or_false, Prod.mk.injEq,
        EmbeddingLike.apply_eq_iff_eq, and_true, Option.some.injEq, eq_comm]
    · simp [hi]
  · intro i' p'
    rw [Table.mem_insert, h.index]
    by_cases hi : i' = i
    · subst hi
      simp [eq_comm]
    · simp [hi]

/-- An id goes with its row. What is removed may be gone already. -/
theorem remove (h : Ranks t index m) (hrank : ∀ r, m i = some r → r.1 = p) :
    Ranks (t.remove (toLex (p, i))) (index.remove i) (Function.update m i none) := by
  constructor
  · intro p' i' v'
    rw [Table.mem_remove, h.rows]
    by_cases hi : i' = i
    · subst hi
      simp only [Function.update_self, reduceCtorEq, iff_false, not_and]
      intro hne hm
      have hp : p' = p := hrank _ hm
      exact hne (by rw [hp])
    · simp [hi]
  · intro i' p'
    rw [Table.mem_remove, h.index]
    by_cases hi : i' = i
    · subst hi
      simp
    · simp [hi]

/-- An id moves to another rank, or comes back when it was gone. -/
theorem move (h : Ranks t index m) (hrank : ∀ r, m i = some r → r.1 = p) (q : P) (v : V) :
    Ranks ((t.remove (toLex (p, i))).insert (toLex (q, i)) v) (index.insert i q)
      (Function.update m i (some (q, v))) := by
  have hmoved := (h.remove hrank).insert (Function.update_self i none m) q v
  rw [Table.remove_insert, Function.update_idem] at hmoved
  exact hmoved

end Ranks
end Konf
