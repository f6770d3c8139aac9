import Mathlib.Algebra.Ring.Nat
import Mathlib.Data.List.Nodup
import Mathlib.Data.List.InsertIdx

/-! # Lists updated at an index

A list with one element replaced or removed by its index: the sum of a measure of its elements, and
the members when the elements carry distinct keys. -/

namespace Konf.Indexed
set_option autoImplicit false

variable {α β : Type} {l : List α} {k : ℕ} {a : α}

theorem exists_split (hk : l[k]? = some a) :
    ∃ l₁ l₂, l = l₁ ++ a :: l₂ ∧ l₁ = l.take k ∧ l.eraseIdx k = l₁ ++ l₂ ∧
      ∀ b, l.set k b = l₁ ++ b :: l₂ := by
  obtain ⟨hlt, ha⟩ := List.getElem?_eq_some_iff.mp hk
  refine ⟨l.take k, l.drop (k + 1), ?_, rfl, List.eraseIdx_eq_take_drop_succ _ _, ?_⟩
  · rw [← ha, List.getElem_cons_drop, List.take_append_drop]
  · intro b
    exact List.set_eq_take_append_cons_drop.trans (if_pos hlt)

theorem sum_map_set (hk : l[k]? = some a) (m : α → ℕ) (b : α) :
    ((l.set k b).map m).sum + m a = (l.map m).sum + m b := by
  obtain ⟨l₁, l₂, rfl, -, -, hset⟩ := exists_split hk
  rw [hset]
  simp only [List.map_append, List.map_cons, List.sum_append, List.sum_cons]
  omega

theorem sum_map_eraseIdx (hk : l[k]? = some a) (m : α → ℕ) :
    ((l.eraseIdx k).map m).sum + m a = (l.map m).sum := by
  obtain ⟨l₁, l₂, rfl, -, herase, -⟩ := exists_split hk
  rw [herase]
  simp only [List.map_append, List.map_cons, List.sum_append, List.sum_cons]
  omega

variable {f : α → β}

theorem map_set (hk : l[k]? = some a) {b : α} (hb : f b = f a) : (l.set k b).map f = l.map f := by
  obtain ⟨l₁, l₂, rfl, -, -, hset⟩ := exists_split hk
  rw [hset, List.map_append, List.map_append, List.map_cons, List.map_cons, hb]

theorem nodup_map_eraseIdx (hnd : (l.map f).Nodup) : ((l.eraseIdx k).map f).Nodup :=
  hnd.sublist ((List.eraseIdx_sublist l k).map f)

theorem mem_eraseIdx (hnd : (l.map f).Nodup) (hk : l[k]? = some a) {u : α} :
    u ∈ l.eraseIdx k ↔ u ∈ l ∧ f u ≠ f a := by
  obtain ⟨l₁, l₂, rfl, -, herase, -⟩ := exists_split hk
  rw [List.map_append, List.map_cons, List.nodup_middle, List.nodup_cons, ← List.map_append] at hnd
  rw [herase]
  constructor
  · intro hu
    refine ⟨?_, fun heq => hnd.1 (heq ▸ List.mem_map_of_mem hu)⟩
    obtain hu | hu := List.mem_append.mp hu
    · exact List.mem_append_left _ hu
    · exact List.mem_append_right _ (List.mem_cons_of_mem _ hu)
  · rintro ⟨hu, hne⟩
    obtain hu | hu := List.mem_append.mp hu
    · exact List.mem_append_left _ hu
    · obtain rfl | hu := List.mem_cons.mp hu
      · exact absurd rfl hne
      · exact List.mem_append_right _ hu

theorem mem_set (hnd : (l.map f).Nodup) (hk : l[k]? = some a) {u b : α} :
    u ∈ l.set k b ↔ u = b ∨ (u ∈ l ∧ f u ≠ f a) := by
  rw [← mem_eraseIdx hnd hk]
  obtain ⟨l₁, l₂, rfl, -, herase, hset⟩ := exists_split hk
  rw [herase, hset]
  simp only [List.mem_append, List.mem_cons]
  tauto

end Konf.Indexed
