import Mathlib.Data.List.Sort
import Mathlib.Order.Defs.LinearOrder

/-! # Tables of an ordered store

The two kinds of table of an embedded key-value store. A `Table` has one value for each key and is
iterated in key order. A `Multimap` has a set of values for each key, and `get` lists them in
order. -/

namespace Konf
set_option autoImplicit false

structure Table (K V : Type) [LinearOrder K] where
  rows : List (K × V)
  sorted : rows.Pairwise fun a b => a.1 < b.1

namespace Table

variable {K V : Type} [LinearOrder K]

def empty : Table K V := ⟨[], List.Pairwise.nil⟩

def get (t : Table K V) (k : K) : Option V := (t.rows.find? fun r => r.1 = k).map Prod.snd

def lastKey (t : Table K V) : Option K := t.rows.getLast?.map Prod.fst

/-- Insert a row, in place of the one with the same key. -/
def insert (t : Table K V) (k : K) (v : V) : Table K V where
  rows := t.rows.filter (fun r => r.1 < k) ++ (k, v) :: t.rows.filter fun r => k < r.1
  sorted := by
    rw [List.pairwise_append, List.pairwise_cons]
    refine ⟨t.sorted.filter _, ⟨?_, t.sorted.filter _⟩, ?_⟩
    · intro r hr
      exact of_decide_eq_true (List.mem_filter.mp hr).2
    · intro a ha b hb
      have hak : a.1 < k := of_decide_eq_true (List.mem_filter.mp ha).2
      obtain rfl | hb := List.mem_cons.mp hb
      · exact hak
      · exact hak.trans (of_decide_eq_true (List.mem_filter.mp hb).2)

def remove (t : Table K V) (k : K) : Table K V where
  rows := t.rows.filter fun r => r.1 ≠ k
  sorted := t.sorted.filter _

/-- Keep the rows that pass a test. -/
def filter (p : K → V → Bool) (t : Table K V) : Table K V where
  rows := t.rows.filter fun r => p r.1 r.2
  sorted := t.sorted.filter _

def mapValues {W : Type} (f : V → W) (t : Table K V) : Table K W where
  rows := t.rows.map fun r => (r.1, f r.2)
  sorted := List.pairwise_map.mpr t.sorted

section Lemmas
variable {t : Table K V} {k : K} {v : V}

theorem ext {t t' : Table K V} (h : t.rows = t'.rows) : t = t' := by
  cases t
  cases t'
  cases h
  rfl

theorem keys_nodup (t : Table K V) : (t.rows.map Prod.fst).Nodup := by
  rw [List.Nodup, List.pairwise_map]
  exact t.sorted.imp fun h => h.ne

theorem row_unique {r r' : K × V} (hr : r ∈ t.rows) (hr' : r' ∈ t.rows) (hk : r.1 = r'.1) :
    r = r' :=
  List.inj_on_of_nodup_map t.keys_nodup hr hr' hk

theorem get_eq_some_iff : t.get k = some v ↔ (k, v) ∈ t.rows := by
  unfold get
  constructor
  · intro h
    obtain ⟨r, hr, rfl⟩ := Option.map_eq_some_iff.mp h
    have hk : r.1 = k := by simpa using List.find?_some hr
    rw [← hk]
    exact List.mem_of_find?_eq_some hr
  · intro h
    obtain ⟨r, hr⟩ : ∃ r, t.rows.find? (fun r => r.1 = k) = some r := by
      rw [← Option.isSome_iff_exists, List.find?_isSome]
      exact ⟨_, h, decide_eq_true rfl⟩
    have hk : r.1 = k := by simpa using List.find?_some hr
    rw [hr, row_unique (List.mem_of_find?_eq_some hr) h hk]
    rfl

theorem get_eq_none_iff : t.get k = none ↔ ∀ r ∈ t.rows, r.1 ≠ k := by
  rw [get, Option.map_eq_none_iff, List.find?_eq_none]
  simp only [decide_eq_true_eq, ne_eq]

theorem mem_insert {r : K × V} :
    r ∈ (t.insert k v).rows ↔ r = (k, v) ∨ (r.1 ≠ k ∧ r ∈ t.rows) := by
  simp only [insert, List.mem_append, List.mem_cons, List.mem_filter, decide_eq_true_eq]
  constructor
  · rintro (⟨hr, hlt⟩ | rfl | ⟨hr, hlt⟩)
    · exact .inr ⟨hlt.ne, hr⟩
    · exact .inl rfl
    · exact .inr ⟨hlt.ne', hr⟩
  · rintro (rfl | ⟨hne, hr⟩)
    · exact .inr (.inl rfl)
    · obtain hlt | hlt := lt_or_gt_of_ne hne
      · exact .inl ⟨hr, hlt⟩
      · exact .inr (.inr ⟨hr, hlt⟩)

theorem mem_remove {r : K × V} : r ∈ (t.remove k).rows ↔ r.1 ≠ k ∧ r ∈ t.rows := by
  simp only [remove, List.mem_filter, decide_eq_true_eq, and_comm]

theorem get_insert_self : (t.insert k v).get k = some v := get_eq_some_iff.mpr (mem_insert.mpr (.inl rfl))

theorem get_insert_ne {k' : K} (h : k' ≠ k) : (t.insert k v).get k' = t.get k' := by
  ext v'
  rw [get_eq_some_iff, get_eq_some_iff, mem_insert]
  simp [h]

theorem get_remove_self : (t.remove k).get k = none := by
  rw [get_eq_none_iff]
  intro r hr
  exact (mem_remove.mp hr).1

theorem get_remove_ne {k' : K} (h : k' ≠ k) : (t.remove k).get k' = t.get k' := by
  ext v'
  rw [get_eq_some_iff, get_eq_some_iff, mem_remove]
  simp [h]

theorem get_filter (p : K → V → Bool) : (t.filter p).get k = (t.get k).filter (p k) := by
  cases hk : t.get k with
  | none =>
    rw [Option.filter_none, get_eq_none_iff]
    intro r hr
    exact get_eq_none_iff.mp hk r (List.mem_filter.mp hr).1
  | some v =>
    have hrow := get_eq_some_iff.mp hk
    cases hp : p k v with
    | true =>
      rw [Option.filter_some_pos hp, get_eq_some_iff]
      exact List.mem_filter.mpr ⟨hrow, hp⟩
    | false =>
      rw [Option.filter_some_neg (by simp [hp]), get_eq_none_iff]
      rintro ⟨k', v'⟩ hr rfl
      obtain ⟨hmem, hp'⟩ := List.mem_filter.mp hr
      rw [get_eq_some_iff.mpr hmem, Option.some.injEq] at hk
      subst hk
      simp [hp] at hp'

theorem get_mapValues {W : Type} (f : V → W) : (t.mapValues f).get k = (t.get k).map f := by
  simp only [get, mapValues, List.find?_map, Option.map_map]
  rfl

/-- Tables with the same rows are equal. -/
theorem ext_mem {t t' : Table K V} (h : ∀ r, r ∈ t.rows ↔ r ∈ t'.rows) : t = t' := by
  apply ext
  have hirrefl : ∀ {u : Table K V}, u.rows.Nodup := fun {u} => u.keys_nodup.of_map _
  refine List.Perm.eq_of_pairwise ?_ t.sorted t'.sorted ?_
  · intro a b _ _ hab hba
    exact absurd (hab.trans hba) (lt_irrefl a.1)
  · exact (List.perm_ext_iff_of_nodup hirrefl hirrefl).mpr h

theorem mem_filter {p : K → V → Bool} {r : K × V} :
    r ∈ (t.filter p).rows ↔ r ∈ t.rows ∧ p r.1 r.2 = true := List.mem_filter

section Filter
variable (p : K → V → Bool)

/-- A part of the table that the new row belongs to. -/
theorem filter_insert_pos (h : p k v = true) : (t.insert k v).filter p = (t.filter p).insert k v := by
  apply ext_mem
  intro r
  simp only [mem_filter, mem_insert]
  constructor
  · rintro ⟨rfl | ⟨hne, hr⟩, hp⟩
    · exact .inl rfl
    · exact .inr ⟨hne, hr, hp⟩
  · rintro (rfl | ⟨hne, hr, hp⟩)
    · exact ⟨.inl rfl, h⟩
    · exact ⟨.inr ⟨hne, hr⟩, hp⟩

/-- A part of the table that has nothing to do with the new row. -/
theorem filter_insert_neg (h : p k v = false) (hk : t.get k = none) :
    (t.insert k v).filter p = t.filter p := by
  apply ext_mem
  intro r
  simp only [mem_filter, mem_insert]
  constructor
  · rintro ⟨rfl | ⟨-, hr⟩, hp⟩
    · rw [h] at hp
      cases hp
    · exact ⟨hr, hp⟩
  · rintro ⟨hr, hp⟩
    exact ⟨.inr ⟨get_eq_none_iff.mp hk r hr, hr⟩, hp⟩

theorem filter_remove : (t.remove k).filter p = (t.filter p).remove k := by
  apply ext_mem
  intro r
  simp only [mem_filter, mem_remove, and_assoc]

theorem filter_comm (q : K → V → Bool) : (t.filter q).filter p = (t.filter p).filter q := by
  apply ext_mem
  intro r
  simp only [mem_filter]
  exact and_right_comm

theorem filter_eq_self {p : K → V → Bool} (h : ∀ r ∈ t.rows, p r.1 r.2 = true) : t.filter p = t :=
  ext (List.filter_eq_self.mpr h)

theorem remove_eq_self (h : t.get k = none) : t.remove k = t := by
  apply ext
  rw [remove, List.filter_eq_self]
  intro r hr
  exact decide_eq_true (get_eq_none_iff.mp h r hr)

end Filter

theorem insert_perm (h : t.get k = none) : (t.insert k v).rows.Perm ((k, v) :: t.rows) := by
  have hsplit : t.rows.filter (fun r => k < r.1) = t.rows.filter fun r => !decide (r.1 < k) := by
    refine List.filter_congr fun r hr => ?_
    have hne : r.1 ≠ k := get_eq_none_iff.mp h r hr
    rw [Bool.eq_iff_iff, decide_eq_true_eq, Bool.not_eq_true', decide_eq_false_iff_not, not_lt]
    exact ⟨le_of_lt, fun hle => lt_of_le_of_ne hle hne.symm⟩
  refine List.perm_middle.trans (List.Perm.cons _ ?_)
  rw [hsplit]
  exact List.filter_append_perm _ _

theorem insert_rows_of_lt (h : ∀ r ∈ t.rows, r.1 < k) : (t.insert k v).rows = t.rows ++ [(k, v)] := by
  have hlow : t.rows.filter (fun r => r.1 < k) = t.rows := by
    rw [List.filter_eq_self]
    intro r hr
    exact decide_eq_true (h r hr)
  have hhigh : t.rows.filter (fun r => k < r.1) = [] := by
    rw [List.filter_eq_nil_iff]
    intro r hr
    simpa using (h r hr).le
  change t.rows.filter _ ++ (k, v) :: t.rows.filter _ = _
  rw [hlow, hhigh]

theorem lastKey_eq_none_iff : t.lastKey = none ↔ t.rows = [] := by
  rw [lastKey, Option.map_eq_none_iff, List.getLast?_eq_none_iff]

/-- The rows split at the last one. -/
theorem lastKey_eq_some_iff : t.lastKey = some k ↔ ∃ v init, t.rows = init ++ [(k, v)] := by
  rw [lastKey, Option.map_eq_some_iff]
  constructor
  · rintro ⟨⟨k', v⟩, hlast, rfl⟩
    obtain ⟨init, hinit⟩ := List.getLast?_eq_some_iff.mp hlast
    exact ⟨v, init, hinit⟩
  · rintro ⟨v, init, hrows⟩
    exact ⟨(k, v), List.getLast?_eq_some_iff.mpr ⟨init, hrows⟩, rfl⟩

theorem le_lastKey (h : t.lastKey = some k) {r : K × V} (hr : r ∈ t.rows) : r.1 ≤ k := by
  obtain ⟨v, init, hrows⟩ := lastKey_eq_some_iff.mp h
  have hsorted := t.sorted
  rw [hrows, List.pairwise_append] at hsorted
  rw [hrows, List.mem_append, List.mem_singleton] at hr
  obtain hr | rfl := hr
  · exact (hsorted.2.2 r hr (k, v) (List.mem_singleton_self _)).le
  · exact le_rfl

end Lemmas
end Table

/-! ## Multimaps -/

structure Multimap (K V : Type) where
  pairs : List (K × V)
  nodup : pairs.Nodup

namespace Multimap

variable {K V : Type} [DecidableEq K] [LinearOrder V]

def empty : Multimap K V := ⟨[], List.nodup_nil⟩

def insert (m : Multimap K V) (k : K) (v : V) : Multimap K V := ⟨m.pairs.insert (k, v), m.nodup.insert⟩

def remove (m : Multimap K V) (k : K) (v : V) : Multimap K V := ⟨m.pairs.erase (k, v), m.nodup.erase _⟩

/-- Insert under a key, if there is one. -/
def insertAt (m : Multimap K V) : Option K → V → Multimap K V
  | some k, v => m.insert k v
  | none, _ => m

def removeAt (m : Multimap K V) : Option K → V → Multimap K V
  | some k, v => m.remove k v
  | none, _ => m

def get (m : Multimap K V) (k : K) : List V :=
  ((m.pairs.filter fun p => p.1 = k).map Prod.snd).insertionSort (· ≤ ·)

section Lemmas
variable {m : Multimap K V} {k k' : K} {v v' : V}

@[simp] theorem mem_insert : (k', v') ∈ (m.insert k v).pairs ↔ (k', v') = (k, v) ∨ (k', v') ∈ m.pairs :=
  List.mem_insert_iff

@[simp] theorem mem_remove : (k', v') ∈ (m.remove k v).pairs ↔ (k', v') ≠ (k, v) ∧ (k', v') ∈ m.pairs :=
  m.nodup.mem_erase_iff

@[simp] theorem mem_get : v ∈ m.get k ↔ (k, v) ∈ m.pairs := by
  rw [get, List.mem_insertionSort, List.mem_map]
  constructor
  · rintro ⟨⟨k', v'⟩, hp, rfl⟩
    obtain ⟨hmem, hk⟩ := List.mem_filter.mp hp
    rw [← (of_decide_eq_true hk : k' = k)]
    exact hmem
  · intro h
    exact ⟨(k, v), List.mem_filter.mpr ⟨h, decide_eq_true rfl⟩, rfl⟩

theorem get_sorted (m : Multimap K V) (k : K) : (m.get k).Pairwise (· < ·) := by
  have hnodup : (m.get k).Nodup := by
    rw [get, (List.perm_insertionSort _ _).nodup_iff]
    refine (m.nodup.filter _).map_on ?_
    intro p hp q hq hv
    have hpk : p.1 = k := of_decide_eq_true (List.mem_filter.mp hp).2
    have hqk : q.1 = k := of_decide_eq_true (List.mem_filter.mp hq).2
    exact Prod.ext (hpk.trans hqk.symm) hv
  exact (List.sortedLE_insertionSort.sortedLT_of_nodup hnodup).pairwise

end Lemmas
end Multimap

/-! ## Secondary indexes -/

section Indexes
variable {K I V : Type} [DecidableEq K] [LinearOrder I] {m : Multimap K I} {t : Table I V}
  {key : V → Option K}

/-- The multimap has the key of every row, and nothing else. -/
def Multimap.Indexes (m : Multimap K I) (t : Table I V) (key : V → Option K) : Prop :=
  ∀ k i, (k, i) ∈ m.pairs ↔ ∃ v, (i, v) ∈ t.rows ∧ key v = some k

omit [DecidableEq K] in
theorem Multimap.Indexes.empty : (Multimap.empty : Multimap K I).Indexes (Table.empty : Table I V) key := by
  intro k i
  simp [Multimap.empty, Table.empty]

/-- A row may be written over by one with the same key. -/
theorem Multimap.Indexes.overwrite (h : m.Indexes t key) {i : I} {v : V}
    (hsame : ∀ v', (i, v') ∈ t.rows → key v' = key v) :
    (m.insertAt (key v) i).Indexes (t.insert i v) key := by
  intro k i'
  have hold : (k, i') ∈ (m.insertAt (key v) i).pairs ↔
      (key v = some k ∧ i' = i) ∨ (k, i') ∈ m.pairs := by
    cases hv : key v with
    | none => simp [Multimap.insertAt]
    | some k' =>
      rw [Multimap.insertAt, Multimap.mem_insert, Prod.mk.injEq, Option.some.injEq, eq_comm (a := k)]
  have hrow : ∀ v', (i', v') ∈ (t.insert i v).rows ↔ (i', v') = (i, v) ∨ (i' ≠ i ∧ (i', v') ∈ t.rows) :=
    fun v' => Table.mem_insert
  rw [hold, h k i']
  constructor
  · rintro (⟨hv, rfl⟩ | ⟨v', hmem, hv'⟩)
    · exact ⟨v, (hrow v).mpr (.inl rfl), hv⟩
    · by_cases hi : i' = i
      · subst hi
        exact ⟨v, (hrow v).mpr (.inl rfl), hsame v' hmem ▸ hv'⟩
      · exact ⟨v', (hrow v').mpr (.inr ⟨hi, hmem⟩), hv'⟩
  · rintro ⟨v', hmem, hv'⟩
    obtain heq | ⟨-, hmem⟩ := (hrow v').mp hmem
    · obtain ⟨rfl, rfl⟩ := Prod.mk.inj heq
      exact .inl ⟨hv', rfl⟩
    · exact .inr ⟨v', hmem, hv'⟩

theorem Multimap.Indexes.insert (h : m.Indexes t key) {i : I} {v : V} (hnew : ∀ r ∈ t.rows, r.1 < i) :
    (m.insertAt (key v) i).Indexes (t.insert i v) key := by
  refine h.overwrite ?_
  intro v' hv'
  exact absurd rfl (hnew _ hv').ne

/-- A row is removed together with its pair; the row may be gone already. -/
theorem Multimap.Indexes.erase (h : m.Indexes t key) {i : I} {key' : Option K}
    (hsame : ∀ v, (i, v) ∈ t.rows → key v = key') :
    (m.removeAt key' i).Indexes (t.remove i) key := by
  intro k i'
  have hrow : ∀ v', (i', v') ∈ (t.remove i).rows ↔ i' ≠ i ∧ (i', v') ∈ t.rows :=
    fun v' => Table.mem_remove
  have hold : (k, i') ∈ (m.removeAt key' i).pairs ↔ ¬(key' = some k ∧ i' = i) ∧ (k, i') ∈ m.pairs := by
    cases key' with
    | none => simp [Multimap.removeAt]
    | some k' =>
      rw [Multimap.removeAt, Multimap.mem_remove, ne_eq, Prod.mk.injEq, Option.some.injEq,
        eq_comm (a := k)]
  rw [hold, h k i']
  constructor
  · rintro ⟨hne, v', hv', hk⟩
    refine ⟨v', (hrow v').mpr ⟨?_, hv'⟩, hk⟩
    rintro rfl
    exact hne ⟨hsame v' hv' ▸ hk, rfl⟩
  · rintro ⟨v', hv', hk⟩
    obtain ⟨hne, hv'⟩ := (hrow v').mp hv'
    exact ⟨fun h => hne h.2, v', hv', hk⟩

theorem Multimap.Indexes.remove (h : m.Indexes t key) {i : I} {v : V} (hmem : (i, v) ∈ t.rows) :
    (m.removeAt (key v) i).Indexes (t.remove i) key := by
  refine h.erase ?_
  intro v' hv'
  cases Table.row_unique hv' hmem rfl
  rfl

/-- A lookup in the index is a scan of the table. -/
theorem Multimap.Indexes.get_eq (h : m.Indexes t key) (k : K) :
    m.get k = (t.rows.filter fun r => key r.2 = some k).map Prod.fst := by
  refine (m.get_sorted k).eq_of_mem_iff ?_ ?_
  · rw [List.pairwise_map]
    exact t.sorted.filter _
  · intro i
    rw [Multimap.mem_get, h k i, List.mem_map]
    constructor
    · rintro ⟨v, hmem, hv⟩
      exact ⟨(i, v), List.mem_filter.mpr ⟨hmem, decide_eq_true hv⟩, rfl⟩
    · rintro ⟨⟨i', v⟩, hmem, rfl⟩
      obtain ⟨hmem, hv⟩ := List.mem_filter.mp hmem
      exact ⟨v, hmem, of_decide_eq_true hv⟩

end Indexes

/-! ## Bounded scans -/

/-- Push what `f` makes of each item, until there are `limit` of them or `f` fails. -/
def scanUpTo {ε α β : Type} (limit : ℕ) (f : α → Except ε (Option β)) :
    List α → List β → Except ε (List β)
  | [], found => .ok found
  | a :: rest, found =>
    if limit ≤ found.length then .ok found
    else match f a with
      | .ok (some b) => scanUpTo limit f rest (found ++ [b])
      | .ok none => scanUpTo limit f rest found
      | .error e => .error e

section Scans
variable {ε α β : Type} {limit : ℕ} {f : α → Except ε (Option β)} {good : α → Prop} {g : α → Option β}

/-- Where an item can stand in a list: first, or in what comes after. -/
theorem forall_split_cons {p : List α → α → Prop} {a : α} {rest : List α} :
    (∀ pre x post, a :: rest = pre ++ x :: post → p pre x) ↔
      p [] a ∧ ∀ pre x post, rest = pre ++ x :: post → p (a :: pre) x := by
  constructor
  · intro h
    refine ⟨h [] a rest rfl, ?_⟩
    rintro pre x post rfl
    exact h (a :: pre) x post rfl
  · rintro ⟨hfirst, hrest⟩ pre x post heq
    cases pre with
    | nil =>
      obtain ⟨rfl, -⟩ := List.cons.inj heq
      exact hfirst
    | cons b pre =>
      obtain ⟨rfl, hafter⟩ := List.cons.inj heq
      exact hrest pre x post hafter

/-- Where an item can stand in a mapped list. -/
theorem forall_split_map {γ : Type} {p : List γ → γ → Prop} (h : α → γ) {l : List α} :
    (∀ pre c post, l.map h = pre ++ c :: post → p pre c) ↔
      ∀ pre a post, l = pre ++ a :: post → p (pre.map h) (h a) := by
  constructor
  · rintro hall pre a post rfl
    exact hall (pre.map h) (h a) (post.map h) (by rw [List.map_append, List.map_cons])
  · intro hall pre c post heq
    obtain ⟨pre, tail, rfl, rfl, htail⟩ := List.map_eq_append_iff.mp heq
    obtain ⟨a, post, rfl, rfl, rfl⟩ := List.map_eq_cons_iff.mp htail
    exact hall pre a post rfl

theorem scanUpTo_found (hf : ∀ a b, f a = .ok b ↔ good a ∧ b = g a) (items : List α) {found : List β}
    (h : found.length ≤ limit) {out : List β} :
    scanUpTo limit f items found = .ok out ↔
      (∀ pre a post, items = pre ++ a :: post → ¬good a →
        limit ≤ found.length + (pre.filterMap g).length) ∧
      out = (found ++ items.filterMap g).take limit := by
  induction items generalizing found with
  | nil =>
    rw [scanUpTo, List.filterMap_nil, List.append_nil, List.take_of_length_le h, Except.ok.injEq, eq_comm]
    exact (and_iff_right (by simp)).symm
  | cons a rest ih =>
    rw [scanUpTo, forall_split_cons]
    split_ifs with hfull
    · have hlen : found.length = limit := Nat.le_antisymm h hfull
      rw [List.take_append_of_le_length hfull, ← hlen, List.take_length, Except.ok.injEq, eq_comm]
      refine (and_iff_right ⟨fun _ => Nat.le_add_right _ _, ?_⟩).symm
      intro pre x post _ _
      exact Nat.le_add_right _ _
    · cases ha : f a with
      | error e =>
        refine iff_of_false nofun ?_
        rintro ⟨⟨hfirst, -⟩, -⟩
        refine hfull (hfirst ?_)
        intro hgood
        cases ha.symm.trans ((hf a _).mpr ⟨hgood, rfl⟩)
      | ok o =>
        obtain ⟨hgood, rfl⟩ := (hf a o).mp ha
        rw [and_iff_right (fun hbad : ¬good a => absurd hgood hbad)]
        cases hg : g a with
        | none =>
          simp only [List.filterMap_cons_none hg]
          exact ih h
        | some b =>
          have hroom : (found ++ [b]).length ≤ limit := by
            rw [List.length_append, List.length_singleton]
            omega
          simp only [List.filterMap_cons_some hg]
          rw [ih hroom, List.append_assoc, List.singleton_append]
          simp only [List.length_append, List.length_cons, List.length_nil, Nat.zero_add, Nat.add_assoc,
            Nat.add_comm 1]

/-- A scan succeeds when each item that `f` fails at comes after enough finds. -/
theorem scanUpTo_eq_ok_iff (hf : ∀ a b, f a = .ok b ↔ good a ∧ b = g a) {items : List α}
    {out : List β} :
    scanUpTo limit f items [] = .ok out ↔
      (∀ pre a post, items = pre ++ a :: post → ¬good a → limit ≤ (pre.filterMap g).length) ∧
      out = (items.filterMap g).take limit := by
  have hempty : ([] : List β).length ≤ limit := Nat.zero_le limit
  have hfound : scanUpTo limit f items [] = .ok out ↔ _ := scanUpTo_found hf items hempty
  simpa using hfound

theorem scanUpTo_eq_ok (hf : ∀ a b, f a = .ok b ↔ good a ∧ b = g a) {items : List α}
    (hgood : ∀ a ∈ items, good a) : scanUpTo limit f items [] = .ok ((items.filterMap g).take limit) := by
  refine (scanUpTo_eq_ok_iff hf).mpr ⟨?_, rfl⟩
  rintro pre a post rfl hbad
  exact absurd (hgood a (by simp)) hbad

/-- Items that `f` passes over may be left out. -/
theorem scanUpTo_filter {p : α → Bool} {items : List α} (h : ∀ a ∈ items, p a = false → f a = .ok none)
    (found : List β) : scanUpTo limit f (items.filter p) found = scanUpTo limit f items found := by
  induction items generalizing found with
  | nil => rfl
  | cons a rest ih =>
    have hrest := ih fun b hb => h b (List.mem_cons_of_mem _ hb)
    cases hp : p a with
    | true =>
      rw [List.filter_cons_of_pos hp, scanUpTo, scanUpTo]
      split_ifs with hfull
      · rfl
      · cases f a with
        | error e => rfl
        | ok o =>
          cases o with
          | none => exact hrest found
          | some b => exact hrest (found ++ [b])
    | false =>
      rw [List.filter_cons_of_neg (by simp [hp]), scanUpTo, h a (List.mem_cons_self ..) hp, hrest]
      split_ifs with hfull
      · cases rest with
        | nil => rfl
        | cons b rest => rw [scanUpTo, if_pos hfull]
      · rfl

end Scans

end Konf
