import Konf.Journal.Queries

/-! # What readers see of a sweep

Readers hide an entry from the instant after its `valid_to` on, the sweep removes it at that instant.
`recent` counts hidden rows against its limit, and a lookup by key stops at the newest entry even if it
is hidden. A read also fails at an entry that cannot be read back. So a sweep goes unnoticed when what it
removes can be read back, is hidden and older than what it leaves. -/

namespace Konf.Journal
open Konf.Substrate
set_option autoImplicit false

/-- The two journals answer every read alike at one instant; filters leave expired entries out. -/
structure SameReads (formatUuid : Uuid → String) (now : Time) (j j' : RedbJournal) : Prop where
  queryByRun : ∀ run, j.queryByRun now run = j'.queryByRun now run
  queryBySession : ∀ session limit, j.queryBySession now session limit =
    j'.queryBySession now session limit
  recent : ∀ limit, j.recent now limit = j'.recent now limit
  query : ∀ filter limit, filter.includeExpired = false →
    j.query formatUuid now filter limit = j'.query formatUuid now filter limit
  aggregate : ∀ filter q, filter.includeExpired = false →
    j.aggregate formatUuid now filter q = j'.aggregate formatUuid now filter q
  getByIdempotencyKey : ∀ key, j.getByIdempotencyKey now key = j'.getByIdempotencyKey now key

/-- What a sweep at `now` removes can be read back, has ended before `now`, and is older than all it
leaves. -/
def RedbJournal.OldestLapsed (j : RedbJournal) (now : Time) : Prop :=
  ∀ r ∈ j.events.rows, r.2.isSwept now = true →
    r.2.payload.Readable ∧ isExpired now (r.2.row r.1) = true ∧
      ∀ r' ∈ j.events.rows, r'.2.isSwept now = false → r.1 < r'.1

section Swept
variable {j : RedbJournal} {now : Time}

theorem isSwept_iff (stored : StoredEntry) :
    stored.isSwept now = true ↔
      ∃ micros, stored.validToMicros = some micros ∧ ofTimestampMicros micros ≤ now := by
  unfold StoredEntry.isSwept timestampMicros ofTimestampMicros
  cases stored.validToMicros with
  | none => simp
  | some micros =>
    simp only [Option.any_some, decide_eq_true_eq, Option.some.injEq, exists_eq_left']
    exact Int.le_ediv_iff_mul_le (by decide)

/-- What a reader hides, the sweep removes. -/
theorem isSwept_of_isExpired {stored : StoredEntry} {id : ℕ}
    (h : isExpired now (stored.row id) = true) : stored.isSwept now = true := by
  obtain ⟨micros, hmicros, hlt⟩ := (isExpired_row now stored id).mp h
  exact (isSwept_iff stored).mpr ⟨micros, hmicros, hlt.le⟩

theorem isExpired_of_kept {stored : StoredEntry} {id : ℕ} (h : stored.isSwept now = false) :
    isExpired now (stored.row id) = false := by
  by_contra hx
  rw [isSwept_of_isExpired (Bool.not_eq_false _ ▸ hx)] at h
  cases h

theorem RedbJournal.mem_deleteExpired {r : ℕ × StoredEntry} :
    r ∈ (j.deleteExpired now).2.events.rows ↔ r ∈ j.events.rows ∧ r.2.isSwept now = false := by
  rw [RedbJournal.deleteExpired_rows, List.mem_filter, Bool.not_eq_true']

theorem RedbJournal.get_deleteExpired (j : RedbJournal) (now : Time) (i : ℕ) :
    (j.deleteExpired now).2.events.get i = (j.events.get i).filter fun stored => !stored.isSwept now := by
  apply Option.ext
  intro stored
  rw [Table.get_eq_some_iff, RedbJournal.mem_deleteExpired, Option.filter_eq_some_iff,
    Table.get_eq_some_iff, Bool.not_eq_true']

theorem RedbJournal.deleteExpired_of_none (h : ∀ r ∈ j.events.rows, r.2.isSwept now = false) :
    (j.deleteExpired now).2 = j := by
  have hnone : j.events.rows.filter (fun r => r.2.isSwept now) = [] := by
    rw [List.filter_eq_nil_iff]
    intro r hr
    rw [h r hr]
    exact Bool.false_ne_true
  unfold RedbJournal.deleteExpired
  rw [hnone]
  rfl

end Swept

/-! ## Indexes after a sweep -/

/-- The index has lost at most pairs with an id of the list. -/
def Multimap.Trimmed {K : Type} (m m' : Multimap K ℕ) (gone : List ℕ) : Prop :=
  ∀ k i, ((k, i) ∈ m'.pairs → (k, i) ∈ m.pairs) ∧ ((k, i) ∈ m.pairs → i ∉ gone → (k, i) ∈ m'.pairs)

section Trimmed
variable {K : Type} [DecidableEq K]

omit [DecidableEq K] in
theorem trimmed_refl (m : Multimap K ℕ) : Multimap.Trimmed m m [] :=
  fun _ _ => ⟨id, fun h _ => h⟩

theorem trimmed_removeAt {m m' : Multimap K ℕ} {i : ℕ} {gone : List ℕ} (k : Option K)
    (h : Multimap.Trimmed (m.removeAt k i) m' gone) : Multimap.Trimmed m m' (i :: gone) := by
  intro k' i'
  have hsub : (k', i') ∈ (m.removeAt k i).pairs → (k', i') ∈ m.pairs := by
    cases k with
    | none => exact id
    | some k => exact fun hp => (Multimap.mem_remove.mp hp).2
  have hsup : (k', i') ∈ m.pairs → i' ≠ i → (k', i') ∈ (m.removeAt k i).pairs := by
    cases k with
    | none => exact fun hp _ => hp
    | some k => exact fun hp hne => Multimap.mem_remove.mpr ⟨fun heq => hne (Prod.mk.inj heq).2, hp⟩
  refine ⟨fun hp => hsub ((h k' i').1 hp), ?_⟩
  intro hp hi
  rw [List.mem_cons, not_or] at hi
  exact (h k' i').2 (hsup hp hi.1) hi.2

theorem Multimap.Trimmed.filter_get {m m' : Multimap K ℕ} {gone : List ℕ}
    (h : Multimap.Trimmed m m' gone) (k : K) :
    (m'.get k).filter (fun i => decide (i ∉ gone)) = (m.get k).filter fun i => decide (i ∉ gone) := by
  refine ((m'.get_sorted k).filter _).eq_of_mem_iff ((m.get_sorted k).filter _) ?_
  intro i
  rw [List.mem_filter, List.mem_filter, Multimap.mem_get, Multimap.mem_get]
  constructor
  · exact fun hi => ⟨(h k i).1 hi.1, hi.2⟩
  · exact fun hi => ⟨(h k i).2 hi.1 (of_decide_eq_true hi.2), hi.2⟩

/-- A lookup that drops the lost ids anyway is not changed by the loss. -/
theorem Multimap.Trimmed.filterMap_get {β : Type} {m m' : Multimap K ℕ} {gone : List ℕ}
    (h : Multimap.Trimmed m m' gone) {f : ℕ → Option β} (hf : ∀ i ∈ gone, f i = none) (k : K) :
    (m'.get k).filterMap f = (m.get k).filterMap f := by
  have hcut : ∀ l : List ℕ, (l.filter fun i => decide (i ∉ gone)).filterMap f = l.filterMap f := by
    intro l
    rw [List.filterMap_filter]
    refine List.filterMap_congr ?_
    intro i _
    by_cases hi : i ∈ gone
    · simp [hi, hf i hi]
    · simp [hi]
  rw [← hcut, h.filter_get, hcut]

/-- So is a scan that passes over the lost ids. -/
theorem Multimap.Trimmed.scan_get {ε β : Type} {m m' : Multimap K ℕ} {gone : List ℕ}
    (h : Multimap.Trimmed m m' gone) {f : ℕ → Except ε (Option β)} (hf : ∀ i ∈ gone, f i = .ok none)
    (k : K) (limit : ℕ) :
    scanUpTo limit f (m'.get k).reverse [] = scanUpTo limit f (m.get k).reverse [] := by
  have hcut : ∀ l : List ℕ,
      scanUpTo limit f (l.filter fun i => decide (i ∉ gone)).reverse [] =
        scanUpTo limit f l.reverse [] := by
    intro l
    rw [← List.filter_reverse]
    refine scanUpTo_filter ?_ []
    intro i _ hi
    exact hf i (not_not.mp (of_decide_eq_false hi))
  rw [← hcut, h.filter_get, hcut]

/-- A property of the lost ids that the others keep holds of all or of none. -/
theorem Multimap.Trimmed.forall_get {p : ℕ → Prop} {m m' : Multimap K ℕ} {gone : List ℕ}
    (h : Multimap.Trimmed m m' gone) (hp : ∀ i ∈ gone, p i) (k : K) :
    (∀ i ∈ m'.get k, p i) ↔ ∀ i ∈ m.get k, p i := by
  simp only [Multimap.mem_get]
  constructor
  · intro hall i hi
    by_cases hgone : i ∈ gone
    · exact hp i hgone
    · exact hall i ((h k i).2 hi hgone)
  · exact fun hall i hi => hall i ((h k i).1 hi)

end Trimmed

section Indexes
variable {j : RedbJournal} {now : Time}

/-- What the sweep leaves of the three indexes that queries read. -/
theorem foldl_forget_trimmed (gone : List (ℕ × StoredEntry)) (j : RedbJournal) :
    Multimap.Trimmed j.byRun (gone.foldl RedbJournal.forget j).byRun (gone.map Prod.fst) ∧
      Multimap.Trimmed j.bySession (gone.foldl RedbJournal.forget j).bySession (gone.map Prod.fst) ∧
      Multimap.Trimmed j.byIdempotency (gone.foldl RedbJournal.forget j).byIdempotency
        (gone.map Prod.fst) := by
  induction gone generalizing j with
  | nil => exact ⟨trimmed_refl _, trimmed_refl _, trimmed_refl _⟩
  | cons r rest ih =>
    obtain ⟨hrun, hsession, hkey⟩ := ih (j.forget r)
    exact ⟨trimmed_removeAt r.2.runId hrun, trimmed_removeAt (some r.2.sessionId) hsession,
      trimmed_removeAt r.2.idempotencyKey hkey⟩

theorem RedbJournal.deleteExpired_trimmed (j : RedbJournal) (now : Time) :
    ∃ gone, (∀ i ∈ gone, ∃ stored, (i, stored) ∈ j.events.rows ∧ stored.isSwept now = true) ∧
      Multimap.Trimmed j.byRun (j.deleteExpired now).2.byRun gone ∧
      Multimap.Trimmed j.bySession (j.deleteExpired now).2.bySession gone ∧
      Multimap.Trimmed j.byIdempotency (j.deleteExpired now).2.byIdempotency gone := by
  refine ⟨(j.events.rows.filter fun r => r.2.isSwept now).map Prod.fst, ?_, ?_⟩
  · intro i hi
    obtain ⟨r, hr, rfl⟩ := List.mem_map.mp hi
    exact ⟨r.2, List.mem_filter.mp hr⟩
  · unfold RedbJournal.deleteExpired
    simp only
    split_ifs with hnone
    · rw [List.isEmpty_iff.mp hnone]
      exact ⟨trimmed_refl _, trimmed_refl _, trimmed_refl _⟩
    · exact foldl_forget_trimmed _ j

end Indexes

/-! ## An unnoticed sweep -/

section Unnoticed
variable {j : RedbJournal} {now : Time}

theorem RedbJournal.OldestLapsed.readableAt_iff (h : j.OldestLapsed now) (i : ℕ) :
    (j.deleteExpired now).2.ReadableAt i ↔ j.ReadableAt i := by
  unfold RedbJournal.ReadableAt
  simp only [RedbJournal.get_deleteExpired, Option.filter_eq_some_iff, Bool.not_eq_true']
  constructor
  · intro hkept stored hget
    cases hs : stored.isSwept now with
    | true => exact (h _ (Table.get_eq_some_iff.mp hget) hs).1
    | false => exact hkept stored ⟨hget, hs⟩
  · exact fun hall stored hget => hall stored hget.1

theorem RedbJournal.OldestLapsed.liveAt_eq (h : j.OldestLapsed now) (i : ℕ) :
    (j.deleteExpired now).2.liveAt now i = j.liveAt now i := by
  unfold RedbJournal.liveAt RedbJournal.rowAt
  rw [RedbJournal.get_deleteExpired]
  cases hget : j.events.get i with
  | none => rfl
  | some stored =>
    cases hs : stored.isSwept now with
    | true =>
      have hexpired := (h _ (Table.get_eq_some_iff.mp hget) hs).2.1
      simp [Option.filter, hs, hexpired]
    | false => simp [Option.filter, hs]

theorem RedbJournal.OldestLapsed.readLive_eq (h : j.OldestLapsed now) :
    (j.deleteExpired now).2.readLive now = j.readLive now := by
  funext i
  refine Fallible.eq_of_ok_iff (RedbJournal.readLive_error _ now) (RedbJournal.readLive_error _ now) ?_
  intro o
  rw [RedbJournal.readLive_eq_ok_iff, RedbJournal.readLive_eq_ok_iff, h.readableAt_iff, h.liveAt_eq]

/-- What the indexes lose is read back and then dropped. -/
theorem RedbJournal.OldestLapsed.dropped (h : j.OldestLapsed now) {i : ℕ} {stored : StoredEntry}
    (hmem : (i, stored) ∈ j.events.rows) (hswept : stored.isSwept now = true) :
    j.ReadableAt i ∧ j.liveAt now i = none := by
  have hget := Table.get_eq_some_iff.mpr hmem
  obtain ⟨hread, hexpired, -⟩ := h _ hmem hswept
  refine ⟨?_, ?_⟩
  · intro stored' hget'
    cases hget.symm.trans hget'
    exact hread
  · rw [RedbJournal.liveAt, RedbJournal.rowAt, hget]
    simp [Option.filter, hexpired]

theorem RedbJournal.OldestLapsed.rows_eq (h : j.OldestLapsed now) :
    j.events.rows = j.events.rows.filter (fun r => r.2.isSwept now) ++
      (j.deleteExpired now).2.events.rows := by
  rw [RedbJournal.deleteExpired_rows]
  refine List.Perm.eq_of_pairwise ?_ j.events.sorted ?_ (List.filter_append_perm _ _).symm
  · intro a b _ _ hab hba
    exact absurd hab (Nat.lt_asymm hba)
  · rw [List.pairwise_append]
    refine ⟨j.events.sorted.filter _, j.events.sorted.filter _, ?_⟩
    intro a ha b hb
    obtain ⟨ha, hswept⟩ := List.mem_filter.mp ha
    obtain ⟨hb, hkept⟩ := List.mem_filter.mp hb
    exact (h a ha hswept).2.2 b hb ((Bool.not_eq_true' _).mp hkept)

/-- The removed rows come last among the newest first. -/
theorem RedbJournal.OldestLapsed.take_rows (h : j.OldestLapsed now) (limit : ℕ) :
    ∃ lapsed : List JournalRow, (∀ row ∈ lapsed, row.payload.Readable ∧ isExpired now row = true) ∧
      j.rows.reverse.take limit = (j.deleteExpired now).2.rows.reverse.take limit ++ lapsed := by
  unfold RedbJournal.rows
  nth_rewrite 1 [h.rows_eq]
  rw [List.map_append, List.reverse_append, List.take_append]
  refine ⟨_, ?_, rfl⟩
  intro row hrow
  obtain ⟨r, hr, rfl⟩ := List.mem_map.mp (List.mem_reverse.mp (List.mem_of_mem_take hrow))
  obtain ⟨hr, hswept⟩ := List.mem_filter.mp hr
  exact ⟨(h r hr hswept).1, (h r hr hswept).2.1⟩

theorem RedbJournal.OldestLapsed.recent_eq (h : j.OldestLapsed now) (limit : ℕ) :
    j.recent now limit = (j.deleteExpired now).2.recent now limit := by
  refine Fallible.eq_of_ok_iff (fun _ => RedbJournal.recent_error j now)
    (fun _ => RedbJournal.recent_error _ now) ?_
  intro out
  obtain ⟨lapsed, hlapsed, htake⟩ := h.take_rows limit
  have hread : ∀ row ∈ lapsed, row.payload.Readable := fun row hrow => (hlapsed row hrow).1
  have hhidden : lapsed.filter (fun row => !isExpired now row) = [] := by
    rw [List.filter_eq_nil_iff]
    intro row hrow
    simp [(hlapsed row hrow).2]
  rw [RedbJournal.recent_eq_ok_iff, RedbJournal.recent_eq_ok_iff, htake, List.forall_mem_append,
    and_iff_left hread, List.filter_append, hhidden, List.append_nil]

section Filters
variable {formatUuid : Uuid → String} {filter : JournalFilter}

theorem live_of_matches (hf : filter.includeExpired = false) {row : JournalRow}
    (h : filter.matches formatUuid now row = true) : isExpired now row = false := by
  unfold JournalFilter.matches at h
  rw [Bool.and_eq_true, hf, Bool.false_or, validTo_all_eq, Bool.not_eq_true'] at h
  exact h.2

variable (formatUuid) in
/-- What is removed is read back and not selected. -/
theorem RedbJournal.OldestLapsed.unselected (h : j.OldestLapsed now) (hf : filter.includeExpired = false)
    {r : ℕ × StoredEntry} (hr : r ∈ j.events.rows) (hswept : r.2.isSwept now = true) :
    r.2.intoRow r.1 = .ok (r.2.row r.1) ∧ filter.matches formatUuid now (r.2.row r.1) = false := by
  obtain ⟨hread, hexpired, -⟩ := h r hr hswept
  refine ⟨StoredEntry.intoRow_of_readable hread, ?_⟩
  by_contra hmatches
  cases hexpired.symm.trans (live_of_matches hf (Bool.not_eq_false _ ▸ hmatches))

theorem RedbJournal.OldestLapsed.query_eq (h : j.OldestLapsed now) (hf : filter.includeExpired = false)
    (limit : ℕ) :
    j.query formatUuid now filter limit = (j.deleteExpired now).2.query formatUuid now filter limit := by
  unfold RedbJournal.query
  rw [RedbJournal.deleteExpired_rows, ← List.filter_reverse]
  refine (scanUpTo_filter ?_ []).symm
  intro r hr hswept
  obtain ⟨hrow, hout⟩ := h.unselected formatUuid hf (List.mem_reverse.mp hr)
    ((Bool.not_eq_false' _).mp hswept)
  rw [hrow]
  change Except.ok (if filter.matches formatUuid now (r.2.row r.1) then some (r.2.row r.1) else none) = _
  rw [hout, if_neg Bool.false_ne_true]

theorem RedbJournal.OldestLapsed.tallied_eq (h : j.OldestLapsed now)
    (hf : filter.includeExpired = false) :
    j.tallied now formatUuid filter = (j.deleteExpired now).2.tallied now formatUuid filter := by
  unfold RedbJournal.tallied
  rw [RedbJournal.deleteExpired_rows]
  refine (Fallible.foldlM_filter ?_ _).symm
  intro r hr hswept acc
  obtain ⟨hrow, hout⟩ := h.unselected formatUuid hf hr ((Bool.not_eq_false' _).mp hswept)
  rw [hrow]
  change Except.ok (if filter.matches formatUuid now (r.2.row r.1) then
    RedbJournal.tally acc (r.2.row r.1) else acc) = _
  rw [hout, if_neg Bool.false_ne_true]

end Filters

/-- In a list where what a sweep removes comes first, the last element is kept or nothing is. -/
theorem getLast?_filter_kept {entries : List (ℕ × StoredEntry)}
    (hsorted : entries.Pairwise fun a b => a.1 < b.1)
    (holder : ∀ a ∈ entries, a.2.isSwept now = true →
      ∀ b ∈ entries, b.2.isSwept now = false → a.1 < b.1) :
    (entries.filter fun e => !e.2.isSwept now).getLast? =
      entries.getLast?.filter fun e => !e.2.isSwept now := by
  obtain rfl | ⟨init, last, rfl⟩ := List.eq_nil_or_concat entries
  · rfl
  · rw [List.concat_eq_append] at hsorted holder ⊢
    rw [List.getLast?_concat, List.filter_append, List.filter_singleton]
    have hlast : last ∈ init ++ [last] := List.mem_append_right _ (List.mem_singleton_self _)
    cases hs : last.2.isSwept now with
    | false =>
      rw [Bool.not_false, cond_true, List.getLast?_concat]
      simp [Option.filter, hs]
    | true =>
      have hnone : init.filter (fun e => !e.2.isSwept now) = [] := by
        rw [List.filter_eq_nil_iff]
        intro b hb hkept
        have hb' : b ∈ init ++ [last] := List.mem_append_left _ hb
        have hlt := holder last hlast hs b hb' ((Bool.not_eq_true' _).mp hkept)
        have hgt := (List.pairwise_append.mp hsorted).2.2 b hb last (List.mem_singleton_self _)
        exact Nat.lt_asymm hlt hgt
      rw [hnone]
      simp [Option.filter, hs]

/-- The newest entry of a key is kept, or all entries of the key are swept. -/
theorem RedbJournal.OldestLapsed.getByIdempotencyKey_eq (h : j.OldestLapsed now) (key : String) :
    j.getByIdempotencyKey now key = (j.deleteExpired now).2.getByIdempotencyKey now key := by
  obtain ⟨gone, hgone, -, -, htrim⟩ := j.deleteExpired_trimmed now
  have hentry : ∀ i, (j.deleteExpired now).2.entryAt i =
      (j.entryAt i).filter fun e => !e.2.isSwept now := by
    intro i
    rw [RedbJournal.entryAt, RedbJournal.entryAt, RedbJournal.get_deleteExpired]
    cases j.events.get i with
    | none => rfl
    | some stored =>
      cases hs : stored.isSwept now with
      | true => simp [Option.filter, hs]
      | false => simp [Option.filter, hs]
  have hlost : ∀ i ∈ gone, (j.deleteExpired now).2.entryAt i = none := by
    intro i hi
    obtain ⟨stored, hmem, hswept⟩ := hgone i hi
    rw [hentry, RedbJournal.entryAt, Table.get_eq_some_iff.mpr hmem]
    simp [Option.filter, hswept]
  have hkept : ((j.deleteExpired now).2.byIdempotency.get key).filterMap (j.deleteExpired now).2.entryAt =
      ((j.byIdempotency.get key).filterMap j.entryAt).filter fun e => !e.2.isSwept now := by
    rw [htrim.filterMap_get hlost, List.filter_filterMap]
    exact List.filterMap_congr fun i _ => hentry i
  have hmem : ∀ e ∈ (j.byIdempotency.get key).filterMap j.entryAt, e ∈ j.events.rows := by
    intro e he
    obtain ⟨i, -, he⟩ := List.mem_filterMap.mp he
    obtain ⟨stored, hget, rfl⟩ := Option.map_eq_some_iff.mp he
    exact Table.get_eq_some_iff.mp hget
  rw [RedbJournal.getByIdempotencyKey_eq, RedbJournal.getByIdempotencyKey_eq, hkept,
    getLast?_filter_kept (RedbJournal.filterMap_entryAt_sorted j (j.byIdempotency.get_sorted key))
      fun a ha hs b hb hk => (h a (hmem a ha) hs).2.2 b (hmem b hb) hk]
  cases hlast : ((j.byIdempotency.get key).filterMap j.entryAt).getLast? with
  | none => rfl
  | some e =>
    cases hs : e.2.isSwept now with
    | false => simp [Option.filter, hs]
    | true =>
      obtain ⟨hread, hexpired, -⟩ := h e (hmem e (List.mem_of_getLast? hlast)) hs
      rw [Option.elim_some, readNewest, StoredEntry.intoRow_of_readable hread]
      simp [Option.filter, hs, hexpired, bind, Except.bind]

theorem RedbJournal.OldestLapsed.sameReads (h : j.OldestLapsed now) (formatUuid : Uuid → String) :
    SameReads formatUuid now j (j.deleteExpired now).2 := by
  obtain ⟨gone, hgone, hrun, hsession, -⟩ := j.deleteExpired_trimmed now
  have hdropped : ∀ i ∈ gone, j.ReadableAt i ∧ j.liveAt now i = none := by
    intro i hi
    obtain ⟨stored, hmem, hswept⟩ := hgone i hi
    exact h.dropped hmem hswept
  refine ⟨?_, ?_, h.recent_eq, fun _ limit hf => h.query_eq hf limit, ?_, h.getByIdempotencyKey_eq⟩
  · intro run
    refine Fallible.eq_of_ok_iff (fun _ => RedbJournal.queryByRun_error j now)
      (fun _ => RedbJournal.queryByRun_error _ now) ?_
    intro out
    have hlive : (j.deleteExpired now).2.liveAt now = j.liveAt now := funext h.liveAt_eq
    rw [RedbJournal.queryByRun_eq_ok_iff, RedbJournal.queryByRun_eq_ok_iff, hlive,
      hrun.filterMap_get fun i hi => (hdropped i hi).2]
    simp only [h.readableAt_iff]
    rw [hrun.forall_get fun i hi => (hdropped i hi).1]
  · intro session limit
    rw [RedbJournal.queryBySession_eq, RedbJournal.queryBySession_eq, h.readLive_eq,
      hsession.scan_get fun i hi => (RedbJournal.readLive_eq_ok_iff j now).mpr
        ⟨(hdropped i hi).1, (hdropped i hi).2.symm⟩]
  · intro filter q hf
    exact RedbJournal.aggregate_congr (h.tallied_eq hf) q

end Unnoticed

/-! ## A sweep that shows -/

section Noticed
variable {j : RedbJournal} {now : Time}

/-- What `recent` answers where the rows can be read back. -/
def RedbJournal.shown (j : RedbJournal) (now : Time) (limit : ℕ) : List JournalRow :=
  (j.rows.reverse.take limit).filter fun row => !isExpired now row

theorem RedbJournal.mem_shown {row : JournalRow} {limit : ℕ} (h : row ∈ j.shown now limit) :
    ∃ r ∈ j.events.rows, r.2.row r.1 = row := by
  obtain ⟨htake, -⟩ := List.mem_filter.mp h
  exact List.mem_map.mp (List.mem_reverse.mp (List.mem_of_mem_take htake))

/-- When what is kept can be read back, an unnoticed sweep has removed nothing that cannot. -/
theorem RedbJournal.readable_of_recent_eq (hkept : (j.deleteExpired now).2.Readable)
    (h : ∀ limit, j.recent now limit = (j.deleteExpired now).2.recent now limit) :
    j.Readable ∧ ∀ limit, j.shown now limit = (j.deleteExpired now).2.shown now limit := by
  have hafter : ∀ limit, (j.deleteExpired now).2.recent now limit =
      .ok ((j.deleteExpired now).2.shown now limit) := by
    intro limit
    refine (RedbJournal.recent_eq_ok_iff _ now).mpr ⟨?_, rfl⟩
    intro row hrow
    exact hkept.row (List.mem_reverse.mp (List.mem_of_mem_take hrow))
  have hbefore := fun limit => (RedbJournal.recent_eq_ok_iff j now).mp ((h limit).trans (hafter limit))
  refine ⟨?_, fun limit => (hbefore limit).2.symm⟩
  intro r hr
  refine (hbefore j.rows.length).1 (r.2.row r.1) ?_
  rw [List.take_of_length_le (le_of_eq List.length_reverse), List.mem_reverse]
  exact List.mem_map_of_mem hr

/-- An entry is removed at the instant at which readers still show it. -/
theorem RedbJournal.expired_of_shown_eq
    (h : ∀ limit, j.shown now limit = (j.deleteExpired now).2.shown now limit)
    {r : ℕ × StoredEntry} (hr : r ∈ j.events.rows) (hswept : r.2.isSwept now = true) :
    isExpired now (r.2.row r.1) = true := by
  by_contra hlive
  have hshown : r.2.row r.1 ∈ j.shown now j.rows.length := by
    refine List.mem_filter.mpr ⟨?_, by simpa using hlive⟩
    rw [List.take_of_length_le (le_of_eq List.length_reverse), List.mem_reverse]
    exact List.mem_map.mpr ⟨r, hr, rfl⟩
  rw [h] at hshown
  obtain ⟨r', hr', heq⟩ := RedbJournal.mem_shown hshown
  obtain ⟨hr', hkept⟩ := RedbJournal.mem_deleteExpired.mp hr'
  have hid : r'.1 = r.1 := congrArg JournalRow.id heq
  rw [Table.row_unique hr' hr hid] at hkept
  cases hkept.symm.trans hswept

/-- With a limit that stops just before a live row, the removal of a newer hidden row brings the live
row into view. -/
theorem RedbJournal.older_of_shown_eq
    (h : ∀ limit, j.shown now limit = (j.deleteExpired now).2.shown now limit)
    {r r' : ℕ × StoredEntry} (hr : r ∈ j.events.rows) (hswept : r.2.isSwept now = true)
    (hr' : r' ∈ j.events.rows) (hkept : r'.2.isSwept now = false) : r.1 < r'.1 := by
  by_contra hle
  have hne : r ≠ r' := by
    rintro rfl
    cases hkept.symm.trans hswept
  obtain ⟨older, newer, hrows⟩ := List.append_of_mem hr'
  have hsorted := j.events.sorted
  rw [hrows, List.pairwise_append, List.pairwise_cons] at hsorted
  have hnewer : r ∈ newer := by
    rw [hrows, List.mem_append, List.mem_cons] at hr
    obtain hr | rfl | hr := hr
    · exact absurd (hsorted.2.2 r hr r' (List.mem_cons_self ..)) hle
    · exact absurd rfl hne
    · exact hr
  have hfewer : (newer.filter fun r => !r.2.isSwept now).length < newer.length := by
    refine lt_of_le_of_ne (List.length_filter_le _ _) ?_
    intro hlen
    have hall := List.length_filter_eq_length_iff.mp hlen r hnewer
    rw [hswept] at hall
    cases hall
  have hshown : r'.2.row r'.1 ∈ (j.deleteExpired now).2.shown now newer.length := by
    refine List.mem_filter.mpr ⟨?_, by simp [isExpired_of_kept hkept]⟩
    unfold RedbJournal.rows
    rw [RedbJournal.deleteExpired_rows, hrows, List.filter_append,
      List.filter_cons_of_pos (by rw [hkept]; rfl), List.map_append, List.map_cons,
      List.reverse_append, List.reverse_cons, List.append_assoc, List.singleton_append,
      List.take_append]
    refine List.mem_append_right _ ?_
    rw [List.length_reverse, List.length_map]
    obtain ⟨k, hk⟩ := Nat.exists_eq_succ_of_ne_zero (Nat.sub_ne_zero_of_lt hfewer)
    rw [hk, List.take_succ_cons]
    exact List.mem_cons_self ..
  rw [← h] at hshown
  obtain ⟨htake, -⟩ := List.mem_filter.mp hshown
  unfold RedbJournal.rows at htake
  rw [hrows, List.map_append, List.map_cons, List.reverse_append, List.reverse_cons,
    List.append_assoc, List.take_left' (by rw [List.length_reverse, List.length_map]),
    List.mem_reverse] at htake
  obtain ⟨r'', hr'', heq⟩ := List.mem_map.mp htake
  have hlt := hsorted.2.1.1 r'' hr''
  have hid : r''.1 = r'.1 := congrArg JournalRow.id heq
  exact absurd hid hlt.ne'

/-- A count that includes expired rows sees every removal. -/
theorem RedbJournal.none_swept_of_aggregate_eq {formatUuid : Uuid → String}
    (hkept : (j.deleteExpired now).2.Readable)
    (h : ∀ filter q, j.aggregate formatUuid now filter q =
      (j.deleteExpired now).2.aggregate formatUuid now filter q)
    {r : ℕ × StoredEntry} (hr : r ∈ j.events.rows) : r.2.isSwept now = false := by
  have hcount : ∀ (rows : List JournalRow) (acc : ℕ × Option Time),
      (rows.foldl RedbJournal.tally acc).1 = acc.1 + rows.length := by
    intro rows
    induction rows with
    | nil => exact fun _ => rfl
    | cons row rest ih =>
      intro acc
      rw [List.foldl_cons, ih, RedbJournal.tally, List.length_cons]
      omega
  have hall : ∀ rows : List JournalRow,
      rows.filter (JournalFilter.matches formatUuid { includeExpired := true } now) = rows := by
    intro rows
    rw [List.filter_eq_self]
    intro row _
    simp [JournalFilter.matches]
  have hcounts := h { includeExpired := true } .count
  rw [RedbJournal.aggregate_count, RedbJournal.aggregate_count, hkept.tallied] at hcounts
  cases htallied : j.tallied now formatUuid { includeExpired := true } with
  | error e =>
    rw [htallied] at hcounts
    cases hcounts
  | ok total =>
    have hread := RedbJournal.readable_of_tallied j now formatUuid htallied
    rw [hread.tallied] at hcounts
    simp only [hall, Except.map, hcount, Nat.zero_add, Except.ok.injEq,
      AggregateResult.count.injEq] at hcounts
    unfold RedbJournal.rows at hcounts
    rw [List.length_map, List.length_map, RedbJournal.deleteExpired_rows] at hcounts
    exact (Bool.not_eq_true' _).mp (List.length_filter_eq_length_iff.mp hcounts.symm r hr)

end Noticed

/-- At the instant of a sweep its readers see the same before and after it when what it removes can be
read back, is hidden already and older than what it leaves, and, with aggregates that include expired
entries, when it removes nothing. In a journal where what the sweep leaves can be read back these are
the only cases. -/
theorem sweep_invisible_iff (formatUuid : Uuid → String) (j : RedbJournal) (now : Time) :
    (j.OldestLapsed now → SameReads formatUuid now j (j.deleteExpired now).2) ∧
    ((∀ r ∈ j.events.rows, r.2.isSwept now = false) →
      SameReads formatUuid now j (j.deleteExpired now).2 ∧
        ∀ filter q, j.aggregate formatUuid now filter q =
          (j.deleteExpired now).2.aggregate formatUuid now filter q) ∧
    ((j.deleteExpired now).2.Readable →
      (SameReads formatUuid now j (j.deleteExpired now).2 → j.OldestLapsed now) ∧
      ((∀ filter q, j.aggregate formatUuid now filter q =
          (j.deleteExpired now).2.aggregate formatUuid now filter q) →
        ∀ r ∈ j.events.rows, r.2.isSwept now = false)) := by
  refine ⟨fun h => h.sameReads formatUuid, ?_, fun hkept => ⟨?_, ?_⟩⟩
  · intro h
    rw [RedbJournal.deleteExpired_of_none h]
    exact ⟨⟨fun _ => rfl, fun _ _ => rfl, fun _ => rfl, fun _ _ _ => rfl, fun _ _ _ => rfl,
      fun _ => rfl⟩, fun _ _ => rfl⟩
  · intro h r hr hswept
    obtain ⟨hread, hshown⟩ := RedbJournal.readable_of_recent_eq hkept h.recent
    refine ⟨hread r hr, RedbJournal.expired_of_shown_eq hshown hr hswept, ?_⟩
    intro r' hr' hleft
    exact RedbJournal.older_of_shown_eq hshown hr hswept hr' hleft
  · intro h r hr
    exact RedbJournal.none_swept_of_aggregate_eq hkept h hr

/-- The newest entry has expired and hides an older one of the same key, which the sweep uncovers. -/
theorem sweep_uncovers_older : ∃ (ws : List Write) (now : Time) (j : RedbJournal),
    j = RedbJournal.open_.after ws ∧
      (j.getByIdempotencyKey now "k").map (Option.map JournalRow.id) = .ok none ∧
      ((j.deleteExpired now).2.getByIdempotencyKey now "k").map (Option.map JournalRow.id) =
        .ok (some 1) ∧
      (j.recent now 1).map (List.map JournalRow.id) = .ok [] ∧
      ((j.deleteExpired now).2.recent now 1).map (List.map JournalRow.id) = .ok [1] := by
  refine ⟨[.append 0 (keyedEvent 7 20000 "k"), .append 0 (keyedEvent 8 5000 "k")], 9000, _, rfl, ?_⟩
  decide +kernel

end Konf.Journal
