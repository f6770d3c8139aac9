import Mathlib.Data.Fintype.EquivFin
import Konf.Foundations.Fallible
import Konf.Journal.Indexes

/-! # What the queries return

Each read of the redb journal as a selection from the log, free of loops, with the condition under which
it succeeds, and from that the agreement of the indexed queries with the full scan. -/

namespace Konf.Journal
open Konf.Substrate
set_option autoImplicit false

/-- Every payload of the log parses again. -/
def RedbJournal.Readable (j : RedbJournal) : Prop := ∀ r ∈ j.events.rows, r.2.payload.Readable

instance (j : RedbJournal) : Decidable j.Readable := inferInstanceAs (Decidable (∀ r ∈ _, _))

/-- The entry with this id, if there is one, parses again. -/
def RedbJournal.ReadableAt (j : RedbJournal) (id : ℕ) : Prop :=
  ∀ stored, j.events.get id = some stored → stored.payload.Readable

theorem RedbJournal.Readable.at_ {j : RedbJournal} (h : j.Readable) (id : ℕ) : j.ReadableAt id :=
  fun stored hget => h (id, stored) (Table.get_eq_some_iff.mp hget)

theorem RedbJournal.Readable.row {j : RedbJournal} (h : j.Readable) {row : JournalRow}
    (hrow : row ∈ j.rows) : row.payload.Readable := by
  obtain ⟨r, hr, rfl⟩ := List.mem_map.mp hrow
  exact h r hr

section Entries
variable {stored : StoredEntry} {id : ℕ}

theorem StoredEntry.intoRow_of_readable (h : stored.payload.Readable) :
    stored.intoRow id = .ok (stored.row id) := by
  rw [intoRow, Json.readBack_of_readable h]
  rfl

/-- There is one way for a row not to parse. -/
theorem StoredEntry.intoRow_of_not_readable (h : ¬stored.payload.Readable) :
    stored.intoRow id = .error (.serialization "recursion limit exceeded") := by
  rw [intoRow, Json.readBack_of_not_readable h]
  rfl

theorem StoredEntry.intoRow_error {e : JournalError} (h : stored.intoRow id = .error e) :
    e = .serialization "recursion limit exceeded" := by
  by_cases hread : stored.payload.Readable
  · rw [intoRow_of_readable hread] at h
    cases h
  · rw [intoRow_of_not_readable hread] at h
    cases h
    rfl

theorem StoredEntry.intoRow_eq_ok_iff {row : JournalRow} :
    stored.intoRow id = .ok row ↔ stored.payload.Readable ∧ row = stored.row id := by
  by_cases h : stored.payload.Readable
  · rw [intoRow_of_readable h, Except.ok.injEq, eq_comm]
    exact (and_iff_right h).symm
  · rw [intoRow_of_not_readable h]
    exact iff_of_false nofun fun hrow => h hrow.1

theorem StoredEntry.map_intoRow_eq_ok_iff {β : Type} {g : JournalRow → β} {b : β} :
    (stored.intoRow id >>= fun row => .ok (g row)) = (.ok b : Except JournalError β) ↔
      stored.payload.Readable ∧ b = g (stored.row id) := by
  rw [Fallible.map_eq_ok_iff]
  simp only [intoRow_eq_ok_iff, and_assoc, exists_and_left, exists_eq_left]

theorem isExpired_row (now : Time) (stored : StoredEntry) (id : ℕ) :
    isExpired now (stored.row id) = true ↔
      ∃ micros, stored.validToMicros = some micros ∧ ofTimestampMicros micros < now := by
  unfold isExpired StoredEntry.row
  cases stored.validToMicros with
  | none => simp
  | some micros => simp

/-- The filter and the row predicate decide expiry alike. -/
theorem validTo_all_eq (now : Time) (row : JournalRow) :
    (row.validTo.all fun validTo => !decide (validTo < now)) = !isExpired now row := by
  unfold isExpired
  cases row.validTo with
  | none => rfl
  | some validTo => rfl

end Entries

section Reads
variable (j : RedbJournal) (now : Time)

theorem RedbJournal.rowAt_eq_some_iff {id : ℕ} {row : JournalRow} :
    j.rowAt id = some row ↔ ∃ stored, (id, stored) ∈ j.events.rows ∧ stored.row id = row := by
  rw [RedbJournal.rowAt, Option.map_eq_some_iff]
  simp only [Table.get_eq_some_iff]

theorem RedbJournal.rowAt_id {id : ℕ} {row : JournalRow} (h : j.rowAt id = some row) : row.id = id := by
  obtain ⟨stored, -, rfl⟩ := (RedbJournal.rowAt_eq_some_iff j).mp h
  rfl

theorem RedbJournal.filterMap_rowAt_sorted {ids : List ℕ} (h : ids.Pairwise (· < ·)) :
    (ids.filterMap j.rowAt).Pairwise fun a b => a.id < b.id := by
  refine List.Pairwise.filterMap _ ?_ h
  intro a b hab row hrow row' hrow'
  rw [RedbJournal.rowAt_id j hrow, RedbJournal.rowAt_id j hrow']
  exact hab

theorem RedbJournal.readAt_eq_ok_iff {id : ℕ} {o : Option JournalRow} :
    j.readAt id = .ok o ↔ j.ReadableAt id ∧ o = j.rowAt id := by
  unfold RedbJournal.readAt RedbJournal.ReadableAt RedbJournal.rowAt
  cases j.events.get id with
  | none => simp [pure, Except.pure, eq_comm]
  | some stored =>
    have hstep : (stored.intoRow id >>= fun row => .ok (some row)) = .ok o ↔
        stored.payload.Readable ∧ o = some (stored.row id) := StoredEntry.map_intoRow_eq_ok_iff
    simpa [map_eq_pure_bind, pure, Except.pure] using hstep

theorem RedbJournal.readAt_error {id : ℕ} {e : JournalError} (h : j.readAt id = .error e) :
    e = .serialization "recursion limit exceeded" := by
  unfold RedbJournal.readAt at h
  cases hget : j.events.get id with
  | none =>
    rw [hget] at h
    cases h
  | some stored =>
    rw [hget, Option.mapM_some] at h
    cases hrow : stored.intoRow id with
    | ok row =>
      rw [hrow] at h
      cases h
    | error e' =>
      rw [hrow] at h
      cases h
      exact StoredEntry.intoRow_error hrow

/-- What a query keeps of the entry with an id. -/
def RedbJournal.liveAt (id : ℕ) : Option JournalRow :=
  (j.rowAt id).filter fun row => !isExpired now row

theorem RedbJournal.queryByRun_error {runId : RunId} {e : JournalError}
    (h : j.queryByRun now runId = .error e) : e = .serialization "recursion limit exceeded" := by
  unfold RedbJournal.queryByRun at h
  cases hread : (j.byRun.get runId).mapM j.readAt with
  | ok found =>
    rw [hread] at h
    cases h
  | error e' =>
    rw [hread] at h
    cases h
    obtain ⟨id, -, hid⟩ := Fallible.mapM_error hread
    exact RedbJournal.readAt_error j hid

theorem RedbJournal.queryByRun_eq_ok_iff {runId : RunId} {out : List JournalRow} :
    j.queryByRun now runId = .ok out ↔ (∀ id ∈ j.byRun.get runId, j.ReadableAt id) ∧
      out = (j.byRun.get runId).filterMap (j.liveAt now) := by
  have hsorted := RedbJournal.filterMap_rowAt_sorted j (j.byRun.get_sorted runId)
  have hrows : ((((j.byRun.get runId).map j.rowAt).filterMap id).insertionSort
      fun a b => a.id ≤ b.id).filter (fun row => !isExpired now row) =
        (j.byRun.get runId).filterMap (j.liveAt now) := by
    rw [List.filterMap_map, Function.id_comp, (hsorted.imp fun h => h.le).insertionSort_eq,
      List.filter_filterMap]
    rfl
  rw [RedbJournal.queryByRun, Fallible.map_eq_ok_iff]
  simp only [Fallible.mapM_eq_ok_iff fun _ _ => RedbJournal.readAt_eq_ok_iff j, and_assoc,
    exists_and_left, exists_eq_left, hrows]

/-- What a query by session makes of an id. -/
def RedbJournal.readLive (id : ℕ) : Except JournalError (Option JournalRow) := do
  let row ← j.readAt id
  .ok (row.filter fun row => !isExpired now row)

theorem RedbJournal.readLive_error {id : ℕ} (e : JournalError) (h : j.readLive now id = .error e) :
    e = .serialization "recursion limit exceeded" := by
  unfold RedbJournal.readLive at h
  cases hread : j.readAt id with
  | ok row =>
    rw [hread] at h
    cases h
  | error e' =>
    rw [hread] at h
    cases h
    exact RedbJournal.readAt_error j hread

theorem RedbJournal.readLive_eq_ok_iff {id : ℕ} {o : Option JournalRow} :
    j.readLive now id = .ok o ↔ j.ReadableAt id ∧ o = j.liveAt now id := by
  rw [RedbJournal.readLive, Fallible.map_eq_ok_iff]
  simp only [RedbJournal.readAt_eq_ok_iff, and_assoc, exists_and_left, exists_eq_left]
  rfl

theorem RedbJournal.queryBySession_eq (sessionId : String) (limit : ℕ) :
    j.queryBySession now sessionId limit =
      scanUpTo limit (j.readLive now) (j.bySession.get sessionId).reverse [] := by
  have hsorted := j.bySession.get_sorted sessionId
  unfold RedbJournal.queryBySession
  rw [(hsorted.imp fun h => h.le).insertionSort_eq]
  rfl

theorem RedbJournal.Readable.queryBySession (h : j.Readable) (sessionId : String) (limit : ℕ) :
    j.queryBySession now sessionId limit =
      .ok (((j.bySession.get sessionId).reverse.filterMap (j.liveAt now)).take limit) := by
  rw [RedbJournal.queryBySession_eq]
  exact scanUpTo_eq_ok (fun _ _ => RedbJournal.readLive_eq_ok_iff j now) fun id _ => h.at_ id

theorem RedbJournal.recent_error {limit : ℕ} {e : JournalError} (h : j.recent now limit = .error e) :
    e = .serialization "recursion limit exceeded" := by
  unfold RedbJournal.recent at h
  cases hread : (j.events.rows.reverse.take limit).mapM fun r => r.2.intoRow r.1 with
  | ok rows =>
    rw [hread] at h
    cases h
  | error e' =>
    rw [hread] at h
    cases h
    obtain ⟨r, -, hr⟩ := Fallible.mapM_error hread
    exact StoredEntry.intoRow_error hr

theorem RedbJournal.recent_eq_ok_iff {limit : ℕ} {out : List JournalRow} :
    j.recent now limit = .ok out ↔ (∀ row ∈ j.rows.reverse.take limit, row.payload.Readable) ∧
      out = (j.rows.reverse.take limit).filter fun row => !isExpired now row := by
  have hrows : j.rows.reverse.take limit =
      (j.events.rows.reverse.take limit).map fun r => r.2.row r.1 := by
    rw [List.map_take, List.map_reverse]
    rfl
  rw [RedbJournal.recent, Fallible.map_eq_ok_iff, hrows, List.forall_mem_map]
  simp only [Fallible.mapM_eq_ok_iff fun _ _ => StoredEntry.intoRow_eq_ok_iff, and_assoc,
    exists_and_left, exists_eq_left]
  rfl

variable (formatUuid : Uuid → String)

/-- What `query` makes of an entry. -/
theorem readSelected_eq_ok_iff {now : Time} {filter : JournalFilter} {r : ℕ × StoredEntry}
    {o : Option JournalRow} :
    (r.2.intoRow r.1 >>= fun row =>
        .ok (if filter.matches formatUuid now row then some row else none)) =
        (.ok o : Except JournalError (Option JournalRow)) ↔
      r.2.payload.Readable ∧
        o = if filter.matches formatUuid now (r.2.row r.1) then some (r.2.row r.1) else none :=
  StoredEntry.map_intoRow_eq_ok_iff

theorem filterMap_selected {now : Time} {filter : JournalFilter} (l : List (ℕ × StoredEntry)) :
    (l.filterMap fun r =>
      if filter.matches formatUuid now (r.2.row r.1) then some (r.2.row r.1) else none) =
        (l.map fun r => r.2.row r.1).filter (filter.matches formatUuid now) := by
  rw [← List.filterMap_eq_filter, List.filterMap_map]
  rfl

theorem RedbJournal.query_eq_ok_iff {filter : JournalFilter} {limit : ℕ} {out : List JournalRow} :
    j.query formatUuid now filter limit = .ok out ↔
      (∀ newer row older, j.rows.reverse = newer ++ row :: older → ¬row.payload.Readable →
        limit ≤ (newer.filter (filter.matches formatUuid now)).length) ∧
      out = (j.rows.reverse.filter (filter.matches formatUuid now)).take limit := by
  have hrows : j.events.rows.reverse.map (fun r => r.2.row r.1) = j.rows.reverse := List.map_reverse
  rw [← hrows, forall_split_map]
  have hscan : j.query formatUuid now filter limit = .ok out ↔ _ :=
    scanUpTo_eq_ok_iff fun _ _ => readSelected_eq_ok_iff formatUuid
  simp only [filterMap_selected] at hscan
  exact hscan

theorem RedbJournal.Readable.query (h : j.Readable) (filter : JournalFilter) (limit : ℕ) :
    j.query formatUuid now filter limit =
      .ok ((j.rows.reverse.filter (filter.matches formatUuid now)).take limit) := by
  refine (RedbJournal.query_eq_ok_iff j now formatUuid).mpr ⟨?_, rfl⟩
  intro newer row older heq hdeep
  have hrow : row ∈ j.rows := List.mem_reverse.mp (heq ▸ by simp)
  exact absurd (h.row hrow) hdeep

/-- The loop of `aggregate`. -/
def RedbJournal.tallied (filter : JournalFilter) : Except JournalError (ℕ × Option Time) :=
  j.events.rows.foldlM (fun acc r => do
    let row ← r.2.intoRow r.1
    .ok (if filter.matches formatUuid now row then RedbJournal.tally acc row else acc)) (0, none)

theorem RedbJournal.Readable.tallied (h : j.Readable) (filter : JournalFilter) :
    j.tallied now formatUuid filter =
      .ok ((j.rows.filter (filter.matches formatUuid now)).foldl RedbJournal.tally (0, none)) := by
  rw [List.foldl_filter, RedbJournal.rows, List.foldl_map]
  refine Fallible.foldlM_eq_ok ?_ _
  intro r hr acc
  exact StoredEntry.map_intoRow_eq_ok_iff.mpr ⟨h r hr, rfl⟩

/-- A tally that succeeds has read every entry. -/
theorem RedbJournal.readable_of_tallied {filter : JournalFilter} {total : ℕ × Option Time}
    (h : j.tallied now formatUuid filter = .ok total) : j.Readable := by
  intro r hr
  obtain ⟨before, after, hstep⟩ := Fallible.foldlM_ok h r hr
  exact (StoredEntry.map_intoRow_eq_ok_iff.mp hstep).1

/-- An aggregate depends on its tally alone. -/
theorem RedbJournal.aggregate_congr {formatUuid : Uuid → String} {j j' : RedbJournal} {now : Time}
    {filter : JournalFilter}
    (h : j.tallied now formatUuid filter = j'.tallied now formatUuid filter) (q : AggregateQuery) :
    j.aggregate formatUuid now filter q = j'.aggregate formatUuid now filter q := by
  unfold RedbJournal.aggregate
  exact congrArg (· >>= _) h

theorem RedbJournal.aggregate_count (filter : JournalFilter) :
    j.aggregate formatUuid now filter .count =
      (j.tallied now formatUuid filter).map fun total => .count total.1 := by
  unfold RedbJournal.aggregate RedbJournal.tallied
  rfl

theorem RedbJournal.aggregate_mostRecent (filter : JournalFilter) :
    j.aggregate formatUuid now filter .mostRecent =
      (j.tallied now formatUuid filter).map fun total => .mostRecent total.2 := by
  unfold RedbJournal.aggregate RedbJournal.tallied
  rfl

/-- The entries that a lookup by key sees. -/
def RedbJournal.entryAt (id : ℕ) : Option (ℕ × StoredEntry) := (j.events.get id).map (id, ·)

theorem RedbJournal.filterMap_entryAt_sorted {ids : List ℕ} (h : ids.Pairwise (· < ·)) :
    (ids.filterMap j.entryAt).Pairwise fun a b => a.1 < b.1 := by
  refine List.Pairwise.filterMap _ ?_ h
  intro a b hab e he e' he'
  obtain ⟨stored, -, rfl⟩ := Option.map_eq_some_iff.mp he
  obtain ⟨stored', -, rfl⟩ := Option.map_eq_some_iff.mp he'
  exact hab

theorem RedbJournal.foldl_better_eq {ids : List ℕ} (hids : ids.Pairwise (· < ·))
    {best : Option (ℕ × StoredEntry)} (hbest : ∀ b, best = some b → ∀ i ∈ ids, b.1 < i) :
    ids.foldl j.better best = (ids.filterMap j.entryAt).getLast?.or best := by
  induction ids generalizing best with
  | nil => rfl
  | cons i rest ih =>
    rw [List.pairwise_cons] at hids
    have hstep : j.better best i = (j.entryAt i).or best := by
      unfold RedbJournal.better RedbJournal.entryAt
      cases best with
      | none => simp
      | some b =>
        have hlt := hbest b rfl i (List.mem_cons_self ..)
        exact if_neg (Nat.not_le.mpr hlt)
    rw [List.foldl_cons, hstep, ih hids.2 ?_]
    · cases hi : j.entryAt i with
      | none => rw [List.filterMap_cons_none hi, Option.none_or]
      | some e =>
        rw [List.filterMap_cons_some hi, List.getLast?_cons, Option.some_or]
        cases (rest.filterMap j.entryAt).getLast? with
        | none => rfl
        | some e' => rfl
    · intro b hb k hk
      cases hi : j.entryAt i with
      | none =>
        rw [hi, Option.none_or] at hb
        exact hbest b hb k (List.mem_cons_of_mem _ hk)
      | some e =>
        rw [hi, Option.some_or, Option.some.injEq] at hb
        obtain ⟨stored, -, rfl⟩ := Option.map_eq_some_iff.mp hi
        rw [← hb]
        exact hids.1 k hk

/-- What a lookup by key makes of the newest entry of the key. -/
def readNewest (e : ℕ × StoredEntry) : Except JournalError (Option JournalRow) := do
  let row ← e.2.intoRow e.1
  .ok (if isExpired now row then none else some row)

/-- A lookup by key takes the newest entry of the key and then asks whether it has expired. -/
theorem RedbJournal.getByIdempotencyKey_eq (key : String) :
    j.getByIdempotencyKey now key =
      (((j.byIdempotency.get key).filterMap j.entryAt).getLast?.elim (.ok none) (readNewest now)) := by
  unfold RedbJournal.getByIdempotencyKey
  rw [RedbJournal.foldl_better_eq j (j.byIdempotency.get_sorted key) (fun b hb => by cases hb),
    Option.or_none]
  cases ((j.byIdempotency.get key).filterMap j.entryAt).getLast? with
  | none => rfl
  | some e => rfl

end Reads

/-! ## Indexed queries and the full scan -/

section Agreement
variable {j : RedbJournal} {now : Time}

/-- Looking up the ids of some rows of the log gives back those of the rows that are live. -/
theorem RedbJournal.filterMap_liveAt {l : List (ℕ × StoredEntry)} (hl : ∀ r ∈ l, r ∈ j.events.rows) :
    (l.map Prod.fst).filterMap (j.liveAt now) =
      (l.map fun r => r.2.row r.1).filter fun row => !isExpired now row := by
  induction l with
  | nil => rfl
  | cons r rest ih =>
    have hrow : j.rowAt r.1 = some (r.2.row r.1) :=
      (RedbJournal.rowAt_eq_some_iff j).mpr ⟨r.2, hl r (List.mem_cons_self ..), rfl⟩
    have hrest := ih fun r' hr' => hl r' (List.mem_cons_of_mem _ hr')
    rw [List.map_cons, List.map_cons, List.filter_cons]
    cases hx : isExpired now (r.2.row r.1) with
    | true =>
      rw [List.filterMap_cons_none (by rw [RedbJournal.liveAt, hrow]; simp [hx]), hrest]
      rfl
    | false =>
      rw [List.filterMap_cons_some (b := r.2.row r.1)
        (by rw [RedbJournal.liveAt, hrow]; simp [hx]), hrest]
      rfl

/-- A lookup of all ids with a key is a filtered scan of the log. -/
theorem RedbJournal.lookup_eq_scan {K : Type} [DecidableEq K] {m : Multimap K ℕ}
    {key : StoredEntry → Option K} (h : m.Indexes j.events key) {k : K} {keep : JournalRow → Bool}
    (hkeep : ∀ stored id, keep (stored.row id) =
      (decide (key stored = some k) && !isExpired now (stored.row id))) :
    (m.get k).filterMap (j.liveAt now) = j.rows.filter keep := by
  rw [h.get_eq k, RedbJournal.filterMap_liveAt fun r hr => (List.mem_filter.mp hr).1,
    RedbJournal.rows, List.filter_map, List.filter_map, List.filter_filter]
  congr 1
  refine List.filter_congr ?_
  intro r _
  rw [Function.comp_apply, Function.comp_apply, hkeep, Bool.and_comm]

theorem RedbJournal.filterMap_entryAt {l : List (ℕ × StoredEntry)} (hl : ∀ r ∈ l, r ∈ j.events.rows) :
    (l.map Prod.fst).filterMap j.entryAt = l := by
  rw [List.filterMap_map]
  refine (List.filterMap_congr ?_).trans List.filterMap_some
  intro r hr
  rw [Function.comp_apply, RedbJournal.entryAt, Table.get_eq_some_iff.mpr (hl r hr), Option.map_some]

/-- In the log, a lookup by key is about the last row of the key. -/
theorem RedbJournal.Mirrors.getByIdempotencyKey_eq (h : j.Mirrors) (key : String) :
    j.getByIdempotencyKey now key =
      (j.events.rows.filter fun r => r.2.idempotencyKey = some key).getLast?.elim (.ok none)
        (readNewest now) := by
  rw [RedbJournal.getByIdempotencyKey_eq, h.byIdempotency.get_eq,
    RedbJournal.filterMap_entryAt fun r hr => (List.mem_filter.mp hr).1]

theorem RedbJournal.Mirrors.getByIdempotencyKey_eq_none (h : j.Mirrors) {key : String}
    (hnone : ∀ r ∈ j.events.rows, r.2.idempotencyKey ≠ some key) :
    j.getByIdempotencyKey now key = .ok none := by
  have hempty : (j.events.rows.filter fun r => r.2.idempotencyKey = some key) = [] := by
    rw [List.filter_eq_nil_iff]
    intro r hr
    simpa using hnone r hr
  rw [h.getByIdempotencyKey_eq, hempty]
  rfl

theorem RedbJournal.Mirrors.mem_of_getByIdempotencyKey (h : j.Mirrors) {key : String}
    {row : JournalRow} (hrow : j.getByIdempotencyKey now key = .ok (some row)) :
    ∃ stored, (row.id, stored) ∈ j.events.rows ∧ stored.idempotencyKey = some key := by
  rw [h.getByIdempotencyKey_eq] at hrow
  cases hlast : (j.events.rows.filter fun r => r.2.idempotencyKey = some key).getLast? with
  | none =>
    rw [hlast] at hrow
    cases hrow
  | some r =>
    rw [hlast] at hrow
    obtain ⟨hr, hkey⟩ := List.mem_filter.mp (List.mem_of_getLast? hlast)
    obtain ⟨-, hfound⟩ := StoredEntry.map_intoRow_eq_ok_iff.mp hrow
    split_ifs at hfound
    cases hfound
    exact ⟨r.2, hr, of_decide_eq_true hkey⟩

/-- An entry that never expires is found right after it has been appended, when its payload can be read
back. -/
theorem RedbJournal.Mirrors.getByIdempotencyKey_append (h : j.Mirrors) (at_ : Time)
    {entry : JournalEntry} {key : String} (hkey : entry.idempotencyKey = some key)
    (hforever : entry.validTo = none) (hread : entry.payload.Readable) :
    (j.append at_ entry).2.getByIdempotencyKey now key =
      .ok (some ((StoredEntry.fromEntry at_ entry).row j.nextId)) := by
  have hlive : isExpired now ((StoredEntry.fromEntry at_ entry).row j.nextId) = false := by
    simp [isExpired, StoredEntry.row, StoredEntry.fromEntry, hforever]
  have hnew : decide ((StoredEntry.fromEntry at_ entry).idempotencyKey = some key) = true :=
    decide_eq_true hkey
  rw [(h.append at_ entry).getByIdempotencyKey_eq, RedbJournal.append_rows, List.filter_append,
    List.filter_singleton, hnew, cond_true, List.getLast?_concat, Option.elim_some]
  refine StoredEntry.map_intoRow_eq_ok_iff.mpr ⟨hread, ?_⟩
  rw [hlive, if_neg Bool.false_ne_true]

end Agreement

theorem matches_session (formatUuid : Uuid → String) (now : Time) (session : String)
    (row : JournalRow) :
    ({ sessionId := some session } : JournalFilter).matches formatUuid now row =
      (decide (row.sessionId = session) && !isExpired now row) := by
  simp [JournalFilter.matches, validTo_all_eq, beq_eq_decide]

theorem matches_run (formatUuid : Uuid → String) (now : Time) (run : RunId) (row : JournalRow) :
    ({ runId := some run } : JournalFilter).matches formatUuid now row =
      (decide (row.runId = some run) && !isExpired now row) := by
  simp [JournalFilter.matches, validTo_all_eq, beq_eq_decide]

/-- A limit that lets nothing through aside, a query for a session without rows reads the whole log. -/
theorem RedbJournal.readable_of_query_session {formatUuid : Uuid → String} {j : RedbJournal}
    {now : Time} {session : String}
    (hfresh : ∀ r ∈ j.events.rows, r.2.sessionId ≠ session) {out : List JournalRow}
    (h : j.query formatUuid now { sessionId := some session } 1 = .ok out) : j.Readable := by
  intro r hr
  by_contra hdeep
  have hmem : r.2.row r.1 ∈ j.rows := List.mem_map_of_mem hr
  obtain ⟨newer, older, heq⟩ := List.append_of_mem (List.mem_reverse.mpr hmem)
  obtain ⟨hscan, -⟩ := (RedbJournal.query_eq_ok_iff j now formatUuid).mp h
  have hmatched := hscan newer (r.2.row r.1) older heq hdeep
  obtain ⟨row, hrow⟩ := List.exists_mem_of_length_pos hmatched
  obtain ⟨hrow, hmatches⟩ := List.mem_filter.mp hrow
  rw [matches_session, Bool.and_eq_true, decide_eq_true_eq] at hmatches
  have hkept : row ∈ j.rows := by
    rw [← List.mem_reverse, heq]
    exact List.mem_append_left _ hrow
  obtain ⟨r', hr', rfl⟩ := List.mem_map.mp hkept
  exact hfresh r' hr' hmatches.1

/-- In a reachable journal the query by session is the full scan for the session, with the same limit,
and the query by run is the full scan for the run, oldest first, exactly when every payload of the log
can be read back: the indexed queries read the rows of their key only, the scan all of them. -/
theorem indexed_queries_scan_iff (formatUuid : Uuid → String) (j : RedbJournal) (h : j.Reachable)
    (now : Time) :
    ((∀ session limit, j.queryBySession now session limit =
      j.query formatUuid now { sessionId := some session } limit) ∧
    ∀ run, j.queryByRun now run =
      (j.query formatUuid now { runId := some run } j.events.rows.length).map List.reverse) ↔
    j.Readable := by
  have hm := h.mirrors
  constructor
  · rintro ⟨hsession, -⟩
    obtain ⟨session, hfresh⟩ :=
      Infinite.exists_notMem_finset (j.events.rows.map fun r => r.2.sessionId).toFinset
    have hnone : ∀ r ∈ j.events.rows, r.2.sessionId ≠ session := by
      rintro r hr rfl
      exact hfresh (List.mem_toFinset.mpr (List.mem_map_of_mem hr))
    have hempty : j.bySession.get session = [] := by
      rw [hm.bySession.get_eq, List.map_eq_nil_iff, List.filter_eq_nil_iff]
      intro r hr
      simpa using hnone r hr
    have hindexed : j.queryBySession now session 1 = .ok [] := by
      rw [RedbJournal.queryBySession_eq, hempty]
      rfl
    exact RedbJournal.readable_of_query_session hnone ((hsession session 1).symm.trans hindexed)
  · intro hread
    constructor
    · intro session limit
      rw [hread.queryBySession, hread.query, List.filterMap_reverse, List.filter_reverse,
        RedbJournal.lookup_eq_scan hm.bySession]
      intro stored id
      rw [matches_session]
      congr 1
      exact decide_eq_decide.mpr Option.some_inj.symm
    · intro run
      have hall : (j.rows.reverse.filter
          (JournalFilter.matches formatUuid { runId := some run } now)).length ≤
            j.events.rows.length := by
        refine (List.length_filter_le _ _).trans ?_
        rw [List.length_reverse, RedbJournal.rows, List.length_map]
      rw [hread.query, List.take_of_length_le hall, Except.map, List.filter_reverse,
        List.reverse_reverse]
      refine (RedbJournal.queryByRun_eq_ok_iff j now).mpr ⟨fun id _ => hread.at_ id, ?_⟩
      refine (RedbJournal.lookup_eq_scan hm.byRun ?_).symm
      intro stored id
      rw [matches_run]
      rfl

def mixedJournal : RedbJournal :=
  RedbJournal.open_.after
    [.append 0 (runEvent 7 "workflow_started"), .append 0 (keyedEvent 7 5000 "k")]

theorem mixed_queries_scan :
    mixedJournal.queryBySession 9000 "s" 5 =
      mixedJournal.query toString 9000 { sessionId := some "s" } 5 ∧
    (mixedJournal.queryByRun 9000 7).map (List.map JournalRow.id) = .ok [1] := by
  have hreach : mixedJournal.Reachable :=
    RedbJournal.Reachable.after (Transition.ReachesBy.start rfl) _
  refine ⟨((indexed_queries_scan_iff toString mixedJournal hreach 9000).mpr ?_).1 "s" 5, ?_⟩
  · decide +kernel
  · decide +kernel

/-- An event of another session, whose payload is too deep to be read back. -/
def deepEvent : JournalEntry := { runEvent 8 "note" with sessionId := "t", payload := .wrap 128 .null }

/-- The run's own rows answer by session, and not by the scan that meets the deep row first. -/
theorem deep_row_fails_scan :
    (mixedJournal.after [.append 0 deepEvent]).Reachable ∧
    ((mixedJournal.after [.append 0 deepEvent]).queryBySession 9000 "s" 5).isOk = true ∧
    ((mixedJournal.after [.append 0 deepEvent]).query toString 9000 { sessionId := some "s" } 5).isOk =
      false := by
  refine ⟨?_, ?_, ?_⟩
  · exact RedbJournal.Reachable.after (RedbJournal.Reachable.after (Transition.ReachesBy.start rfl) _) _
  · decide +kernel
  · decide +kernel

end Konf.Journal
