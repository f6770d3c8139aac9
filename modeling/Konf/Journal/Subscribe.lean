import Konf.Foundations.Transition
import Konf.Journal.Queries
import Konf.Journal.Indexes

/-! # Subscriptions

Model of `konf-runtime/src/journal/subscribe.rs`: a subscription joins the event bus, replays what the
journal has, and then looks up each entry that the bus announces. The dispatcher and the runtime hooks
append an entry first and announce it afterwards, so appends, announcements, the replay and the lookups
interleave. The bus does not lag and the receiver keeps up: what is sent has been delivered.

A lookup reads the newest row only. It finds the entry that was announced if no other entry has been
appended since, and it finds it again if the replay had it already. Either read fails at a row that
cannot be read back, and then delivers nothing. -/

namespace Konf.Journal
open Konf.Substrate Konf.Transition
set_option autoImplicit false

/-! ## The system -/

/-- `RunEvent::JournalAppended`. -/
structure Announcement where
  sequence : ℕ
  eventType : String
  namespace_ : String

inductive SubscriberPc
  | replaying
  | receiving
  | looking (sequence : ℕ)

/-- The journal, the entries that are not announced yet, what the bus holds for the subscriber, and the
subscriber. `replayed` is a ghost: when the replay ran, and the ids that the journal had then; none if
the replay has failed. -/
structure Feed where
  journal : RedbJournal
  unsent : List Announcement
  bus : List Announcement
  pc : SubscriberPc
  delivered : List JournalRow
  replayed : Option (Time × List ℕ)

inductive FeedMove
  | append
  | emit
  | replay
  | replayFailed (now : Time)
  | recv
  | lookup (now : Time)

section System
variable (formatUuid : Uuid → String) (filter : JournalFilter) (replayLimit : ℕ)

/-- The check on the fields of the event. -/
def preFilter (a : Announcement) : Bool :=
  filter.namespace_.all (a.namespace_ == ·) && filter.eventType.all (a.eventType == ·)

/-- The rows that a lookup sends. -/
def lookUp (j : RedbJournal) (now : Time) (sequence : ℕ) : List JournalRow :=
  match j.recent now 1 with
  | .ok rows => rows.filter fun row => row.id == sequence && filter.matches formatUuid now row
  | .error _ => []

inductive FeedStep (s : Feed) : FeedMove → Feed → Prop
  -- neither the dispatcher nor the hooks set an expiry
  | append (now : Time) (entry : JournalEntry) (hforever : entry.validTo = none) :
      FeedStep s .append
        { s with
          journal := (s.journal.append now entry).2
          unsent := s.unsent ++
            [⟨(s.journal.append now entry).1, entry.eventType, entry.namespace_⟩] }
  | emit (pre post : List Announcement) {a : Announcement} (h : s.unsent = pre ++ a :: post) :
      FeedStep s .emit { s with unsent := pre ++ post, bus := s.bus ++ [a] }
  | replay (now : Time) {rows : List JournalRow} (hpc : s.pc = .replaying)
      (hlimit : (s.journal.rows.filter (filter.matches formatUuid now)).length ≤ replayLimit)
      (hquery : s.journal.query formatUuid now filter replayLimit = .ok rows) :
      FeedStep s .replay
        { s with
          pc := .receiving
          delivered := s.delivered ++ rows
          replayed := some (now, s.journal.rows.map (·.id)) }
  | replayFailed (now : Time) {e : JournalError} (hpc : s.pc = .replaying)
      (hlimit : (s.journal.rows.filter (filter.matches formatUuid now)).length ≤ replayLimit)
      (hquery : s.journal.query formatUuid now filter replayLimit = .error e) :
      FeedStep s (.replayFailed now) { s with pc := .receiving, replayed := some (now, []) }
  | recv {a : Announcement} {rest : List Announcement} (hpc : s.pc = .receiving)
      (hbus : s.bus = a :: rest) :
      FeedStep s .recv
        { s with bus := rest, pc := if preFilter filter a then .looking a.sequence else .receiving }
  | lookup (now : Time) {sequence : ℕ} (hpc : s.pc = .looking sequence) :
      FeedStep s (.lookup now)
        { s with
          pc := .receiving
          delivered := s.delivered ++ lookUp formatUuid filter s.journal now sequence }

/-- The state in which the subscription starts: entries that the journal has may still wait for their
announcement. -/
structure Feed.Started (s : Feed) : Prop where
  pc : s.pc = .replaying
  bus : s.bus = []
  delivered : s.delivered = []
  replayed : s.replayed = none
  distinct : (s.unsent.map (·.sequence)).Nodup
  unsent : ∀ a ∈ s.unsent, ∃ row ∈ s.journal.rows, row.id = a.sequence ∧
    row.eventType = a.eventType ∧ row.namespace_ = a.namespace_ ∧ row.validTo = none

/-! ## Exactly once -/

/-- The announcements on their way, by sequence. -/
def SubscriberPc.looked : SubscriberPc → List ℕ
  | .looking sequence => [sequence]
  | .replaying | .receiving => []

def Feed.pending (s : Feed) : List ℕ :=
  s.unsent.map (·.sequence) ++ s.bus.map (·.sequence) ++ s.pc.looked

def Feed.deliveries (s : Feed) (id : ℕ) : ℕ := s.delivered.countP fun row => row.id = id

/-- After the replay: an entry that matches has been delivered once at most, and once if its
announcement is not on the way. -/
def Feed.ExactlyOnce (s : Feed) : Prop :=
  ∀ at_ old, s.replayed = some (at_, old) → ∀ row ∈ s.journal.rows,
    filter.matches formatUuid at_ row = true →
      s.deliveries row.id ≤ 1 ∧ (row.id ∉ s.pending → s.deliveries row.id = 1)

/-- A lookup of an entry that matches comes while the entry is the newest row, and finds that it can be
read back, if and only if the replay did not have it; and a replay fails only while every entry that
matches is still to be looked up. -/
def LooksUpNewest (s : Feed) : FeedMove → Prop
  | .lookup now => ∀ sequence, s.pc = .looking sequence → ∀ at_ old, s.replayed = some (at_, old) →
    ∀ row ∈ s.journal.rows, row.id = sequence → filter.matches formatUuid now row = true →
      (s.journal.rows.getLast? = some row ∧ row.payload.Readable ↔ sequence ∉ old)
  | .replayFailed now => ∀ row ∈ s.journal.rows, filter.matches formatUuid now row = true →
      row.id ∈ s.pending
  | _ => True

end System

/-! ## Rows -/

section Rows
variable {j : RedbJournal} {now : Time} {row row' : JournalRow}

theorem RedbJournal.rows_append (j : RedbJournal) (now : Time) (entry : JournalEntry) :
    (j.append now entry).2.rows = j.rows ++ [(StoredEntry.fromEntry now entry).row j.nextId] := by
  rw [RedbJournal.rows, RedbJournal.append_rows, List.map_append]
  rfl

theorem RedbJournal.row_lt_nextId (h : row ∈ j.rows) : row.id < j.nextId := by
  obtain ⟨r, hr, rfl⟩ := List.mem_map.mp h
  exact RedbJournal.lt_nextId hr

theorem RedbJournal.row_ids_nodup (j : RedbJournal) : (j.rows.map (·.id)).Nodup := by
  have hids : j.rows.map (·.id) = j.events.rows.map Prod.fst := by
    rw [RedbJournal.rows, List.map_map]
    rfl
  rw [hids]
  exact j.events.keys_nodup

theorem RedbJournal.row_of_id (h : row ∈ j.rows) (h' : row' ∈ j.rows) (hid : row.id = row'.id) :
    row = row' :=
  List.inj_on_of_nodup_map j.row_ids_nodup h h' hid

theorem countP_row_id {rows : List JournalRow} (hdistinct : (rows.map (·.id)).Nodup)
    (h : row ∈ rows) : (rows.countP fun r => r.id = row.id) = 1 := by
  have hcount : (rows.countP fun r => r.id = row.id) = (rows.map (·.id)).count row.id := by
    rw [List.count, List.countP_map]
    rfl
  rw [hcount]
  exact List.count_eq_one_of_mem hdistinct (List.mem_map_of_mem h)

theorem RedbJournal.recent_one_eq_ok_iff (j : RedbJournal) (now : Time) {rows : List JournalRow} :
    j.recent now 1 = .ok rows ↔ (∀ row, j.rows.getLast? = some row → row.payload.Readable) ∧
      rows = j.rows.getLast?.toList.filter fun row => !isExpired now row := by
  rw [RedbJournal.recent_eq_ok_iff, List.take_one, List.head?_reverse]
  simp only [Option.mem_toList]

end Rows

section Lookup
variable {formatUuid : Uuid → String} {filter : JournalFilter} {j : RedbJournal} {now now' : Time}
  {row : JournalRow}

/-- Whether an entry without an expiry matches does not depend on the clock. -/
theorem matches_forever (h : row.validTo = none) :
    filter.matches formatUuid now row = filter.matches formatUuid now' row := by
  simp only [JournalFilter.matches, h, Option.all_none]

theorem preFilter_of_matches (h : filter.matches formatUuid now row = true) {a : Announcement}
    (htype : row.eventType = a.eventType) (hspace : row.namespace_ = a.namespace_) :
    preFilter filter a = true := by
  simp only [JournalFilter.matches, Bool.and_eq_true] at h
  obtain ⟨⟨⟨⟨⟨hns, htp⟩, _⟩, _⟩, _⟩, _⟩ := h
  rw [hspace] at hns
  rw [htype] at htp
  rw [preFilter, Bool.and_eq_true]
  exact ⟨hns, htp⟩

theorem lookUp_sublist (sequence : ℕ) :
    (lookUp formatUuid filter j now sequence).Sublist j.rows.getLast?.toList := by
  unfold lookUp
  cases hrecent : j.recent now 1 with
  | error e => exact List.nil_sublist _
  | ok rows =>
    obtain ⟨-, rfl⟩ := (j.recent_one_eq_ok_iff now).mp hrecent
    exact List.filter_sublist.trans List.filter_sublist

theorem mem_lookUp {sequence : ℕ} : row ∈ lookUp formatUuid filter j now sequence →
    (j.rows.getLast? = some row ∧ row.payload.Readable) ∧ row.id = sequence ∧
      filter.matches formatUuid now row = true := by
  intro h
  have hlast : j.rows.getLast? = some row := Option.mem_toList.mp ((lookUp_sublist sequence).subset h)
  unfold lookUp at h
  cases hrecent : j.recent now 1 with
  | error e =>
    rw [hrecent] at h
    cases h
  | ok rows =>
    rw [hrecent] at h
    have hread := ((j.recent_one_eq_ok_iff now).mp hrecent).1 row hlast
    have hfilter := (List.mem_filter.mp h).2
    rw [Bool.and_eq_true, beq_iff_eq] at hfilter
    exact ⟨⟨hlast, hread⟩, hfilter⟩

theorem lookUp_newest (hlast : j.rows.getLast? = some row) (hread : row.payload.Readable)
    (hforever : row.validTo = none) (hmatches : filter.matches formatUuid now row = true) :
    lookUp formatUuid filter j now row.id = [row] := by
  have hlive : isExpired now row = false := by
    rw [isExpired, hforever]
    rfl
  have hrecent : j.recent now 1 = .ok [row] := by
    rw [RedbJournal.recent_one_eq_ok_iff, hlast]
    refine ⟨?_, by simp [hlive]⟩
    rintro _ ⟨⟩
    exact hread
  rw [lookUp, hrecent]
  simp [hmatches]

end Lookup

/-! ## The invariant -/

/-- What a run keeps whose lookups come in time. -/
structure Feed.Sound (formatUuid : Uuid → String) (filter : JournalFilter) (s : Feed) : Prop where
  announced : ∀ a ∈ s.unsent ++ s.bus, ∃ row ∈ s.journal.rows, row.id = a.sequence ∧
    row.eventType = a.eventType ∧ row.namespace_ = a.namespace_ ∧ row.validTo = none
  looked : ∀ sequence, s.pc = .looking sequence → ∃ row ∈ s.journal.rows, row.id = sequence ∧
    row.validTo = none
  distinct : s.pending.Nodup
  replaying : s.replayed = none → s.pc = .replaying
  undelivered : s.pc = .replaying → s.delivered = []
  delivered : ∀ row ∈ s.delivered, row ∈ s.journal.rows
  old : ∀ at_ old, s.replayed = some (at_, old) → ∀ id ∈ old, id < s.journal.nextId
  replay : ∀ at_ old, s.replayed = some (at_, old) → ∀ row ∈ s.journal.rows, row.id ∈ old →
    filter.matches formatUuid at_ row = true → s.deliveries row.id = 1
  live : ∀ at_ old, s.replayed = some (at_, old) → ∀ row ∈ s.journal.rows, row.id ∉ old →
    filter.matches formatUuid at_ row = true → row.validTo = none ∧
      s.deliveries row.id = if row.id ∈ s.pending then 0 else 1

namespace Feed.Sound

variable {formatUuid : Uuid → String} {filter : JournalFilter} {s s' : Feed}

theorem exactlyOnce (h : s.Sound formatUuid filter) : s.ExactlyOnce formatUuid filter := by
  intro at_ old hreplayed row hrow hmatches
  by_cases hold : row.id ∈ old
  · have hone := h.replay at_ old hreplayed row hrow hold hmatches
    exact ⟨hone.le, fun _ => hone⟩
  · obtain ⟨_, hcount⟩ := h.live at_ old hreplayed row hrow hold hmatches
    by_cases hpending : row.id ∈ s.pending
    · rw [if_pos hpending] at hcount
      exact ⟨by omega, fun hnot => absurd hpending hnot⟩
    · rw [if_neg hpending] at hcount
      exact ⟨hcount.le, fun _ => hcount⟩

theorem forwarded (h : s.Sound formatUuid filter) (hjournal : s'.journal = s.journal)
    (hdelivered : s'.delivered = s.delivered) (hreplayed : s'.replayed = s.replayed)
    (hpending : s'.pending.Perm s.pending)
    (hannounced : ∀ a ∈ s'.unsent ++ s'.bus, a ∈ s.unsent ++ s.bus)
    (hlooked : ∀ sequence, s'.pc = .looking sequence → ∃ row ∈ s.journal.rows, row.id = sequence ∧
      row.validTo = none)
    (hreplaying : s.replayed = none → s'.pc = .replaying)
    (hundelivered : s'.pc = .replaying → s.pc = .replaying) : s'.Sound formatUuid filter where
  announced a ha := hjournal ▸ h.announced a (hannounced a ha)
  looked sequence hpc := hjournal ▸ hlooked sequence hpc
  distinct := hpending.nodup_iff.mpr h.distinct
  replaying hr := hreplaying (hreplayed ▸ hr)
  undelivered hpc := hdelivered.trans (h.undelivered (hundelivered hpc))
  delivered row hrow := hjournal ▸ h.delivered row (hdelivered ▸ hrow)
  old at_ old hr := hjournal ▸ h.old at_ old (hreplayed ▸ hr)
  replay at_ old hr row hrow hold hmatches := by
    rw [Feed.deliveries, hdelivered]
    exact h.replay at_ old (hreplayed ▸ hr) row (hjournal ▸ hrow) hold hmatches
  live at_ old hr row hrow hold hmatches := by
    rw [Feed.deliveries, hdelivered]
    simp only [hpending.mem_iff]
    exact h.live at_ old (hreplayed ▸ hr) row (hjournal ▸ hrow) hold hmatches

theorem pending_row (h : s.Sound formatUuid filter) {id : ℕ} (hid : id ∈ s.pending) :
    ∃ row ∈ s.journal.rows, row.id = id ∧ row.validTo = none := by
  rw [Feed.pending, ← List.map_append, List.mem_append, List.mem_map] at hid
  obtain ⟨a, ha, rfl⟩ | hid := hid
  · obtain ⟨row, hrow, hrowid, -, -, hforever⟩ := h.announced a ha
    exact ⟨row, hrow, hrowid, hforever⟩
  · cases hpc : s.pc with
    | replaying | receiving =>
      rw [hpc] at hid
      cases hid
    | looking sequence =>
      rw [hpc] at hid
      obtain ⟨row, hrow, hrowid, hforever⟩ := h.looked sequence hpc
      exact ⟨row, hrow, hrowid.trans (List.mem_singleton.mp hid).symm, hforever⟩

theorem deliveries_nextId (h : s.Sound formatUuid filter) :
    s.deliveries s.journal.nextId = 0 := by
  rw [Feed.deliveries, List.countP_eq_zero]
  intro row hrow
  simpa using (RedbJournal.row_lt_nextId (h.delivered row hrow)).ne

theorem append (h : s.Sound formatUuid filter) (now : Time) {entry : JournalEntry}
    (hforever : entry.validTo = none) :
    Feed.Sound formatUuid filter { s with
      journal := (s.journal.append now entry).2
      unsent := s.unsent ++
        [⟨(s.journal.append now entry).1, entry.eventType, entry.namespace_⟩] } := by
  obtain ⟨new, hid, htype, hspace, hnewForever, hrows⟩ : ∃ new : JournalRow,
      new.id = s.journal.nextId ∧ new.eventType = entry.eventType ∧
      new.namespace_ = entry.namespace_ ∧ new.validTo = none ∧
      (s.journal.append now entry).2.rows = s.journal.rows ++ [new] := by
    refine ⟨_, rfl, rfl, rfl, ?_, s.journal.rows_append now entry⟩
    simp [StoredEntry.row, StoredEntry.fromEntry, hforever]
  set s' : Feed := { s with
      journal := (s.journal.append now entry).2
      unsent := s.unsent ++
        [⟨(s.journal.append now entry).1, entry.eventType, entry.namespace_⟩] } with hs'
  have hmem : ∀ row, row ∈ s'.journal.rows ↔ row ∈ s.journal.rows ∨ row = new := by
    intro row
    change row ∈ (s.journal.append now entry).2.rows ↔ _
    rw [hrows, List.mem_append, List.mem_singleton]
  have hlater : s.journal.nextId < s'.journal.nextId :=
    hid ▸ RedbJournal.row_lt_nextId ((hmem new).mpr (.inr rfl))
  have hpending : s'.pending.Perm (s.journal.nextId :: s.pending) := by
    simp only [Feed.pending, hs', List.map_append, List.append_assoc]
    exact List.perm_middle
  have hfresh : s.journal.nextId ∉ s.pending := by
    intro hp
    obtain ⟨row, hrow, hrowid, -⟩ := h.pending_row hp
    exact (RedbJournal.row_lt_nextId hrow).ne hrowid
  refine ⟨?_, ?_, ?_, h.replaying, h.undelivered, ?_, ?_, ?_, ?_⟩
  · intro a ha
    simp only [hs', List.append_assoc, List.mem_append, List.mem_singleton] at ha
    obtain ha | rfl | ha := ha
    · obtain ⟨row, hrow, hrest⟩ := h.announced a (List.mem_append_left _ ha)
      exact ⟨row, (hmem row).mpr (.inl hrow), hrest⟩
    · exact ⟨new, (hmem new).mpr (.inr rfl), hid, htype, hspace, hnewForever⟩
    · obtain ⟨row, hrow, hrest⟩ := h.announced a (List.mem_append_right _ ha)
      exact ⟨row, (hmem row).mpr (.inl hrow), hrest⟩
  · intro sequence hpc
    obtain ⟨row, hrow, hrest⟩ := h.looked sequence hpc
    exact ⟨row, (hmem row).mpr (.inl hrow), hrest⟩
  · rw [hpending.nodup_iff, List.nodup_cons]
    exact ⟨hfresh, h.distinct⟩
  · intro row hrow
    exact (hmem row).mpr (.inl (h.delivered row hrow))
  · intro at_ old hr id hold
    exact (h.old at_ old hr id hold).trans hlater
  · intro at_ old hr row hrow hold hmatches
    obtain hrow | rfl := (hmem row).mp hrow
    · exact h.replay at_ old hr row hrow hold hmatches
    · exact absurd (h.old at_ old hr _ hold) (by omega)
  · intro at_ old hr row hrow hold hmatches
    simp only [hpending.mem_iff, List.mem_cons]
    obtain hrow | rfl := (hmem row).mp hrow
    · have hne : row.id ≠ s.journal.nextId := (RedbJournal.row_lt_nextId hrow).ne
      simp only [hne, false_or]
      exact h.live at_ old hr row hrow hold hmatches
    · rw [hid]
      exact ⟨hnewForever, by rw [if_pos (.inl rfl)]; exact h.deliveries_nextId⟩

theorem emit (h : s.Sound formatUuid filter) {pre post : List Announcement} {a : Announcement}
    (hu : s.unsent = pre ++ a :: post) :
    Feed.Sound formatUuid filter { s with unsent := pre ++ post, bus := s.bus ++ [a] } := by
  refine h.forwarded rfl rfl rfl ?_ ?_ h.looked h.replaying id
  · simp only [Feed.pending, hu, List.map_append, List.map_cons, List.map_nil, List.append_assoc]
    refine List.Perm.append_left _ ?_
    rw [← List.append_assoc, List.cons_append, ← List.append_assoc]
    exact List.perm_middle
  · intro b hb
    rw [hu]
    simp only [List.mem_append, List.mem_cons, List.mem_nil_iff, or_false] at hb ⊢
    tauto

/-- The replay delivers every row that matches, once. -/
theorem replayed (h : s.Sound formatUuid filter) (now : Time) (hpc : s.pc = .replaying)
    {limit : ℕ} {rows : List JournalRow}
    (hlimit : (s.journal.rows.filter (filter.matches formatUuid now)).length ≤ limit)
    (hquery : s.journal.query formatUuid now filter limit = .ok rows) :
    Feed.Sound formatUuid filter { s with
      pc := .receiving
      delivered := s.delivered ++ rows
      replayed := some (now, s.journal.rows.map (·.id)) } := by
  have hrows : s.delivered ++ rows =
      (s.journal.rows.filter (filter.matches formatUuid now)).reverse := by
    rw [h.undelivered hpc, List.nil_append,
      ((RedbJournal.query_eq_ok_iff s.journal now formatUuid).mp hquery).2, List.filter_reverse,
      List.take_of_length_le (by rw [List.length_reverse]; exact hlimit)]
  rw [hrows]
  have hlooked : s.pc.looked = [] := by
    rw [hpc]
    rfl
  have hdistinct := h.distinct
  rw [Feed.pending, hlooked] at hdistinct
  refine ⟨h.announced, by simp, hdistinct, by simp, by simp, ?_, ?_, ?_, ?_⟩
  · intro row hrow
    exact (List.mem_filter.mp (List.mem_reverse.mp hrow)).1
  · rintro _ _ ⟨⟩ id hold
    obtain ⟨row, hrow, rfl⟩ := List.mem_map.mp hold
    exact RedbJournal.row_lt_nextId hrow
  · rintro _ _ ⟨⟩ row hrow _ hmatches
    rw [Feed.deliveries, List.countP_reverse]
    refine countP_row_id ?_ (List.mem_filter.mpr ⟨hrow, hmatches⟩)
    exact s.journal.row_ids_nodup.sublist (List.filter_sublist.map _)
  · rintro _ _ ⟨⟩ row hrow hold
    exact absurd (List.mem_map_of_mem hrow) hold

/-- A replay that fails leaves everything to the lookups. -/
theorem replayFailed (h : s.Sound formatUuid filter) {now : Time} (hpc : s.pc = .replaying)
    (hok : LooksUpNewest formatUuid filter s (.replayFailed now)) :
    Feed.Sound formatUuid filter { s with pc := .receiving, replayed := some (now, []) } := by
  have hpending : Feed.pending { s with pc := .receiving, replayed := some (now, []) } = s.pending := by
    rw [Feed.pending, Feed.pending, hpc]
    rfl
  have hnone : s.delivered = [] := h.undelivered hpc
  refine ⟨h.announced, by simp, hpending ▸ h.distinct, by simp, by simp, h.delivered, ?_, ?_, ?_⟩
  · rintro _ _ ⟨⟩ id hold
    cases hold
  · rintro _ _ ⟨⟩ row _ hold
    cases hold
  · rintro _ _ ⟨⟩ row hrow _ hmatches
    have hwaiting := hok row hrow hmatches
    obtain ⟨found, hfound, hid, hforever⟩ := h.pending_row hwaiting
    cases RedbJournal.row_of_id hfound hrow hid
    refine ⟨hforever, ?_⟩
    rw [hpending, if_pos hwaiting, Feed.deliveries, hnone]
    rfl

/-- A replay that fails at any other time loses an entry. -/
theorem replayFailed_late (h : s.Sound formatUuid filter) {now : Time} (hpc : s.pc = .replaying)
    (hlate : ¬LooksUpNewest formatUuid filter s (.replayFailed now)) :
    ¬Feed.ExactlyOnce formatUuid filter { s with pc := .receiving, replayed := some (now, []) } := by
  intro honce
  refine hlate ?_
  intro row hrow hmatches
  by_contra hgone
  have hpending : Feed.pending { s with pc := .receiving, replayed := some (now, []) } = s.pending := by
    rw [Feed.pending, Feed.pending, hpc]
    rfl
  have hone : s.delivered.countP (fun r => r.id = row.id) = 1 :=
    (honce now [] rfl row hrow hmatches).2 (hpending ▸ hgone)
  rw [h.undelivered hpc] at hone
  cases hone

theorem mem_announced_of_rest {a b : Announcement} {rest : List Announcement}
    (hbus : s.bus = a :: rest) (hb : b ∈ s.unsent ++ rest) : b ∈ s.unsent ++ s.bus := by
  rw [hbus]
  obtain hb | hb := List.mem_append.mp hb
  · exact List.mem_append_left _ hb
  · exact List.mem_append_right _ (List.mem_cons_of_mem _ hb)

theorem skipped (h : s.Sound formatUuid filter) {a : Announcement} {rest : List Announcement}
    (hpc : s.pc = .receiving) (hbus : s.bus = a :: rest) (hskip : preFilter filter a = false) :
    Feed.Sound formatUuid filter { s with bus := rest, pc := .receiving } := by
  have hpending : s.pending.Perm (a.sequence ::
      (s.unsent.map (·.sequence) ++ rest.map (·.sequence) ++ SubscriberPc.receiving.looked)) := by
    simp only [Feed.pending, hpc, hbus, List.map_cons, List.append_assoc]
    exact List.perm_middle
  have hdistinct := hpending.nodup_iff.mp h.distinct
  obtain ⟨arow, harow, haid, hatype, haspace, _⟩ :=
    h.announced a (List.mem_append_right _ (hbus ▸ List.mem_cons_self))
  refine ⟨?_, by simp, (List.nodup_cons.mp hdistinct).2, ?_, by simp, h.delivered, h.old, h.replay, ?_⟩
  · intro b hb
    exact h.announced b (mem_announced_of_rest hbus hb)
  · intro hr
    cases hpc.symm.trans (h.replaying hr)
  · intro at_ old hr row hrow hold hmatches
    have hne : row.id ≠ a.sequence := by
      intro heq
      cases RedbJournal.row_of_id hrow harow (heq.trans haid.symm)
      rw [preFilter_of_matches hmatches hatype haspace] at hskip
      cases hskip
    have hlive := h.live at_ old hr row hrow hold hmatches
    simp only [hpending.mem_iff, List.mem_cons, hne, false_or] at hlive
    exact hlive

theorem recv (h : s.Sound formatUuid filter) {a : Announcement} {rest : List Announcement}
    (hpc : s.pc = .receiving) (hbus : s.bus = a :: rest) :
    Feed.Sound formatUuid filter
      { s with bus := rest, pc := if preFilter filter a then .looking a.sequence else .receiving } := by
  by_cases hpass : preFilter filter a = true
  · rw [if_pos hpass]
    refine h.forwarded rfl rfl rfl ?_ ?_ ?_ ?_ (by simp)
    · simp only [Feed.pending, hpc, hbus, List.map_cons, SubscriberPc.looked, List.append_nil,
        List.append_assoc]
      exact (List.perm_append_singleton _ _).append_left _
    · intro b hb
      exact mem_announced_of_rest hbus hb
    · rintro sequence ⟨⟩
      obtain ⟨row, hrow, hid, _, _, hforever⟩ :=
        h.announced a (List.mem_append_right _ (hbus ▸ List.mem_cons_self))
      exact ⟨row, hrow, hid, hforever⟩
    · intro hr
      cases hpc.symm.trans (h.replaying hr)
  · rw [if_neg hpass]
    exact h.skipped hpc hbus (by simpa using hpass)

theorem pending_looking {sequence : ℕ} (hpc : s.pc = .looking sequence) :
    s.pending.Perm (sequence :: Feed.pending { s with pc := .receiving }) := by
  simp only [Feed.pending, hpc, SubscriberPc.looked, List.append_nil]
  exact List.perm_append_singleton _ _

theorem looked_forever (h : s.Sound formatUuid filter) {sequence : ℕ}
    (hpc : s.pc = .looking sequence) {row : JournalRow} (hrow : row ∈ s.journal.rows)
    (hid : row.id = sequence) : row.validTo = none := by
  obtain ⟨found, hfound, hfoundId, hforever⟩ := h.looked sequence hpc
  rw [RedbJournal.row_of_id hrow hfound (hid.trans hfoundId.symm)]
  exact hforever

theorem lookUp_row (h : s.Sound formatUuid filter) {now at_ : Time} {sequence : ℕ}
    (hpc : s.pc = .looking sequence) {row : JournalRow} (hrow : row ∈ s.journal.rows)
    (hid : row.id = sequence) (hmatches : filter.matches formatUuid at_ row = true) :
    lookUp formatUuid filter s.journal now sequence =
      if s.journal.rows.getLast? = some row ∧ row.payload.Readable then [row] else [] := by
  have hrowForever := h.looked_forever hpc hrow hid
  by_cases hnewest : s.journal.rows.getLast? = some row ∧ row.payload.Readable
  · rw [if_pos hnewest, ← hid]
    exact lookUp_newest hnewest.1 hnewest.2 hrowForever ((matches_forever hrowForever).trans hmatches)
  · rw [if_neg hnewest, List.eq_nil_iff_forall_not_mem]
    intro r hr
    obtain ⟨hfound, hrid, -⟩ := mem_lookUp hr
    have hrrow : r = row :=
      RedbJournal.row_of_id (List.mem_of_getLast? hfound.1) hrow (hrid.trans hid.symm)
    exact hnewest (hrrow ▸ hfound)

/-- A lookup in time sends its row if the replay has not. -/
theorem lookUp_own (h : s.Sound formatUuid filter) {now at_ : Time} {old : List ℕ} {sequence : ℕ}
    (hpc : s.pc = .looking sequence) (hok : LooksUpNewest formatUuid filter s (.lookup now))
    (hr : s.replayed = some (at_, old)) {row : JournalRow} (hrow : row ∈ s.journal.rows)
    (hid : row.id = sequence) (hmatches : filter.matches formatUuid at_ row = true) :
    lookUp formatUuid filter s.journal now sequence = if sequence ∈ old then [] else [row] := by
  have hmatchesNow : filter.matches formatUuid now row = true :=
    (matches_forever (h.looked_forever hpc hrow hid)).trans hmatches
  have hnewest := hok sequence hpc at_ old hr row hrow hid hmatchesNow
  rw [h.lookUp_row hpc hrow hid hmatches]
  by_cases hold : sequence ∈ old
  · rw [if_pos hold, if_neg fun hlast => hnewest.mp hlast hold]
  · rw [if_neg hold, if_pos (hnewest.mpr hold)]

theorem countP_lookUp_other {now : Time} {id sequence : ℕ} (hne : id ≠ sequence) :
    (s.delivered ++ lookUp formatUuid filter s.journal now sequence).countP (fun r => r.id = id) =
      s.deliveries id := by
  have hnone : (lookUp formatUuid filter s.journal now sequence).countP (fun r => r.id = id) = 0 := by
    rw [List.countP_eq_zero]
    intro r hr
    simpa [(mem_lookUp hr).2.1] using hne.symm
  rw [List.countP_append, hnone]
  rfl

theorem lookup (h : s.Sound formatUuid filter) (now : Time) {sequence : ℕ}
    (hpc : s.pc = .looking sequence) (hok : LooksUpNewest formatUuid filter s (.lookup now)) :
    Feed.Sound formatUuid filter { s with
      pc := .receiving
      delivered := s.delivered ++ lookUp formatUuid filter s.journal now sequence } := by
  have hpending := pending_looking hpc
  have hdistinct := hpending.nodup_iff.mp h.distinct
  refine ⟨h.announced, by simp, (List.nodup_cons.mp hdistinct).2, ?_, by simp, ?_, h.old, ?_, ?_⟩
  · intro hr
    cases hpc.symm.trans (h.replaying hr)
  · intro row hrow
    obtain hrow | hrow := List.mem_append.mp hrow
    · exact h.delivered row hrow
    · exact List.mem_of_getLast? (mem_lookUp hrow).1.1
  · intro at_ old hr row hrow hold hmatches
    have hone := h.replay at_ old hr row hrow hold hmatches
    by_cases hid : row.id = sequence
    · rw [Feed.deliveries, h.lookUp_own hpc hok hr hrow hid hmatches, if_pos (hid ▸ hold),
        List.append_nil]
      exact hone
    · rw [Feed.deliveries, countP_lookUp_other hid]
      exact hone
  · intro at_ old hr row hrow hold hmatches
    obtain ⟨hrowForever, hcount⟩ := h.live at_ old hr row hrow hold hmatches
    refine ⟨hrowForever, ?_⟩
    by_cases hid : row.id = sequence
    · have hwaiting : row.id ∈ s.pending := hpending.mem_iff.mpr (hid ▸ List.mem_cons_self)
      have hgone : row.id ∉ Feed.pending { s with pc := .receiving } :=
        hid ▸ (List.nodup_cons.mp hdistinct).1
      rw [if_pos hwaiting] at hcount
      rw [Feed.deliveries, h.lookUp_own hpc hok hr hrow hid hmatches, if_neg (hid ▸ hold),
        List.countP_append, List.countP_singleton, if_pos (decide_eq_true rfl)]
      rw [Feed.deliveries] at hcount
      rw [hcount]
      exact (if_neg hgone).symm
    · rw [Feed.deliveries, countP_lookUp_other hid]
      simp only [hpending.mem_iff, List.mem_cons, hid, false_or] at hcount
      exact hcount

/-- A lookup at any other time delivers its row a second time, or not at all. -/
theorem lookup_late (h : s.Sound formatUuid filter) {now : Time} {sequence : ℕ}
    (hpc : s.pc = .looking sequence) (hlate : ¬LooksUpNewest formatUuid filter s (.lookup now)) :
    ¬Feed.ExactlyOnce formatUuid filter { s with
      pc := .receiving
      delivered := s.delivered ++ lookUp formatUuid filter s.journal now sequence } := by
  intro honce
  refine hlate ?_
  intro sequence' hpc' at_ old hr row hrow hid hmatchesNow
  cases hpc.symm.trans hpc'
  have hmatches : filter.matches formatUuid at_ row = true :=
    (matches_forever (h.looked_forever hpc hrow hid)).trans hmatchesNow
  have hpending := pending_looking hpc
  have hgone : row.id ∉ Feed.pending { s with pc := .receiving } :=
    hid ▸ (List.nodup_cons.mp (hpending.nodup_iff.mp h.distinct)).1
  have hone : (s.delivered ++ lookUp formatUuid filter s.journal now sequence).countP
      (fun r => r.id = row.id) = 1 := (honce at_ old hr row hrow hmatches).2 hgone
  rw [List.countP_append, h.lookUp_row hpc hrow hid hmatches] at hone
  by_cases hold : sequence ∈ old
  · have hbefore : s.delivered.countP (fun r => r.id = row.id) = 1 :=
      h.replay at_ old hr row hrow (hid ▸ hold) hmatches
    refine iff_of_false ?_ (not_not.mpr hold)
    intro hlast
    rw [hbefore, if_pos hlast, List.countP_singleton, if_pos (decide_eq_true rfl)] at hone
    omega
  · have hwaiting : row.id ∈ s.pending := hpending.mem_iff.mpr (hid ▸ List.mem_cons_self)
    have hbefore : s.delivered.countP (fun r => r.id = row.id) = 0 :=
      (h.live at_ old hr row hrow (hid ▸ hold) hmatches).2.trans (if_pos hwaiting)
    refine iff_of_true ?_ hold
    by_contra hlast
    rw [hbefore, if_neg hlast] at hone
    cases hone

theorem step {limit : ℕ} {a : FeedMove} (h : s.Sound formatUuid filter)
    (hok : LooksUpNewest formatUuid filter s a) (hs : FeedStep formatUuid filter limit s a s') :
    s'.Sound formatUuid filter := by
  cases hs with
  | append now entry hforever => exact h.append now hforever
  | emit pre post hu => exact h.emit hu
  | replay now hpc hlimit hquery => exact h.replayed now hpc hlimit hquery
  | replayFailed now hpc hlimit hquery => exact h.replayFailed hpc hok
  | recv hpc hbus => exact h.recv hpc hbus
  | lookup now hpc => exact h.lookup now hpc hok

end Feed.Sound

theorem Feed.Started.sound {formatUuid : Uuid → String} {filter : JournalFilter} {s : Feed}
    (h : s.Started) : s.Sound formatUuid filter := by
  refine ⟨?_, ?_, ?_, fun _ => h.pc, fun _ => h.delivered, ?_, ?_, ?_, ?_⟩
  · rw [h.bus, List.append_nil]
    exact h.unsent
  · intro sequence hpc
    cases h.pc.symm.trans hpc
  · rw [Feed.pending, h.bus, h.pc]
    simpa [SubscriberPc.looked] using h.distinct
  · simp [h.delivered]
  · simp [h.replayed]
  · simp [h.replayed]
  · simp [h.replayed]

/-- For every filter: in every run in which the lookups of matching entries come while the entry is the
newest row, exactly for those that the replay did not have, each matching entry is delivered exactly
once. The first lookup at another time delivers its entry twice or never, and so does a replay that fails
when entries that match have been announced before. -/
theorem subscription_exactly_once (formatUuid : Uuid → String) (filter : JournalFilter)
    (replayLimit : ℕ) (s : Feed)
    (h : ReachesBy (FeedStep formatUuid filter replayLimit) (LooksUpNewest formatUuid filter)
      Feed.Started s) :
    s.ExactlyOnce formatUuid filter ∧
    ∀ a s', FeedStep formatUuid filter replayLimit s a s' → ¬LooksUpNewest formatUuid filter s a →
      ¬s'.ExactlyOnce formatUuid filter := by
  have hsound : s.Sound formatUuid filter :=
    ReachesBy.invariant (fun _ h => h.sound) (fun _ _ _ _ hs hok hstep => hs.step hok hstep) h
  refine ⟨hsound.exactlyOnce, ?_⟩
  intro a s' hstep hlate
  cases hstep with
  | lookup now hpc => exact hsound.lookup_late hpc hlate
  | replayFailed now hpc hlimit hquery => exact hsound.replayFailed_late hpc hlate
  | append | emit | replay | recv => exact absurd trivial hlate

/-! ## A subscription to everything -/

def emptyFeed : Feed := ⟨.open_, [], [], .replaying, [], none⟩

theorem emptyFeed_started : emptyFeed.Started := ⟨rfl, rfl, rfl, rfl, List.nodup_nil, by simp [emptyFeed]⟩

theorem newest_of_id {j : RedbJournal} {row : JournalRow} (hrow : row ∈ j.rows)
    (hlast : (j.rows.getLast?.any fun last => last.id = row.id) = true) :
    j.rows.getLast? = some row := by
  obtain ⟨last, hnewest, hid⟩ := (Option.any_eq_true ..).mp hlast
  rw [hnewest, RedbJournal.row_of_id (List.mem_of_getLast? hnewest) hrow (of_decide_eq_true hid)]

/-- One entry is replayed, and one is looked up before the next append. -/
theorem entries_delivered_once : ∃ s,
    ReachesBy (FeedStep toString {} 10) (LooksUpNewest toString {}) Feed.Started s ∧
      s.delivered.map (·.id) = [1, 2] ∧ s.ExactlyOnce toString {} := by
  have hstart : ReachesBy (FeedStep toString {} 10) (LooksUpNewest toString {}) Feed.Started
      { emptyFeed with journal := (RedbJournal.open_.append 0 (runEvent 7 "workflow_started")).2 } :=
    .start ⟨rfl, rfl, rfl, rfl, List.nodup_nil, by simp [emptyFeed]⟩
  have hreplayed := hstart.tail (a := FeedMove.replay) trivial (.replay 1 rfl (by decide +kernel) rfl)
  have happended := hreplayed.tail (a := FeedMove.append) trivial
    (.append 2 (runEvent 7 "workflow_completed") rfl)
  have hemitted := happended.tail (a := FeedMove.emit) trivial (.emit [] [] rfl)
  have hreceived := hemitted.tail (a := FeedMove.recv) trivial (.recv rfl rfl)
  have hlooked := hreceived.tail (a := FeedMove.lookup 3) (by
    rintro _ ⟨⟩ _ _ ⟨⟩ row hrow hid _
    refine iff_of_true ⟨newest_of_id hrow ?_, ?_⟩ (by decide +kernel)
    · rw [hid]
      decide +kernel
    · exact RedbJournal.Readable.row (by decide +kernel) hrow) (.lookup 3 rfl)
  exact ⟨_, hlooked, by decide +kernel, (subscription_exactly_once _ _ _ _ hlooked).1⟩

/-- An entry that is announced before the replay runs is delivered twice, and the first of two entries
that are announced in a row is not delivered. -/
theorem entry_delivered_twice_and_lost :
    (∃ s, Reaches (FeedStep toString {} 10) Feed.Started s ∧
      s.delivered.map (·.id) = [1, 1] ∧ ¬s.ExactlyOnce toString {}) ∧
    ∃ s, Reaches (FeedStep toString {} 10) Feed.Started s ∧ s.pending = [] ∧
      s.journal.rows.map (·.id) = [1, 2] ∧ s.delivered.map (·.id) = [2] ∧
      ¬s.ExactlyOnce toString {} := by
  have hstart : Reaches (FeedStep toString {} 10) Feed.Started emptyFeed := .start emptyFeed_started
  refine ⟨?_, ?_⟩
  · have hemitted := (hstart.tail trivial (.append 0 (runEvent 7 "workflow_started") rfl)).tail trivial
      (.emit [] [] rfl)
    have hreplayed := hemitted.tail trivial (.replay 1 rfl (by decide +kernel) rfl)
    have hlooked := (hreplayed.tail trivial (.recv rfl rfl)).tail trivial (.lookup 2 rfl)
    refine ⟨_, hlooked, by decide +kernel, ?_⟩
    intro honce
    exact absurd (honce 1 _ rfl _ List.mem_cons_self (by decide +kernel)).1 (by decide +kernel)
  · have hreplayed := hstart.tail trivial (.replay 0 rfl (by decide +kernel) rfl)
    have happended := (hreplayed.tail trivial (.append 1 (runEvent 7 "workflow_started") rfl)).tail
      trivial (.append 2 (runEvent 7 "workflow_completed") rfl)
    have hemitted := (happended.tail trivial (.emit [] _ rfl)).tail trivial (.emit [] [] rfl)
    have hlost := (hemitted.tail trivial (.recv rfl rfl)).tail trivial (.lookup 3 rfl)
    have hlooked := (hlost.tail trivial (.recv rfl rfl)).tail trivial (.lookup 4 rfl)
    refine ⟨_, hlooked, by decide +kernel, by decide +kernel, by decide +kernel, ?_⟩
    intro honce
    exact absurd ((honce 0 _ rfl _ List.mem_cons_self (by decide +kernel)).2 (by decide +kernel))
      (by decide +kernel)

end Konf.Journal
