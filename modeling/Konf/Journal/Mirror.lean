import Mathlib.Algebra.Order.Group.Multiset
import Konf.Journal.Queries
import Konf.Journal.Replicas
import Konf.Journal.Surreal

/-! # The journal and its mirror

The journal that `konf-init/src/lib.rs` puts together: a fan-out over a redb journal, with a graph journal
as its secondary. Both give an entry an id and a time of their own, and redb keeps its expiry in
microseconds; the rest of an entry is the same in both. -/

namespace Konf.Journal
open Konf.Substrate
set_option autoImplicit false

section Stores
variable (eng : EventEngine)

end Stores

/-- What both journals show of an entry. -/
structure Content where
  runId : Option RunId
  sessionId : String
  namespace_ : String
  eventType : String
  payload : Json
  validToMicros : Option ℤ
deriving DecidableEq

def JournalEntry.content (e : JournalEntry) : Content :=
  ⟨e.runId, e.sessionId, e.namespace_, e.eventType, e.payload, e.validTo.map timestampMicros⟩

def JournalRow.content (row : JournalRow) : Content :=
  ⟨row.runId, row.sessionId, row.namespace_, row.eventType, row.payload, row.validTo.map timestampMicros⟩

def StoredEntry.content (stored : StoredEntry) : Content :=
  ⟨stored.runId, stored.sessionId, stored.namespace_, stored.eventType, stored.payload,
    stored.validToMicros⟩

def Content.lasts (now : Time) (c : Content) : Bool :=
  c.validToMicros.all fun v => decide (timestampMicros now < v)

/-- The entry does not expire in the very microsecond. -/
def Content.clear (now : Time) (c : Content) : Prop := ∀ v ∈ c.validToMicros, v ≠ timestampMicros now

instance (now : Time) (c : Content) : Decidable (c.clear now) :=
  inferInstanceAs (Decidable (∀ v ∈ c.validToMicros, v ≠ timestampMicros now))

theorem micros_lt_iff {now v : ℤ} (h : v ≠ now / 1000) : v * 1000 < now ↔ ¬now / 1000 < v := by
  omega

theorem lt_iff_micros_lt {now v : ℤ} (h : v / 1000 ≠ now / 1000) : now < v ↔ now / 1000 < v / 1000 := by
  omega

section Contents
variable {now : Time}

theorem row_content (stored : StoredEntry) (id : ℕ) : (stored.row id).content = stored.content := by
  have hmicros : ∀ v : ℤ, timestampMicros (ofTimestampMicros v) = v := by
    intro v
    simp [timestampMicros, ofTimestampMicros]
  cases hv : stored.validToMicros with
  | none => simp [StoredEntry.row, JournalRow.content, StoredEntry.content, hv]
  | some v => simp [StoredEntry.row, JournalRow.content, StoredEntry.content, hv, hmicros]

/-- Away from its last microsecond, redb finds an entry expired when its content does not last. -/
theorem isExpired_eq {stored : StoredEntry} {id : ℕ} (h : stored.content.clear now) :
    isExpired now (stored.row id) = !stored.content.lasts now := by
  unfold isExpired Content.lasts Content.clear at *
  cases hv : stored.validToMicros with
  | none => simp [StoredEntry.row, StoredEntry.content, hv]
  | some v =>
    have hne : v ≠ timestampMicros now := h v hv
    simp only [StoredEntry.row, StoredEntry.content, hv, Option.map_some, Option.getD_some,
      Option.all_some, ← decide_not, decide_eq_decide]
    exact micros_lt_iff hne

/-- And the database finds that it is valid when its content lasts. -/
theorem lastsBeyond_eq {c : Created} (h : c.row.content.clear now) :
    lastsBeyond now c.validTo = c.row.content.lasts now := by
  have hrow : c.row.validTo = c.validTo := by cases c <;> rfl
  unfold lastsBeyond Content.lasts Content.clear at *
  rw [← hrow]
  cases hv : c.row.validTo with
  | none => simp [JournalRow.content, hv]
  | some v =>
    have hne : timestampMicros v ≠ timestampMicros now := h _ (by simp [JournalRow.content, hv])
    simp only [JournalRow.content, hv, Option.map_some, Option.all_some, decide_eq_decide]
    exact lt_iff_micros_lt hne

end Contents

/-! ## What the primary keeps -/

def RedbJournal.contents (j : RedbJournal) : List Content := j.events.rows.map fun r => r.2.content

/-- Of the entries that were appended the journal has those that last, and nothing else that was not
appended. -/
structure RedbJournal.Keeps (now : Time) (j : RedbJournal) (appended : Multiset JournalEntry) : Prop where
  mirrors : j.Mirrors
  lasting : (j.contents : Multiset Content).filter (fun c => c.lasts now) =
    (appended.map JournalEntry.content).filter fun c => c.lasts now
  known : ∀ c ∈ j.contents, c ∈ appended.map JournalEntry.content

section Primary
variable {now : Time} {j : RedbJournal} {appended : Multiset JournalEntry}

theorem RedbJournal.Keeps.append (h : j.Keeps now appended) (w : Time) (entry : JournalEntry) :
    (j.append w entry).2.Keeps now (appended + {entry}) := by
  have hcontents : (j.append w entry).2.contents = j.contents ++ [entry.content] := by
    rw [RedbJournal.contents, RedbJournal.append_rows, List.map_append]
    rfl
  refine ⟨h.mirrors.append w entry, ?_, ?_⟩
  · rw [hcontents, ← Multiset.coe_add, Multiset.filter_add, h.lasting, Multiset.map_add,
      Multiset.filter_add]
    rfl
  · intro c hc
    rw [hcontents, List.mem_append, List.mem_singleton] at hc
    rw [Multiset.map_add, Multiset.mem_add, Multiset.map_singleton, Multiset.mem_singleton]
    exact hc.imp (h.known c) id

theorem StoredEntry.isSwept_of_lasts {stored : StoredEntry} {w : Time} (hw : w ≤ now)
    (h : stored.content.lasts now = true) : stored.isSwept w = false := by
  unfold StoredEntry.isSwept
  cases hv : stored.validToMicros with
  | none => rfl
  | some v =>
    have hlast : timestampMicros now < v := by
      simpa [Content.lasts, StoredEntry.content, hv] using h
    have hmicros : timestampMicros w ≤ timestampMicros now := Int.ediv_le_ediv (by decide) hw
    simp only [Option.any_some, decide_eq_false_iff_not, not_le]
    exact hmicros.trans_lt hlast

theorem RedbJournal.Keeps.deleteExpired (h : j.Keeps now appended) {w : Time} (hw : w ≤ now) :
    (j.deleteExpired w).2.Keeps now appended := by
  have hcontents : (j.deleteExpired w).2.contents.filter (fun c => c.lasts now) =
      j.contents.filter fun c => c.lasts now := by
    rw [RedbJournal.contents, RedbJournal.contents, RedbJournal.deleteExpired_rows, List.filter_map,
      List.filter_map, List.filter_filter]
    congr 1
    refine List.filter_congr ?_
    intro r _
    rw [Function.comp_apply]
    cases hlasts : r.2.content.lasts now with
    | false => rfl
    | true => rw [StoredEntry.isSwept_of_lasts hw hlasts, Bool.not_false, Bool.and_self]
  refine ⟨h.mirrors.deleteExpired w, ?_, ?_⟩
  · rw [← h.lasting]
    simp only [Multiset.filter_coe, Bool.decide_eq_true, hcontents]
  · intro c hc
    rw [RedbJournal.contents, RedbJournal.deleteExpired_rows] at hc
    obtain ⟨r, hr, rfl⟩ := List.mem_map.mp hc
    exact h.known _ (List.mem_map_of_mem (List.mem_filter.mp hr).1)

/-- What a scan of the log shows, expired entries left out. -/
theorem RedbJournal.Keeps.scan (h : j.Keeps now appended)
    (hclear : ∀ c ∈ appended.map JournalEntry.content, c.clear now) (keep : Content → Bool) :
    (((j.rows.filter fun row => keep row.content && !isExpired now row).map JournalRow.content :
      List Content) : Multiset Content) =
        (appended.map JournalEntry.content).filter fun c => (keep c && c.lasts now) = true := by
  have hscan : (j.rows.filter fun row => keep row.content && !isExpired now row).map JournalRow.content =
      (j.contents.filter fun c => c.lasts now).filter keep := by
    rw [RedbJournal.rows, RedbJournal.contents, List.filter_map, List.filter_filter, List.filter_map,
      List.map_map]
    have hrow : (JournalRow.content ∘ fun r : ℕ × StoredEntry => r.2.row r.1) =
        fun r => r.2.content := by
      funext r
      exact row_content r.2 r.1
    rw [hrow]
    congr 1
    refine List.filter_congr ?_
    intro r hr
    have hclear' := hclear _ (h.known _ (List.mem_map_of_mem hr))
    rw [Function.comp_apply, Function.comp_apply, isExpired_eq hclear', Bool.not_not, row_content]
  have hsplit : ((appended.map JournalEntry.content).filter fun c => (keep c && c.lasts now) = true) =
      ((appended.map JournalEntry.content).filter fun c => c.lasts now).filter fun c => keep c := by
    rw [Multiset.filter_filter]
    simp only [Bool.and_eq_true]
  rw [hscan, hsplit, ← h.lasting]
  simp only [Multiset.filter_coe, Bool.decide_eq_true]

theorem RedbJournal.Keeps.readable (h : j.Keeps now appended)
    (hread : ∀ entry ∈ appended, entry.payload.Readable) : j.Readable := by
  intro r hr
  obtain ⟨entry, hentry, hcontent⟩ := Multiset.mem_map.mp (h.known _ (List.mem_map_of_mem hr))
  have hpayload : entry.payload = r.2.payload := congrArg Content.payload hcontent
  exact hpayload ▸ hread entry hentry

theorem RedbJournal.Keeps.queryByRun (h : j.Keeps now appended)
    (hclear : ∀ c ∈ appended.map JournalEntry.content, c.clear now)
    (hread : ∀ entry ∈ appended, entry.payload.Readable) (runId : RunId) :
    ∃ rows : List JournalRow, j.queryByRun now runId = .ok rows ∧
      ((rows.map JournalRow.content : List Content) : Multiset Content) =
        (appended.map JournalEntry.content).filter fun c =>
          (decide (c.runId = some runId) && c.lasts now) = true := by
  refine ⟨j.rows.filter fun row => decide (row.runId = some runId) && !isExpired now row, ?_,
    h.scan hclear fun c => decide (c.runId = some runId)⟩
  refine (RedbJournal.queryByRun_eq_ok_iff j now).mpr ⟨fun id _ => (h.readable hread).at_ id, ?_⟩
  refine (RedbJournal.lookup_eq_scan h.mirrors.byRun ?_).symm
  intro stored id
  rfl

theorem RedbJournal.Keeps.queryBySession (h : j.Keeps now appended)
    (hclear : ∀ c ∈ appended.map JournalEntry.content, c.clear now)
    (hread : ∀ entry ∈ appended, entry.payload.Readable) (sessionId : String) {limit : ℕ}
    (hlimit : j.events.rows.length ≤ limit) :
    ∃ rows : List JournalRow, j.queryBySession now sessionId limit = .ok rows ∧
      ((rows.map JournalRow.content : List Content) : Multiset Content) =
        (appended.map JournalEntry.content).filter fun c =>
          (decide (c.sessionId = sessionId) && c.lasts now) = true := by
  have hscan : (j.bySession.get sessionId).filterMap (j.liveAt now) =
      j.rows.filter fun row => decide (row.sessionId = sessionId) && !isExpired now row := by
    refine RedbJournal.lookup_eq_scan h.mirrors.bySession ?_
    intro stored id
    congr 1
    exact decide_eq_decide.mpr Option.some_inj.symm
  have hall : (j.rows.filter fun row =>
      decide (row.sessionId = sessionId) && !isExpired now row).reverse.length ≤ limit := by
    refine (List.length_reverse.trans_le (List.length_filter_le _ _)).trans ?_
    rw [RedbJournal.rows, List.length_map]
    exact hlimit
  refine ⟨(j.rows.filter fun row => decide (row.sessionId = sessionId) && !isExpired now row).reverse,
    ?_, ?_⟩
  · rw [(h.readable hread).queryBySession, List.filterMap_reverse, hscan, List.take_of_length_le hall]
  · rw [List.map_reverse, Multiset.coe_reverse]
    exact h.scan hclear fun c => decide (c.sessionId = sessionId)

end Primary

/-! ## What the mirror has -/

/-- The table holds the entries that were handed over, each once. -/
def SurrealJournal.Has (eng : EventEngine) (t : SurrealJournal) (handed : Multiset JournalEntry) : Prop :=
  ∃ created : List Created, t.events = created.map (Created.record eng) ∧
    ((created.map fun c => c.row.content : List Content) : Multiset Content) =
      handed.map JournalEntry.content ∧ ∀ c ∈ created, c.sessionId = some c.row.sessionId

section Secondary
variable {eng : EventEngine} {now : Time} {t : SurrealJournal} {handed : Multiset JournalEntry}

theorem SurrealJournal.Has.append (h : t.Has eng handed) {w : Visit} (hw : w.outcome = .done)
    (entry : JournalEntry) : (t.append eng w entry).2.Has eng (handed + {entry}) := by
  obtain ⟨created, hevents, hcontents, hsessions⟩ := h
  refine ⟨created ++ [.appended t.counter w.now entry], ?_, ?_, ?_⟩
  · simp only [SurrealJournal.append, hw, Outcome.carriedOut, hevents, List.map_append]
    rfl
  · rw [List.map_append, ← Multiset.coe_add, hcontents, Multiset.map_add]
    rfl
  · intro c hc
    obtain hc | hc := List.mem_append.mp hc
    · exact hsessions c hc
    · rw [List.mem_singleton.mp hc]
      rfl

/-- What a query selects among the records. -/
theorem SurrealJournal.Has.select (h : t.Has eng handed)
    (hclear : ∀ c ∈ handed.map JournalEntry.content, c.clear now) {asked : EventRecord → Bool}
    {keep : Content → Bool} (hasked : ∀ c : Created, c.sessionId = some c.row.sessionId →
      asked (c.record eng) = keep c.row.content) {records : List EventRecord}
    (hrecords : records.Perm (t.events.filter fun r => asked r && lastsBeyond now r.validTo)) :
    (((records.map (EventRecord.intoJournalRow eng)).map JournalRow.content : List Content) :
      Multiset Content) =
        (handed.map JournalEntry.content).filter fun c => (keep c && c.lasts now) = true := by
  obtain ⟨created, hevents, hcontents, hsessions⟩ := h
  have hselected : (t.events.filter fun r => asked r && lastsBeyond now r.validTo) =
      (created.filter fun c => keep c.row.content && c.row.content.lasts now).map
        (Created.record eng) := by
    rw [hevents, List.filter_map]
    congr 1
    refine List.filter_congr ?_
    intro c hc
    have hmem : c.row.content ∈ handed.map JournalEntry.content := by
      rw [← hcontents]
      exact Multiset.mem_coe.mpr (List.mem_map_of_mem hc)
    rw [Function.comp_apply, hasked c (hsessions c hc), Created.record_validTo,
      lastsBeyond_eq (hclear _ hmem)]
  have hrows := Multiset.coe_eq_coe.mpr
    ((hrecords.map (EventRecord.intoJournalRow eng)).map JournalRow.content)
  rw [hrows, hselected, map_record_row, ← hcontents, Multiset.filter_coe, List.map_map, List.filter_map]
  simp only [Bool.decide_eq_true]
  rfl

theorem SurrealJournal.Has.queryByRun (h : t.Has eng handed)
    (hclear : ∀ c ∈ handed.map JournalEntry.content, c.clear now) (runId : RunId) :
    ∃ mirrored : List JournalRow, t.queryByRun eng ⟨now, .done⟩ runId = .ok mirrored ∧
      ((mirrored.map JournalRow.content : List Content) : Multiset Content) =
        (handed.map JournalEntry.content).filter fun c =>
          (decide (c.runId = some runId) && c.lasts now) = true := by
  refine ⟨_, rfl, h.select hclear ?_ (eng.ascending_perm _)⟩
  intro c _
  rw [Created.record_run]
  cases c <;> rfl

theorem SurrealJournal.Has.queryBySession (h : t.Has eng handed)
    (hclear : ∀ c ∈ handed.map JournalEntry.content, c.clear now) (sessionId : String) {limit : ℕ}
    (hlimit : t.events.length ≤ limit) :
    ∃ mirrored : List JournalRow, t.queryBySession eng ⟨now, .done⟩ sessionId limit = .ok mirrored ∧
      ((mirrored.map JournalRow.content : List Content) : Multiset Content) =
        (handed.map JournalEntry.content).filter fun c =>
          (decide (c.sessionId = sessionId) && c.lasts now) = true := by
  refine ⟨_, rfl, ?_⟩
  have hperm := eng.descending_perm
    (t.events.filter fun r => r.ofSession sessionId && lastsBeyond now r.validTo)
  rw [List.take_of_length_le ((hperm.length_eq.trans_le (List.length_filter_le _ _)).trans hlimit)]
  refine h.select hclear ?_ hperm
  intro c hc
  rw [Created.record_session, hc]
  exact decide_eq_decide.mpr Option.some_inj

end Secondary

/-! ## Histories of the fan-out -/

def FanoutMove.now : FanoutMove Visit → Time
  | .call w _ | .secondary w _ => w.now

section Moves
variable {ω σ τ : Type} (primary : JournalStore ω σ) (stores : List (JournalStore ω τ))

end Moves

section History
variable {eng : EventEngine} {now : Time} {s : FanoutState RedbJournal SurrealJournal}
  {appended handed : Multiset JournalEntry} {t : SurrealJournal}

end History

end Konf.Journal
