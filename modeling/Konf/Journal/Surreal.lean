import Konf.Foundations.Transition
import Konf.Journal.Indexes

/-! # The graph journal

Model of `konf-tool-memory-surreal/src/journal_store.rs`: a journal kept in the table `event`, where the
memory backend records its own events. A query is one step of the database, which has the clock. -/

namespace Konf.Journal
open Konf.Substrate Konf.Transition
set_option autoImplicit false

/-- A record of the table `event`. -/
structure EventRecord where
  namespace_ : String
  eventType : String
  payload : Json
  createdAt : Time
  validTo : Option Time
deriving DecidableEq

/-- `ORDER BY created_at` in both directions, which does not order equal times, and the text of
UUIDs. -/
structure EventEngine where
  ascending : List EventRecord → List EventRecord
  descending : List EventRecord → List EventRecord
  formatUuid : Uuid → String
  parseUuid : String → Option Uuid
  ascending_perm : ∀ records, (ascending records).Perm records
  ascending_sorted : ∀ records, (ascending records).Pairwise fun r r' => r.createdAt ≤ r'.createdAt
  descending_perm : ∀ records, (descending records).Perm records
  descending_sorted : ∀ records, (descending records).Pairwise fun r r' => r'.createdAt ≤ r.createdAt
  parse_format : ∀ id, parseUuid (formatUuid id) = some id

theorem EventEngine.formatUuid_inj (eng : EventEngine) {a b : Uuid} :
    eng.formatUuid a = eng.formatUuid b ↔ a = b := by
  constructor
  · intro h
    have hparse := congrArg eng.parseUuid h
    rw [eng.parse_format, eng.parse_format, Option.some.injEq] at hparse
    exact hparse
  · intro h
    rw [h]

/-! ## Queries -/

/-- What becomes of a query: it is carried out, it fails, or it is carried out and its answer is lost. -/
inductive Outcome
  | done
  | failed (message : String)
  | lost (message : String)
deriving DecidableEq

/-- `wrap_db_err` for what is not answered. -/
def Outcome.answer {α : Type} (outcome : Outcome) (a : α) : Except JournalError α :=
  match outcome with
  | .done => .ok a
  | .failed message | .lost message => .error (.storage message)

def Outcome.carriedOut : Outcome → Bool
  | .done | .lost _ => true
  | .failed _ => false

structure Visit where
  now : Time
  outcome : Outcome

/-- `valid_to IS NONE OR valid_to > time::now()`. -/
def lastsBeyond (now : Time) (validTo : Option Time) : Bool := validTo.all fun v => decide (now < v)

/-- `valid_to IS NOT NONE AND valid_to < time::now()`. -/
def EventRecord.isSwept (now : Time) (r : EventRecord) : Bool :=
  r.validTo.any fun v => decide (v < now)

/-- `payload.run_id = $rid`. -/
def EventRecord.ofRun (eng : EventEngine) (runId : RunId) (r : EventRecord) : Bool :=
  decide (r.payload.get "run_id" = some (.str (eng.formatUuid runId)))

/-- `payload.session_id = $sid`. -/
def EventRecord.ofSession (sessionId : String) (r : EventRecord) : Bool :=
  decide (r.payload.get "session_id" = some (.str sessionId))

/-- `RawEventRow::into_journal_row`. The queries do not select the idempotency key. -/
def EventRecord.intoJournalRow (eng : EventEngine) (r : EventRecord) : JournalRow where
  id := ((r.payload.get "seq").bind Json.asU64).getD 0
  runId := ((r.payload.get "run_id").bind Json.asStr).bind eng.parseUuid
  sessionId := ((r.payload.get "session_id").bind Json.asStr).getD ""
  namespace_ := r.namespace_
  eventType := r.eventType
  payload := (r.payload.get "data").getD .null
  createdAt := r.createdAt
  validTo := r.validTo
  idempotencyKey := none

/-! ## The store -/

structure SurrealJournal where
  events : List EventRecord
  counter : ℕ

namespace SurrealJournal
variable (eng : EventEngine)

/-- `SurrealJournalStore::new` over the database. -/
def new (events : List EventRecord) : SurrealJournal := ⟨events, 0⟩

/-- The record that `append` creates. -/
def record (seq : ℕ) (createdAt : Time) (entry : JournalEntry) : EventRecord where
  namespace_ := entry.namespace_
  eventType := entry.eventType
  payload := .obj [("data", entry.payload),
    ("run_id", (entry.runId.map fun id => Json.str (eng.formatUuid id)).getD .null),
    ("seq", .ofNat seq), ("session_id", .str entry.sessionId)]
  createdAt := createdAt
  validTo := entry.validTo

/-- The number is taken before the query, also of one that fails. -/
def append (w : Visit) (entry : JournalEntry) (s : SurrealJournal) :
    Except JournalError ℕ × SurrealJournal :=
  let seq := s.counter
  (w.outcome.answer seq, {
    events := if w.outcome.carriedOut then s.events ++ [record eng seq w.now entry] else s.events
    counter := (s.counter + 1) % 18446744073709551616 })

def queryByRun (w : Visit) (runId : RunId) (s : SurrealJournal) :
    Except JournalError (List JournalRow) :=
  w.outcome.answer ((eng.ascending (s.events.filter fun r =>
    r.ofRun eng runId && lastsBeyond w.now r.validTo)).map
      (EventRecord.intoJournalRow eng))

def queryBySession (w : Visit) (sessionId : String) (limit : ℕ) (s : SurrealJournal) :
    Except JournalError (List JournalRow) :=
  w.outcome.answer (((eng.descending (s.events.filter fun r =>
    r.ofSession sessionId && lastsBeyond w.now r.validTo)).take
      limit).map (EventRecord.intoJournalRow eng))

def recent (w : Visit) (limit : ℕ) (s : SurrealJournal) : Except JournalError (List JournalRow) :=
  w.outcome.answer (((eng.descending (s.events.filter fun r => lastsBeyond w.now r.validTo)).take
    limit).map (EventRecord.intoJournalRow eng))

/-- `delete_expired`, with the number of records that were deleted. -/
def deleteExpired (w : Visit) (s : SurrealJournal) : Except JournalError ℕ × SurrealJournal :=
  (w.outcome.answer (s.events.filter (EventRecord.isSwept w.now)).length, { s with
    events := if w.outcome.carriedOut then s.events.filter fun r => !r.isSwept w.now else s.events })

end SurrealJournal

/-- The trait implementation of `SurrealJournalStore`, which leaves three methods to the trait. -/
def surrealStore (eng : EventEngine) : JournalStore Visit SurrealJournal where
  append := SurrealJournal.append eng
  queryByRun := SurrealJournal.queryByRun eng
  queryBySession := SurrealJournal.queryBySession eng
  recent := SurrealJournal.recent eng
  reconcileZombies _ s := (.ok 0, s)
  deleteExpired := SurrealJournal.deleteExpired

/-! ## The table in use -/

/-- What was created in the table: by the journal, or by `record_event` of the memory backend. -/
inductive Created
  | appended (seq : ℕ) (createdAt : Time) (entry : JournalEntry)
  | nodesAdded (createdAt : Time) (namespace_ : String) (count : ℕ)

def Created.record (eng : EventEngine) : Created → EventRecord
  | .appended seq createdAt entry => SurrealJournal.record eng seq createdAt entry
  | .nodesAdded createdAt namespace_ count =>
    ⟨namespace_, "nodes_added", .obj [("count", .ofNat count)], createdAt, none⟩

def Created.runId : Created → Option RunId
  | .appended _ _ entry => entry.runId
  | .nodesAdded _ _ _ => none

def Created.sessionId : Created → Option String
  | .appended _ _ entry => some entry.sessionId
  | .nodesAdded _ _ _ => none

def Created.validTo : Created → Option Time
  | .appended _ _ entry => entry.validTo
  | .nodesAdded _ _ _ => none

/-- The row that shows it. -/
def Created.row : Created → JournalRow
  | .appended seq createdAt entry =>
    ⟨seq, entry.runId, entry.sessionId, entry.namespace_, entry.eventType, entry.payload, createdAt,
      entry.validTo, none⟩
  | .nodesAdded createdAt namespace_ _ =>
    ⟨0, none, "", namespace_, "nodes_added", .null, createdAt, none, none⟩

/-- The database with the store of the running process, and what was created since the schema was
applied. -/
structure EventTable where
  journal : SurrealJournal
  clock : Time
  created : List Created

inductive EventMove
  | append (w : Visit) (entry : JournalEntry)
  | recordEvent (w : Visit) (namespace_ : String) (count : ℕ)
  | deleteExpired (w : Visit)
  | restart

namespace EventTable
variable (eng : EventEngine)

def create (s : EventTable) (w : Visit) (c : Created) (journal : SurrealJournal) : EventTable :=
  ⟨journal, w.now, if w.outcome.carriedOut then s.created ++ [c] else s.created⟩

/-- One move, at a time that the clock has not passed. -/
def apply (s : EventTable) : EventMove → Option EventTable
  | .append w entry => if s.clock ≤ w.now then
      some (s.create w (.appended s.journal.counter w.now entry) (s.journal.append eng w entry).2)
    else none
  | .recordEvent w namespace_ count => if s.clock ≤ w.now then
      let c := Created.nodesAdded w.now namespace_ count
      some (s.create w c { s.journal with
        events := if w.outcome.carriedOut then s.journal.events ++ [c.record eng] else s.journal.events })
    else none
  | .deleteExpired w => if s.clock ≤ w.now then
      some { s with journal := (s.journal.deleteExpired w).2, clock := w.now }
    else none
  | .restart => some { s with journal := .new s.journal.events }

def Fresh (s : EventTable) : Prop := s.journal.events = [] ∧ s.created = []

end EventTable

/-! ## What the queries show -/

section Records
variable (eng : EventEngine) (c : Created)

/-- What was written is read back, whichever of the two wrote it. -/
theorem Created.record_row : (c.record eng).intoJournalRow eng = c.row := by
  cases c with
  | nodesAdded => rfl
  | appended seq createdAt entry =>
    cases hrun : entry.runId with
    | none =>
      simp [Created.record, Created.row, SurrealJournal.record, EventRecord.intoJournalRow, Json.get,
        List.lookup_cons, Json.asStr, hrun]
    | some id =>
      simp [Created.record, Created.row, SurrealJournal.record, EventRecord.intoJournalRow, Json.get,
        List.lookup_cons, Json.asStr, hrun, eng.parse_format]

theorem Created.record_validTo : (c.record eng).validTo = c.validTo := by
  cases c <;> rfl

theorem Created.record_run (runId : RunId) :
    (c.record eng).ofRun eng runId = decide (c.runId = some runId) := by
  unfold EventRecord.ofRun
  cases c with
  | nodesAdded => rfl
  | appended seq createdAt entry =>
    cases hrun : entry.runId with
    | none =>
      simp [Created.record, Created.runId, SurrealJournal.record, Json.get, List.lookup_cons, hrun]
    | some id =>
      simp [Created.record, Created.runId, SurrealJournal.record, Json.get, List.lookup_cons, hrun,
        eng.formatUuid_inj]

theorem Created.record_session (sessionId : String) :
    (c.record eng).ofSession sessionId = decide (c.sessionId = some sessionId) := by
  unfold EventRecord.ofSession
  cases c with
  | nodesAdded => rfl
  | appended seq createdAt entry =>
    simp [Created.record, Created.sessionId, SurrealJournal.record, Json.get, List.lookup_cons]

end Records

theorem EventRecord.isSwept_mono {now later : Time} (h : now ≤ later) {r : EventRecord}
    (hr : r.isSwept later = false) : r.isSwept now = false := by
  unfold EventRecord.isSwept at hr ⊢
  cases hv : r.validTo with
  | none => rfl
  | some v =>
    simp only [hv, Option.any_some, decide_eq_false_iff_not, not_lt] at hr ⊢
    exact h.trans hr

theorem EventRecord.isSwept_of_lasts {now later : Time} (h : now ≤ later) {r : EventRecord}
    (hr : lastsBeyond later r.validTo = true) : r.isSwept now = false := by
  unfold EventRecord.isSwept
  cases hv : r.validTo with
  | none => rfl
  | some v =>
    simp only [hv, lastsBeyond, Option.all_some, decide_eq_true_eq] at hr
    simp only [Option.any_some, decide_eq_false_iff_not, not_lt]
    exact h.trans hr.le

theorem filter_of_filter {α : Type} {p q : α → Bool} {l l' : List α} (hq : ∀ a, q a = true → p a = true)
    (h : l.filter p = l'.filter p) : l.filter q = l'.filter q := by
  have hboth : ∀ l : List α, (l.filter p).filter q = l.filter q := by
    intro l
    rw [List.filter_filter]
    congr 1
    funext a
    cases hqa : q a with
    | false => rfl
    | true => rw [hq a hqa, Bool.and_self]
  rw [← hboth l, h, hboth]

namespace EventTable
variable {eng : EventEngine} {s s' : EventTable} {m : EventMove}

/-- Of what was created, the table has everything that has not expired, in the order of creation. -/
def Complete (eng : EventEngine) (s : EventTable) : Prop :=
  s.journal.events.filter (fun r => !r.isSwept s.clock) =
    (s.created.map (Created.record eng)).filter fun r => !r.isSwept s.clock

theorem Complete.later (h : s.Complete eng) {now : Time} (hnow : s.clock ≤ now) :
    s.journal.events.filter (fun r => !r.isSwept now) =
      (s.created.map (Created.record eng)).filter fun r => !r.isSwept now := by
  refine filter_of_filter ?_ h
  intro r hr
  simp only [Bool.not_eq_true'] at hr ⊢
  exact EventRecord.isSwept_mono hnow hr

/-- A record that a query creates joins both sides. -/
theorem Complete.create (h : s.Complete eng) {w : Visit} (hnow : s.clock ≤ w.now) (c : Created)
    {journal : SurrealJournal} (hevents : journal.events =
      if w.outcome.carriedOut then s.journal.events ++ [c.record eng] else s.journal.events) :
    (s.create w c journal).Complete eng := by
  have hlater := h.later hnow
  unfold Complete EventTable.create
  simp only [hevents]
  split
  · rw [List.map_append, List.filter_append, List.filter_append, hlater]
    rfl
  · exact hlater

theorem Complete.step (h : s.Complete eng) (hs : s.apply eng m = some s') : s'.Complete eng := by
  cases m with
  | append w entry =>
    obtain ⟨hnow, hs⟩ := Option.ite_none_right_eq_some.mp hs
    cases hs
    exact h.create hnow _ rfl
  | recordEvent w namespace_ count =>
    obtain ⟨hnow, hs⟩ := Option.ite_none_right_eq_some.mp hs
    cases hs
    exact h.create hnow _ rfl
  | deleteExpired w =>
    obtain ⟨hnow, hs⟩ := Option.ite_none_right_eq_some.mp hs
    cases hs
    unfold Complete
    rw [← h.later hnow]
    simp only [SurrealJournal.deleteExpired]
    split
    · rw [List.filter_filter]
      simp only [Bool.and_self]
    · rfl
  | restart =>
    cases hs
    exact h

/-- The records that a query selects, by what was created. -/
theorem Complete.select (h : s.Complete eng) {now : Time} (hnow : s.clock ≤ now)
    {asked : EventRecord → Bool} {keep : Created → Bool} (hasked : ∀ c, asked (c.record eng) = keep c) :
    s.journal.events.filter (fun r => asked r && lastsBeyond now r.validTo) =
      (s.created.filter fun c => keep c && lastsBeyond now c.validTo).map (Created.record eng) := by
  have hsame := filter_of_filter (q := fun r => asked r && lastsBeyond now r.validTo) ?_ h
  · rw [hsame, List.filter_map]
    congr 1
    congr 1
    funext c
    rw [Function.comp_apply, hasked, Created.record_validTo]
  · intro r hr
    rw [Bool.and_eq_true] at hr
    rw [Bool.not_eq_true']
    exact EventRecord.isSwept_of_lasts hnow hr.2

end EventTable

theorem map_record_row (eng : EventEngine) (created : List Created) :
    (created.map (Created.record eng)).map (EventRecord.intoJournalRow eng) = created.map Created.row := by
  rw [List.map_map]
  congr 1
  funext c
  exact c.record_row eng

/-- The rows show what was created of a kind and has not expired, each once. -/
def EventTable.ShownBy (s : EventTable) (keep : Created → Bool) (now : Time) (rows : List JournalRow) :
    Prop :=
  rows.Perm ((s.created.filter fun c => keep c && lastsBeyond now c.validTo).map Created.row)

section Shown
variable {eng : EventEngine} {s : EventTable} {now : Time} {asked : EventRecord → Bool}
  {keep : Created → Bool}

theorem EventTable.Complete.shown (h : s.Complete eng) (hnow : s.clock ≤ now)
    (hasked : ∀ c, asked (c.record eng) = keep c) {records : List EventRecord} (hrecords : records.Perm
      (s.journal.events.filter fun r => asked r && lastsBeyond now r.validTo)) :
    s.ShownBy keep now (records.map (EventRecord.intoJournalRow eng)) := by
  unfold EventTable.ShownBy
  rw [← map_record_row eng, ← h.select hnow hasked]
  exact hrecords.map _

end Shown

/-- In every reachable state of the table, whatever the memory backend writes to it, whatever is swept and
however often the process restarts: the queries show exactly what was appended and has not expired, in
the order of its creation times. Only `recent` shows the events of the memory backend too. -/
theorem event_reads_created (eng : EventEngine) {s : EventTable}
    (h : Reaches (fun s m s' => EventTable.apply eng s m = some s') EventTable.Fresh s) {now : Time}
    (hnow : s.clock ≤ now) :
    (∀ runId, ∃ rows : List JournalRow,
      (surrealStore eng).queryByRun ⟨now, .done⟩ runId s.journal = .ok rows ∧
      rows.Pairwise (fun row row' => row.createdAt ≤ row'.createdAt) ∧
      s.ShownBy (fun c => decide (c.runId = some runId)) now rows) ∧
    (∀ sessionId, ∃ rows : List JournalRow,
      (∀ limit, (surrealStore eng).queryBySession ⟨now, .done⟩ sessionId limit s.journal =
        .ok (rows.take limit)) ∧
      rows.Pairwise (fun row row' => row'.createdAt ≤ row.createdAt) ∧
      s.ShownBy (fun c => decide (c.sessionId = some sessionId)) now rows) ∧
    ∃ rows : List JournalRow,
      (∀ limit, (surrealStore eng).recent ⟨now, .done⟩ limit s.journal = .ok (rows.take limit)) ∧
      rows.Pairwise (fun row row' => row'.createdAt ≤ row.createdAt) ∧
      s.ShownBy (fun _ => true) now rows := by
  have hcomplete : s.Complete eng := by
    refine Reaches.invariant ?_ (fun s m s' _ hi hs => hi.step hs) h
    intro s hs
    unfold EventTable.Complete
    rw [hs.1, hs.2]
    rfl
  have htake : ∀ (records : List EventRecord) (limit : ℕ),
      (records.take limit).map (EventRecord.intoJournalRow eng) =
        (records.map (EventRecord.intoJournalRow eng)).take limit := by
    intro records limit
    rw [List.map_take]
  refine ⟨?_, ?_, ?_⟩
  · intro runId
    have hshown := hcomplete.shown hnow (fun c => c.record_run eng runId) (eng.ascending_perm _)
    exact ⟨_, rfl, List.pairwise_map.mpr (eng.ascending_sorted _), hshown⟩
  · intro sessionId
    have hshown := hcomplete.shown hnow (fun c => c.record_session eng sessionId) (eng.descending_perm _)
    refine ⟨_, fun limit => ?_, List.pairwise_map.mpr (eng.descending_sorted _), hshown⟩
    exact congrArg Except.ok (htake _ limit)
  · have hshown := hcomplete.shown hnow (fun _ => rfl) (eng.descending_perm
      (s.journal.events.filter fun r => true && lastsBeyond now r.validTo))
    refine ⟨_, fun limit => ?_, List.pairwise_map.mpr (eng.descending_sorted _), hshown⟩
    exact congrArg Except.ok (htake _ limit)

/-! ## A table in use -/

/-- Sorted by an integer, the list is in the order of the integers. -/
theorem insertionSort_sorted {α : Type} (key : α → ℤ) (l : List α) :
    (l.insertionSort fun a b => key a ≤ key b).Pairwise fun a b => key a ≤ key b := by
  have htotal : Std.Total fun a b => key a ≤ key b := ⟨fun a b => le_total (key a) (key b)⟩
  have htrans : IsTrans α fun a b => key a ≤ key b := ⟨fun a b c hab hbc => hab.trans hbc⟩
  exact List.pairwise_insertionSort _ l

def plainEngine : EventEngine where
  ascending records := records.insertionSort fun r r' => r.createdAt ≤ r'.createdAt
  descending records := records.insertionSort fun r r' => -r.createdAt ≤ -r'.createdAt
  formatUuid := toString
  parseUuid text := some (Nat.ofDigitChars 10 text.toList 0)
  ascending_perm records := List.perm_insertionSort _ records
  ascending_sorted records := insertionSort_sorted EventRecord.createdAt records
  descending_perm records := List.perm_insertionSort _ records
  descending_sorted records := (insertionSort_sorted (fun r => -r.createdAt) records).imp Int.neg_le_neg_iff.mp
  parse_format id := by
    rw [Nat.toString_eq_repr, Nat.toList_repr, Nat.ofDigitChars_ten_toDigits]

def emptyTable : EventTable := ⟨.new [], 0, []⟩

/-- A run and a memory write, a sweep, and a process that starts again and numbers from zero. -/
def tableMoves : List EventMove :=
  [.append ⟨10, .done⟩ (runEvent 7 "workflow_started"), .recordEvent ⟨20, .done⟩ "konf:demo" 2,
    .append ⟨30, .done⟩ (keyedEvent 7 40 "k"), .append ⟨30, .failed "offline"⟩ (runEvent 7 "unheard"),
    .deleteExpired ⟨50, .done⟩, .restart, .append ⟨60, .lost "timeout"⟩ (runEvent 7 "workflow_completed")]

def tableRun : Option EventTable := exec (EventTable.apply plainEngine) emptyTable tableMoves

theorem event_reads_created_restarted : ∃ s, tableRun = some s ∧ s.created.length = 4 ∧
    s.journal.events.length = 3 ∧ ∃ rows : List JournalRow,
      (surrealStore plainEngine).queryByRun ⟨70, .done⟩ 7 s.journal = .ok rows ∧
      rows.map (fun row => (row.id, row.createdAt)) = [(0, 10), (0, 60)] ∧
      rows.Pairwise (fun row row' => row.createdAt ≤ row'.createdAt) ∧
      s.ShownBy (fun c => decide (c.runId = some 7)) 70 rows := by
  have hends : tableRun.isSome = true := by decide +kernel
  obtain ⟨s, hs⟩ := Option.isSome_iff_exists.mp hends
  have hsizes : ∀ s ∈ tableRun, s.clock ≤ 70 ∧ s.created.length = 4 ∧ s.journal.events.length = 3 := by
    decide +kernel
  have htimes : ∀ s ∈ tableRun, ∀ rows ∈ ((surrealStore plainEngine).queryByRun ⟨70, .done⟩ 7
      s.journal).toOption, rows.map (fun row => (row.id, row.createdAt)) = [(0, 10), (0, 60)] := by
    decide +kernel
  obtain ⟨hclock, hcreated, hevents⟩ := hsizes s hs
  have hfresh : emptyTable.Fresh := ⟨rfl, rfl⟩
  obtain ⟨rows, hrows, hsorted, hshown⟩ := (event_reads_created plainEngine
    (exec_reaches (fun _ _ _ h => h) (.start hfresh) hs) hclock).1 7
  refine ⟨s, hs, hcreated, hevents, rows, hrows, htimes s hs rows ?_, hsorted, hshown⟩
  rw [hrows]
  rfl

end Konf.Journal
