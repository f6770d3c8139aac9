import Konf.Foundations.Codec
import Konf.Journal.Redb

/-! # The bytes of a journal entry

Model of `StoredEntry` in `konf-runtime/src/journal/redb.rs` as postcard writes it: the fields one after
the other, without tags. Two of the fields were added to the layout over time, and journals written
before that have entries that end earlier. The reads are those of the redb journal with the decoding in
place; `serde_json::from_str` is a parameter. -/

namespace Konf.Journal
open Konf.Substrate
set_option autoImplicit false

/-- `StoredEntry` field for field. -/
structure DiskEntry where
  runIdBytes : Option (List UInt8)
  sessionId : String
  namespace_ : String
  eventType : String
  payloadJson : String
  createdAtMicros : ℤ
  validToMicros : Option ℤ
  idempotencyKey : Option String
deriving DecidableEq

namespace DiskEntry

def runIdCodec : Codec (Option (List UInt8)) := .option (.block 15)

def validToCodec : Codec (Option ℤ) := .option .signed

def keyCodec : Codec (Option String) := .option .string

/-- `postcard::from_bytes`. What follows the last field is not looked at. -/
def fromBytes (bytes : List UInt8) : Except DecodeError DiskEntry := do
  let (runIdBytes, bytes) ← runIdCodec.decode bytes
  let (sessionId, bytes) ← Codec.string.decode bytes
  let (namespace_, bytes) ← Codec.string.decode bytes
  let (eventType, bytes) ← Codec.string.decode bytes
  let (payloadJson, bytes) ← Codec.string.decode bytes
  let (createdAtMicros, bytes) ← Codec.signed.decode bytes
  let (validToMicros, bytes) ← validToCodec.decode bytes
  let (idempotencyKey, _) ← keyCodec.decode bytes
  .ok { runIdBytes, sessionId, namespace_, eventType, payloadJson, createdAtMicros, validToMicros,
        idempotencyKey }

/-- What the types of the fields guarantee. -/
structure Encodable (e : DiskEntry) : Prop where
  runIdBytes : runIdCodec.valid e.runIdBytes
  sessionId : Codec.string.valid e.sessionId
  namespace_ : Codec.string.valid e.namespace_
  eventType : Codec.string.valid e.eventType
  payloadJson : Codec.string.valid e.payloadJson
  createdAtMicros : Codec.signed.valid e.createdAtMicros
  validToMicros : validToCodec.valid e.validToMicros
  idempotencyKey : keyCodec.valid e.idempotencyKey

end DiskEntry

/-! ## Layouts -/

/-- The layouts that `StoredEntry` has had: six fields, then `valid_to_micros`, then
`idempotency_key`. -/
inductive Layout
  | original
  | expiring
  | current
deriving DecidableEq, Repr

/-- The fields that a layout lacks are empty. -/
def Layout.Fits : Layout → DiskEntry → Prop
  | .original, e => e.validToMicros = none ∧ e.idempotencyKey = none
  | .expiring, e => e.idempotencyKey = none
  | .current, _ => True

def DiskEntry.sixFields (e : DiskEntry) : List UInt8 :=
  DiskEntry.runIdCodec.encode e.runIdBytes ++ (Codec.string.encode e.sessionId ++
    (Codec.string.encode e.namespace_ ++ (Codec.string.encode e.eventType ++
      (Codec.string.encode e.payloadJson ++ Codec.signed.encode e.createdAtMicros))))

/-- `postcard::to_allocvec` as it was when the layout was the current one. -/
def Layout.encode (layout : Layout) (e : DiskEntry) : List UInt8 :=
  e.sixFields ++ match layout with
    | .original => []
    | .expiring => DiskEntry.validToCodec.encode e.validToMicros
    | .current => DiskEntry.validToCodec.encode e.validToMicros ++
        DiskEntry.keyCodec.encode e.idempotencyKey

namespace DiskEntry
variable {e : DiskEntry}

theorem fromBytes_sixFields (h : e.Encodable) (rest : List UInt8) :
    fromBytes (e.sixFields ++ rest) = (do
      let (validToMicros, bytes) ← validToCodec.decode rest
      let (idempotencyKey, _) ← keyCodec.decode bytes
      .ok { e with validToMicros, idempotencyKey }) := by
  unfold fromBytes sixFields
  simp only [List.append_assoc]
  rw [runIdCodec.decode_encode _ _ h.runIdBytes]
  simp only [bind, Except.bind]
  rw [Codec.string.decode_encode _ _ h.sessionId]
  simp only
  rw [Codec.string.decode_encode _ _ h.namespace_]
  simp only
  rw [Codec.string.decode_encode _ _ h.eventType]
  simp only
  rw [Codec.string.decode_encode _ _ h.payloadJson]
  simp only
  rw [Codec.signed.decode_encode _ _ h.createdAtMicros]

theorem fromBytes_current (h : e.Encodable) : fromBytes (Layout.current.encode e) = .ok e := by
  unfold Layout.encode
  rw [fromBytes_sixFields h, validToCodec.decode_encode _ _ h.validToMicros]
  have hkey := keyCodec.decode_encode _ [] h.idempotencyKey
  rw [List.append_nil] at hkey
  simp only [bind, Except.bind]
  rw [hkey]

/-- The decoder asks for a field that an older layout did not write. -/
theorem fromBytes_older (h : e.Encodable) {layout : Layout} (hold : layout ≠ .current) :
    fromBytes (layout.encode e) = .error .unexpectedEnd := by
  unfold Layout.encode
  rw [fromBytes_sixFields h]
  cases layout with
  | original =>
    rw [validToCodec.decode_nil]
    rfl
  | expiring =>
    have hvalid := validToCodec.decode_encode _ [] h.validToMicros
    rw [List.append_nil] at hvalid
    simp only [bind, Except.bind]
    rw [hvalid]
    simp only
    rw [keyCodec.decode_nil]
  | current => exact absurd rfl hold

theorem fromBytes_encode_iff (h : e.Encodable) (layout : Layout) :
    fromBytes (layout.encode e) = .ok e ↔ layout = .current := by
  by_cases hlayout : layout = .current
  · rw [hlayout]
    simp [fromBytes_current h]
  · simp [fromBytes_older h hlayout, hlayout]

end DiskEntry

/-! ## Reading a journal -/

def decodeErrorText : DecodeError → String
  | .unexpectedEnd => "Hit the end of buffer, expected more data"
  | .badVarint => "Found a varint that didn't terminate. Is the usize too big for this platform?"
  | .badUtf8 => "Tried to parse invalid utf-8"
  | .badOption => "Found an Option discriminant that wasn't 0 or 1"

/-- `Uuid::from_bytes`. -/
def uuidFromBytes (bytes : List UInt8) : Uuid := bytes.foldl (fun n b => 256 * n + b.toNat) 0

/-- `Uuid::as_bytes`. -/
def uuidBytes (id : Uuid) : List UInt8 :=
  (List.range 16).reverse.map fun i => UInt8.ofNat (id / 256 ^ i)

/-- The entry as the reads use it, with its payload parsed. -/
def DiskEntry.stored (e : DiskEntry) (payload : Json) : StoredEntry where
  runId := e.runIdBytes.map uuidFromBytes
  sessionId := e.sessionId
  namespace_ := e.namespace_
  eventType := e.eventType
  payload := payload
  createdAtMicros := e.createdAtMicros
  validToMicros := e.validToMicros
  idempotencyKey := e.idempotencyKey

def DiskEntry.fromEntry (toStr : Json → String) (now : Time) (entry : JournalEntry) :
    DiskEntry where
  runIdBytes := entry.runId.map uuidBytes
  sessionId := entry.sessionId
  namespace_ := entry.namespace_
  eventType := entry.eventType
  payloadJson := toStr entry.payload
  createdAtMicros := timestampMicros now
  validToMicros := entry.validTo.map timestampMicros
  idempotencyKey := entry.idempotencyKey

def readEntry (bytes : List UInt8) : Except JournalError DiskEntry :=
  (DiskEntry.fromBytes bytes).mapError fun e => .serialization (decodeErrorText e)

structure DiskJournal where
  events : Table ℕ (List UInt8)
  byRun : Multimap RunId ℕ
  bySession : Multimap String ℕ
  byExpiry : Multimap ℤ ℕ
  byIdempotency : Multimap String ℕ

section Serde
variable (fromStr : String → Except String Json) (formatUuid : Uuid → String)

def DiskEntry.intoRow (e : DiskEntry) (id : ℕ) : Except JournalError JournalRow := do
  let payload ← (fromStr e.payloadJson).mapError .serialization
  .ok ((e.stored payload).row id)

def readRow (r : ℕ × List UInt8) : Except JournalError JournalRow := do
  let stored ← readEntry r.2
  stored.intoRow fromStr r.1

/-- The loop of `query`. -/
def queryLoop (keep : JournalRow → Bool) (limit : ℕ) :
    List (ℕ × List UInt8) → List JournalRow → Except JournalError (List JournalRow)
  | [], rows => .ok rows
  | r :: rest, rows =>
    if limit ≤ rows.length then .ok rows
    else do
      let row ← readRow fromStr r
      queryLoop keep limit rest (if keep row then rows ++ [row] else rows)

namespace DiskJournal

def query (d : DiskJournal) (now : Time) (filter : JournalFilter) (limit : ℕ) :
    Except JournalError (List JournalRow) :=
  queryLoop fromStr (filter.matches formatUuid now) limit d.events.rows.reverse []

def aggregate (d : DiskJournal) (now : Time) (filter : JournalFilter) (q : AggregateQuery) :
    Except JournalError AggregateResult := do
  let total ← d.events.rows.foldlM (fun acc r => do
    let row ← readRow fromStr r
    .ok (if filter.matches formatUuid now row then RedbJournal.tally acc row else acc)) (0, none)
  match q with
  | .count => .ok (.count total.1)
  | .mostRecent => .ok (.mostRecent total.2)
  | .windowSum _ _ => .error (.storage "WindowSum not yet implemented")

def recent (d : DiskJournal) (now : Time) (limit : ℕ) : Except JournalError (List JournalRow) := do
  let rows ← (d.events.rows.reverse.take limit).mapM (readRow fromStr)
  .ok (rows.filter fun row => !isExpired now row)

/-- The scan of `reconcile_zombies`. It does not look at payloads. -/
def survey (d : DiskJournal) : Except JournalError RedbJournal.Survey :=
  d.events.rows.foldlM (fun v r => do
    let stored ← readEntry r.2
    .ok (v.visit (stored.stored .null))) ⟨∅, []⟩

/-- The scan of `delete_expired`. -/
def expired (d : DiskJournal) (now : Time) : Except JournalError (List (ℕ × StoredEntry)) :=
  d.events.rows.foldlM (fun found r => do
    let stored ← readEntry r.2
    .ok (if (stored.stored .null).isSwept now then found ++ [(r.1, stored.stored .null)]
      else found)) []

/-! ### What follows the scans -/

variable (toStr : Json → String)

def append (d : DiskJournal) (now : Time) (entry : JournalEntry) : DiskJournal :=
  let id := (d.events.lastKey.map (· + 1)).getD 1
  let stored := DiskEntry.fromEntry toStr now entry
  { events := d.events.insert id (Layout.current.encode stored)
    byRun := d.byRun.insertAt entry.runId id
    bySession := d.bySession.insert stored.sessionId id
    byExpiry := d.byExpiry.insertAt stored.validToMicros id
    byIdempotency := d.byIdempotency.insertAt stored.idempotencyKey id }

def reconcileZombies (d : DiskJournal) (stamped : List (Time × JournalEntry)) :
    Except JournalError (ℕ × DiskJournal) := do
  let v ← d.survey
  let zombies := v.started.entries.filter fun e => e.1 ∉ v.terminal
  .ok (zombies.length, stamped.foldl (fun d e => d.append toStr e.1 e.2) d)

def forget (d : DiskJournal) (r : ℕ × StoredEntry) : DiskJournal where
  events := d.events.remove r.1
  byRun := d.byRun.removeAt r.2.runId r.1
  bySession := d.bySession.remove r.2.sessionId r.1
  byExpiry := d.byExpiry.removeAt r.2.validToMicros r.1
  byIdempotency := d.byIdempotency.removeAt r.2.idempotencyKey r.1

def deleteExpired (d : DiskJournal) (now : Time) : Except JournalError (ℕ × DiskJournal) := do
  let expired ← d.expired now
  .ok (if expired.isEmpty then (0, d) else (expired.length, expired.foldl forget d))

end DiskJournal

end Serde

/-! ## Journals with entries of several layouts -/

/-- An entry as one of the layouts wrote it, with the payload that its text parses to. -/
structure WrittenEntry (fromStr : String → Except String Json) where
  layout : Layout
  entry : DiskEntry
  payload : Json
  fits : layout.Fits entry
  encodable : entry.Encodable
  parses : fromStr entry.payloadJson = .ok payload

def WrittenEntry.bytes {fromStr : String → Except String Json} (w : WrittenEntry fromStr) :
    List UInt8 := w.layout.encode w.entry

structure MixedJournal (fromStr : String → Except String Json) where
  written : Table ℕ (WrittenEntry fromStr)
  byRun : Multimap RunId ℕ
  bySession : Multimap String ℕ
  byExpiry : Multimap ℤ ℕ
  byIdempotency : Multimap String ℕ

namespace MixedJournal
variable {fromStr : String → Except String Json}

def disk (m : MixedJournal fromStr) : DiskJournal :=
  ⟨m.written.mapValues WrittenEntry.bytes, m.byRun, m.bySession, m.byExpiry, m.byIdempotency⟩

/-- The journal with its entries decoded. -/
def value (m : MixedJournal fromStr) : RedbJournal :=
  ⟨m.written.mapValues fun w => w.entry.stored w.payload, m.byRun, m.bySession, m.byExpiry,
    m.byIdempotency⟩

def AllCurrent (m : MixedJournal fromStr) : Prop :=
  ∀ r ∈ m.written.rows, r.2.layout = .current

/-- The operations that read the log succeed. -/
structure Readable (m : MixedJournal fromStr) (formatUuid : Uuid → String)
    (toStr : Json → String) : Prop where
  query : ∀ now filter limit, (m.disk.query fromStr formatUuid now filter limit).isOk
  count : ∀ now filter, (m.disk.aggregate fromStr formatUuid now filter .count).isOk
  mostRecent : ∀ now filter, (m.disk.aggregate fromStr formatUuid now filter .mostRecent).isOk
  recent : ∀ now limit, (m.disk.recent fromStr now limit).isOk
  reconcileZombies : ∀ stamped, (m.disk.reconcileZombies toStr stamped).isOk
  deleteExpired : ∀ now, (m.disk.deleteExpired now).isOk

section Reads
variable {m : MixedJournal fromStr} {now : Time} {filter : JournalFilter} {limit : ℕ}
variable {formatUuid : Uuid → String} {toStr : Json → String}

theorem readEntry_current {w : WrittenEntry fromStr} (h : w.layout = .current) :
    readEntry w.bytes = .ok w.entry := by
  unfold readEntry WrittenEntry.bytes
  rw [h, DiskEntry.fromBytes_current w.encodable]
  rfl

theorem layout_of_readEntry {w : WrittenEntry fromStr} {e : DiskEntry}
    (h : readEntry w.bytes = .ok e) : w.layout = .current := by
  by_contra hold
  unfold readEntry WrittenEntry.bytes at h
  rw [DiskEntry.fromBytes_older w.encodable hold] at h
  cases h

theorem readRow_current {w : WrittenEntry fromStr} (h : w.layout = .current) (id : ℕ) :
    readRow fromStr (id, w.bytes) = .ok ((w.entry.stored w.payload).row id) := by
  unfold readRow
  rw [readEntry_current h]
  show w.entry.intoRow fromStr id = _
  unfold DiskEntry.intoRow
  rw [w.parses]
  rfl

theorem queryLoop_eq {α : Type} (keep : JournalRow → Bool) {read : α → ℕ × List UInt8}
    {row : α → JournalRow} {items : List α}
    (h : ∀ a ∈ items, readRow fromStr (read a) = .ok (row a)) {found : List JournalRow}
    (hroom : found.length ≤ limit) :
    queryLoop fromStr keep limit (items.map read) found =
      .ok ((found ++ (items.map row).filter keep).take limit) := by
  induction items generalizing found with
  | nil =>
    rw [List.map_nil, List.map_nil, List.filter_nil, List.append_nil, List.take_of_length_le hroom]
    rfl
  | cons a rest ih =>
    rw [List.map_cons, List.map_cons, queryLoop]
    by_cases hfull : limit ≤ found.length
    · have hlen : found.length = limit := Nat.le_antisymm hroom hfull
      rw [if_pos hfull, List.take_append_of_le_length hfull, ← hlen, List.take_length]
    · have hrest : ∀ found : List JournalRow, found.length ≤ limit → _ :=
        fun _ hfound => ih (fun b hb => h b (List.mem_cons_of_mem _ hb)) hfound
      rw [if_neg hfull, h a (List.mem_cons_self ..)]
      show queryLoop fromStr keep limit (rest.map read) _ = _
      cases hkeep : keep (row a) with
      | false =>
        rw [List.filter_cons_of_neg (by simp [hkeep])]
        exact hrest found hroom
      | true =>
        have hlonger : (found ++ [row a]).length ≤ limit := by
          rw [List.length_append, List.length_singleton]
          omega
        have htail := hrest (found ++ [row a]) hlonger
        rw [List.append_assoc, List.singleton_append] at htail
        rw [List.filter_cons_of_pos hkeep]
        exact htail

theorem disk_query (h : m.AllCurrent) :
    m.disk.query fromStr formatUuid now filter limit =
      .ok ((m.value.rows.reverse.filter (filter.matches formatUuid now)).take limit) := by
  unfold DiskJournal.query RedbJournal.rows disk value Table.mapValues
  simp only [← List.map_reverse, List.map_map]
  refine queryLoop_eq _ ?_ (Nat.zero_le _)
  intro r hr
  exact readRow_current (h r (List.mem_reverse.mp hr)) r.1

theorem disk_tallied (h : m.AllCurrent) :
    m.disk.events.rows.foldlM (fun (acc : ℕ × Option Time) r => do
      let row ← readRow fromStr r
      .ok (if filter.matches formatUuid now row then RedbJournal.tally acc row else acc))
        (0, none) =
      .ok ((m.value.rows.filter (filter.matches formatUuid now)).foldl RedbJournal.tally (0, none)) := by
  rw [List.foldl_filter]
  unfold RedbJournal.rows disk value Table.mapValues
  simp only [List.map_map, List.foldlM_map, List.foldl_map]
  refine Fallible.foldlM_eq_ok ?_ _
  intro r hr acc
  rw [readRow_current (h r hr)]
  rfl

theorem disk_recent (h : m.AllCurrent) :
    m.disk.recent fromStr now limit =
      .ok ((m.value.rows.reverse.take limit).filter fun row => !isExpired now row) := by
  unfold DiskJournal.recent RedbJournal.rows disk value Table.mapValues
  simp only [← List.map_reverse, ← List.map_take, List.map_map, List.mapM_map]
  rw [Fallible.mapM_eq_ok (g := fun r => (r.2.entry.stored r.2.payload).row r.1)]
  · rfl
  · intro r hr
    exact readRow_current (h r (List.mem_reverse.mp (List.mem_of_mem_take hr))) r.1

theorem disk_survey (h : m.AllCurrent) : m.disk.survey = .ok m.value.survey := by
  unfold DiskJournal.survey RedbJournal.survey disk value Table.mapValues
  simp only [List.map_map, List.foldlM_map, List.foldl_map]
  refine Fallible.foldlM_eq_ok ?_ _
  intro r hr v
  rw [readEntry_current (h r hr)]
  rfl

theorem disk_expired (h : m.AllCurrent) :
    m.disk.expired now = .ok ((m.written.rows.filter fun r =>
      (r.2.entry.stored .null).isSwept now).map fun r => (r.1, r.2.entry.stored .null)) := by
  have hloop : ∀ (rows : List (ℕ × WrittenEntry fromStr)) (found : List (ℕ × StoredEntry)),
      rows.foldl (fun found r => if (r.2.entry.stored .null).isSwept now then
        found ++ [(r.1, r.2.entry.stored .null)] else found) found =
      found ++ (rows.filter fun r => (r.2.entry.stored .null).isSwept now).map fun r =>
        (r.1, r.2.entry.stored .null) := by
    intro rows
    induction rows with
    | nil => simp
    | cons r rest ih =>
      intro found
      rw [List.foldl_cons, ih, List.filter_cons]
      split_ifs with hswept
      · rw [List.map_cons, List.append_assoc, List.singleton_append]
      · rfl
  rw [← List.nil_append (List.map _ _), ← hloop]
  unfold DiskJournal.expired disk Table.mapValues
  simp only [List.foldlM_map]
  refine Fallible.foldlM_eq_ok ?_ _
  intro r hr found
  rw [readEntry_current (h r hr)]
  rfl

/-- Of a journal in the current layout the reads give the rows of the journal with its entries
decoded. -/
theorem readable_of_allCurrent (h : m.AllCurrent) : m.Readable formatUuid toStr where
  query now filter limit := by
    rw [disk_query h]
    rfl
  count now filter := by
    unfold DiskJournal.aggregate
    rw [disk_tallied h]
    rfl
  mostRecent now filter := by
    unfold DiskJournal.aggregate
    rw [disk_tallied h]
    rfl
  recent now limit := by
    rw [disk_recent h]
    rfl
  reconcileZombies stamped := by
    unfold DiskJournal.reconcileZombies
    rw [disk_survey h]
    rfl
  deleteExpired now := by
    unfold DiskJournal.deleteExpired
    rw [disk_expired h]
    rfl

/-- The scan of the sweep looks at every entry. -/
theorem allCurrent_of_deleteExpired (h : (m.disk.deleteExpired now).isOk) : m.AllCurrent := by
  obtain ⟨out, hout⟩ := Fallible.isOk_iff.mp h
  obtain ⟨found, hfound, -⟩ := Fallible.bind_ok hout
  intro r hr
  have hmem : (r.1, r.2.bytes) ∈ m.disk.events.rows := List.mem_map_of_mem hr
  obtain ⟨before, after, hstep⟩ := Fallible.foldlM_ok hfound _ hmem
  obtain ⟨e, he, -⟩ := Fallible.bind_ok hstep
  exact layout_of_readEntry he

end Reads

/-- The decoder gives back an entry, with the fields that its layout lacks as `None`, only when the
layout is the current one; and the operations that scan the log succeed only when every entry is in
the current layout. -/
theorem readable_iff_allCurrent (m : MixedJournal fromStr) (formatUuid : Uuid → String)
    (toStr : Json → String) :
    (∀ w : WrittenEntry fromStr,
      DiskEntry.fromBytes w.bytes = .ok w.entry ↔ w.layout = .current) ∧
    (m.Readable formatUuid toStr ↔ m.AllCurrent) := by
  constructor
  · intro w
    exact DiskEntry.fromBytes_encode_iff w.encodable w.layout
  · constructor
    · intro h
      exact allCurrent_of_deleteExpired (h.deleteExpired 0)
    · intro h
      exact readable_of_allCurrent h

end MixedJournal

/-- A parser that knows the text of `null`. -/
def nullFromStr (text : String) : Except String Json :=
  if text = "null" then .ok .null else .error "expected value"

def startedOnDisk : DiskEntry where
  runIdBytes := none
  sessionId := "s"
  namespace_ := "n"
  eventType := "workflow_started"
  payloadJson := "null"
  createdAtMicros := 0
  validToMicros := none
  idempotencyKey := none

theorem startedOnDisk_encodable : startedOnDisk.Encodable where
  runIdBytes := by intro _ h; cases h
  sessionId := by
    show (Codec.utf8Bytes "s").length < 2 ^ 64
    decide +kernel
  namespace_ := by
    show (Codec.utf8Bytes "n").length < 2 ^ 64
    decide +kernel
  eventType := by
    show (Codec.utf8Bytes "workflow_started").length < 2 ^ 64
    decide +kernel
  payloadJson := by
    show (Codec.utf8Bytes "null").length < 2 ^ 64
    decide +kernel
  createdAtMicros := by constructor <;> decide
  validToMicros := by intro _ h; cases h
  idempotencyKey := by intro _ h; cases h

/-- The entry as the first layout wrote it. -/
def startedBefore : WrittenEntry nullFromStr where
  layout := .original
  entry := startedOnDisk
  payload := .null
  fits := ⟨rfl, rfl⟩
  encodable := startedOnDisk_encodable
  parses := rfl

def oldJournal : MixedJournal nullFromStr :=
  ⟨⟨[(1, startedBefore)], List.pairwise_singleton _ _⟩, .empty, .empty, .empty, .empty⟩

/-- An entry of the first layout does not decode, and the sweep of a journal with it fails. -/
theorem old_journal_unreadable :
    DiskEntry.fromBytes startedBefore.bytes = .error .unexpectedEnd ∧
    ¬ (oldJournal.disk.deleteExpired 0).isOk := by
  constructor
  · exact DiskEntry.fromBytes_older startedOnDisk_encodable (by decide)
  · intro h
    have hcurrent := MixedJournal.allCurrent_of_deleteExpired h (1, startedBefore)
      (List.mem_singleton.mpr rfl)
    cases hcurrent

end Konf.Journal
