import Konf.Foundations.Table
import Konf.Foundations.Transition
import Konf.Journal.Store

/-! # The redb journal

Model of `konf-runtime/src/journal/redb.rs`: the log, its four indexes, and every method of the
`JournalStore` implementation. A write transaction is one step, the database itself does not fail, and
postcard reads back what it wrote, so a stored entry is kept as its value. Its payload is JSON text,
which reads back only up to the depth that `serde_json` takes: a read fails at the first entry it comes
to whose payload does not. Sequence ids are naturals: the code's `u64` would need `2 ^ 64` appends to
run over. -/

namespace Konf.Journal
open Konf.Substrate Konf.Transition
set_option autoImplicit false

structure StoredEntry where
  runId : Option RunId
  sessionId : String
  namespace_ : String
  eventType : String
  payload : Json
  createdAtMicros : ℤ
  validToMicros : Option ℤ
  idempotencyKey : Option String
deriving DecidableEq

def StoredEntry.fromEntry (now : Time) (entry : JournalEntry) : StoredEntry where
  runId := entry.runId
  sessionId := entry.sessionId
  namespace_ := entry.namespace_
  eventType := entry.eventType
  payload := entry.payload
  createdAtMicros := timestampMicros now
  validToMicros := entry.validTo.map timestampMicros
  idempotencyKey := entry.idempotencyKey

/-- The row that an entry stands for. -/
def StoredEntry.row (stored : StoredEntry) (id : ℕ) : JournalRow where
  id := id
  runId := stored.runId
  sessionId := stored.sessionId
  namespace_ := stored.namespace_
  eventType := stored.eventType
  payload := stored.payload
  createdAt := ofTimestampMicros stored.createdAtMicros
  validTo := stored.validToMicros.map ofTimestampMicros
  idempotencyKey := stored.idempotencyKey

/-- `into_row`, whose payload is parsed again. -/
def StoredEntry.intoRow (stored : StoredEntry) (id : ℕ) : Except JournalError JournalRow := do
  let payload ← stored.payload.readBack.mapError .serialization
  .ok { stored.row id with payload := payload }

structure RedbJournal where
  events : Table ℕ StoredEntry
  byRun : Multimap RunId ℕ
  bySession : Multimap String ℕ
  byExpiry : Multimap ℤ ℕ
  byIdempotency : Multimap String ℕ

def isExpired (now : Time) (row : JournalRow) : Bool :=
  (row.validTo.map fun validTo => decide (validTo < now)).getD false

/-- What `delete_expired` asks of an entry. -/
def StoredEntry.isSwept (now : Time) (stored : StoredEntry) : Bool :=
  stored.validToMicros.any fun validTo => decide (validTo ≤ timestampMicros now)

namespace RedbJournal

def open_ : RedbJournal := ⟨.empty, .empty, .empty, .empty, .empty⟩

/-! ## Writing -/

def nextId (j : RedbJournal) : ℕ := (j.events.lastKey.map (· + 1)).getD 1

/-- The inserts of one write transaction. -/
def record (j : RedbJournal) (id : ℕ) (stored : StoredEntry) : RedbJournal where
  events := j.events.insert id stored
  byRun := j.byRun.insertAt stored.runId id
  bySession := j.bySession.insert stored.sessionId id
  byExpiry := j.byExpiry.insertAt stored.validToMicros id
  byIdempotency := j.byIdempotency.insertAt stored.idempotencyKey id

/-- `append`, with the id it returns. -/
def append (j : RedbJournal) (now : Time) (entry : JournalEntry) : ℕ × RedbJournal :=
  (j.nextId, j.record j.nextId (StoredEntry.fromEntry now entry))

/-- The removals for one expired entry. -/
def forget (j : RedbJournal) (r : ℕ × StoredEntry) : RedbJournal where
  events := j.events.remove r.1
  byRun := j.byRun.removeAt r.2.runId r.1
  bySession := j.bySession.remove r.2.sessionId r.1
  byExpiry := j.byExpiry.removeAt r.2.validToMicros r.1
  byIdempotency := j.byIdempotency.removeAt r.2.idempotencyKey r.1

def deleteExpired (j : RedbJournal) (now : Time) : ℕ × RedbJournal :=
  let expired := j.events.rows.filter fun r => r.2.isSwept now
  if expired.isEmpty then (0, j) else (expired.length, expired.foldl forget j)

/-! ## Reconciliation -/

/-- The two collections that the scan of `reconcile_zombies` builds. -/
structure Survey where
  started : AList fun _ : RunId => String × String
  terminal : List RunId

def isTerminalEvent (eventType : String) : Bool :=
  eventType == "workflow_completed" || eventType == "workflow_failed" ||
    eventType == "workflow_cancelled"

def Survey.visit (v : Survey) (stored : StoredEntry) : Survey :=
  match stored.runId with
  | none => v
  | some runId =>
    if stored.eventType = "workflow_started" then
      match v.started.lookup runId with
      | some _ => v
      | none => { v with started := v.started.insert runId (stored.sessionId, stored.namespace_) }
    else if isTerminalEvent stored.eventType then
      { v with terminal := v.terminal.insert runId }
    else v

def survey (j : RedbJournal) : Survey :=
  (j.events.rows.map Prod.snd).foldl Survey.visit ⟨∅, []⟩

def reconciliation (runId : RunId) (origin : String × String) : JournalEntry where
  runId := some runId
  sessionId := origin.1
  namespace_ := origin.2
  eventType := "workflow_failed"
  payload := .obj [("error", .str "System restart — workflow was interrupted"),
    ("reconciled", .bool true)]
  validTo := none
  idempotencyKey := none

/-- The entries to append, in the order of the hash map. -/
def zombies (j : RedbJournal) : List JournalEntry :=
  (j.survey.started.entries.filter fun e => e.1 ∉ j.survey.terminal).map fun e =>
    reconciliation e.1 e.2

/-- Appends made one after the other, each with its own clock reading, and the ids they return. -/
def appendAll (j : RedbJournal) : List (Time × JournalEntry) → List ℕ × RedbJournal
  | [] => ([], j)
  | e :: rest =>
    let r := j.append e.1 e.2
    let s := appendAll r.2 rest
    (r.1 :: s.1, s.2)

/-- `reconcile_zombies` with the entries in the order of the hash map, each with the clock reading of
its append. -/
def reconcileZombies (j : RedbJournal) (stamped : List (Time × JournalEntry)) : ℕ × RedbJournal :=
  (j.zombies.length, (j.appendAll stamped).2)

/-! ## Reading -/

def rowAt (j : RedbJournal) (id : ℕ) : Option JournalRow := (j.events.get id).map (·.row id)

/-- The rows that the log stands for. -/
def rows (j : RedbJournal) : List JournalRow := j.events.rows.map fun r => r.2.row r.1

/-- The entry with an id, if there is one, as a row. -/
def readAt (j : RedbJournal) (id : ℕ) : Except JournalError (Option JournalRow) :=
  (j.events.get id).mapM fun stored => stored.intoRow id

def queryByRun (j : RedbJournal) (now : Time) (runId : RunId) :
    Except JournalError (List JournalRow) := do
  let found ← (j.byRun.get runId).mapM j.readAt
  .ok (((found.filterMap id).insertionSort fun a b => a.id ≤ b.id).filter
    fun row => !isExpired now row)

def queryBySession (j : RedbJournal) (now : Time) (sessionId : String) (limit : ℕ) :
    Except JournalError (List JournalRow) :=
  scanUpTo limit
    (fun id => do
      let row ← j.readAt id
      .ok (row.filter fun row => !isExpired now row))
    ((j.bySession.get sessionId).insertionSort (· ≤ ·)).reverse []

/-- The limit is applied before the expired rows are dropped. -/
def recent (j : RedbJournal) (now : Time) (limit : ℕ) : Except JournalError (List JournalRow) := do
  let rows ← (j.events.rows.reverse.take limit).mapM fun r => r.2.intoRow r.1
  .ok (rows.filter fun row => !isExpired now row)

section Filters
variable (formatUuid : Uuid → String)

def query (j : RedbJournal) (now : Time) (filter : JournalFilter) (limit : ℕ) :
    Except JournalError (List JournalRow) :=
  scanUpTo limit
    (fun r => do
      let row ← r.2.intoRow r.1
      .ok (if filter.matches formatUuid now row then some row else none))
    j.events.rows.reverse []

/-- The loop of `aggregate`: the count and the latest `created_at`. -/
def tally (acc : ℕ × Option Time) (row : JournalRow) : ℕ × Option Time :=
  (acc.1 + 1, match acc.2 with
    | none => some row.createdAt
    | some prev => if prev < row.createdAt then some row.createdAt else some prev)

def aggregate (j : RedbJournal) (now : Time) (filter : JournalFilter) (q : AggregateQuery) :
    Except JournalError AggregateResult := do
  let total ← j.events.rows.foldlM (fun acc r => do
    let row ← r.2.intoRow r.1
    .ok (if filter.matches formatUuid now row then tally acc row else acc)) (0, none)
  match q with
  | .count => .ok (.count total.1)
  | .mostRecent => .ok (.mostRecent total.2)
  | .windowSum _ _ => .error (.storage "WindowSum not yet implemented")

end Filters

/-- The entry with the greatest id so far. -/
def better (j : RedbJournal) (best : Option (ℕ × StoredEntry)) (id : ℕ) : Option (ℕ × StoredEntry) :=
  match best with
  | some (prev, stored) =>
    if id ≤ prev then some (prev, stored)
    else ((j.events.get id).map (id, ·)).or (some (prev, stored))
  | none => (j.events.get id).map (id, ·)

/-- Only the newest entry of a key is looked at: if it has expired there is no answer. -/
def getByIdempotencyKey (j : RedbJournal) (now : Time) (key : String) :
    Except JournalError (Option JournalRow) :=
  match (j.byIdempotency.get key).foldl j.better none with
  | some (id, stored) => do
    let row ← stored.intoRow id
    .ok (if isExpired now row then none else some row)
  | none => .ok none

end RedbJournal

/-! ## What the writes do to the log -/

section Log
variable {j : RedbJournal} {now : Time}

theorem RedbJournal.lt_nextId {r : ℕ × StoredEntry} (hr : r ∈ j.events.rows) : r.1 < j.nextId := by
  unfold RedbJournal.nextId
  cases hlast : j.events.lastKey with
  | none =>
    rw [Table.lastKey_eq_none_iff.mp hlast] at hr
    cases hr
  | some k => exact Nat.lt_succ_of_le (Table.le_lastKey hlast hr)

theorem RedbJournal.append_rows (j : RedbJournal) (now : Time) (entry : JournalEntry) :
    (j.append now entry).2.events.rows =
      j.events.rows ++ [(j.nextId, StoredEntry.fromEntry now entry)] :=
  Table.insert_rows_of_lt fun _ hr => RedbJournal.lt_nextId hr

theorem RedbJournal.appendAll_rows (j : RedbJournal) (batch : List (Time × JournalEntry)) :
    ∃ appended, (j.appendAll batch).2.events.rows = j.events.rows ++ appended ∧
      appended.map Prod.snd = batch.map fun e => StoredEntry.fromEntry e.1 e.2 := by
  induction batch generalizing j with
  | nil => exact ⟨[], (List.append_nil _).symm, rfl⟩
  | cons e rest ih =>
    obtain ⟨appended, hrows, hentries⟩ := ih (j.append e.1 e.2).2
    refine ⟨(j.nextId, StoredEntry.fromEntry e.1 e.2) :: appended, ?_, ?_⟩
    · rw [RedbJournal.appendAll, hrows, RedbJournal.append_rows, List.append_assoc,
        List.singleton_append]
    · rw [List.map_cons, List.map_cons, hentries]

theorem RedbJournal.foldl_forget_rows (j : RedbJournal) (gone : List (ℕ × StoredEntry)) :
    (gone.foldl RedbJournal.forget j).events.rows =
      j.events.rows.filter fun r => r.1 ∉ gone.map Prod.fst := by
  induction gone generalizing j with
  | nil => simp
  | cons g rest ih =>
    rw [List.foldl_cons, ih]
    change (j.events.rows.filter fun r => decide (r.1 ≠ g.1)).filter _ = _
    rw [List.filter_filter]
    congr 1
    funext r
    simp only [List.map_cons, List.mem_cons, not_or, Bool.decide_and, Bool.and_comm, ne_eq]

/-- The sweep removes what has expired and leaves the other entries as they are. -/
theorem RedbJournal.deleteExpired_rows (j : RedbJournal) (now : Time) :
    (j.deleteExpired now).2.events.rows = j.events.rows.filter fun r => !r.2.isSwept now := by
  unfold RedbJournal.deleteExpired
  simp only
  split_ifs with hnone
  · refine (List.filter_eq_self.mpr ?_).symm
    intro r hr
    have hkept := List.filter_eq_nil_iff.mp (List.isEmpty_iff.mp hnone) r hr
    simpa using hkept
  · rw [RedbJournal.foldl_forget_rows]
    refine List.filter_congr ?_
    intro r hr
    have hgone : r.1 ∈ (j.events.rows.filter fun r => r.2.isSwept now).map Prod.fst ↔
        r.2.isSwept now = true := by
      constructor
      · intro hmem
        obtain ⟨r', hr', hk⟩ := List.mem_map.mp hmem
        obtain ⟨hr', hswept⟩ := List.mem_filter.mp hr'
        rw [← Table.row_unique hr' hr hk]
        exact hswept
      · intro hswept
        exact List.mem_map_of_mem (List.mem_filter.mpr ⟨hr, hswept⟩)
    cases hs : r.2.isSwept now with
    | true => simp [hgone.mpr hs]
    | false => simp [hgone, hs]

end Log

/-! ## Runs -/

inductive Write
  | append (now : Time) (entry : JournalEntry)
  | deleteExpired (now : Time)

/-- A write, with the ids it returns. -/
def Write.perform : Write → RedbJournal → List ℕ × RedbJournal
  | .append now entry, j => ([(j.append now entry).1], (j.append now entry).2)
  | .deleteExpired now, j => ([], (j.deleteExpired now).2)

inductive JournalOp
  | write (w : Write)
  | reconcileZombies (stamped : List (Time × JournalEntry))

inductive JournalStep (j : RedbJournal) : JournalOp → RedbJournal → Prop
  | write (w : Write) : JournalStep j (.write w) (w.perform j).2
  | reconcileZombies {stamped : List (Time × JournalEntry)}
      (horder : (stamped.map Prod.snd).Perm j.zombies) :
      JournalStep j (.reconcileZombies stamped) (j.reconcileZombies stamped).2

/-- An entry without an expiry stays, whatever is done to the journal. -/
theorem JournalStep.keeps {j j' : RedbJournal} {op : JournalOp} (h : JournalStep j op j')
    {r : ℕ × StoredEntry} (hr : r ∈ j.events.rows) (hforever : r.2.validToMicros = none) :
    r ∈ j'.events.rows := by
  cases h with
  | write w =>
    cases w with
    | append now entry =>
      change r ∈ (j.append now entry).2.events.rows
      rw [RedbJournal.append_rows]
      exact List.mem_append_left _ hr
    | deleteExpired now =>
      change r ∈ (j.deleteExpired now).2.events.rows
      rw [RedbJournal.deleteExpired_rows]
      refine List.mem_filter.mpr ⟨hr, ?_⟩
      simp only [StoredEntry.isSwept, hforever, Option.any_none, Bool.not_false]
  | @reconcileZombies stamped _ =>
    obtain ⟨appended, hrows, -⟩ := j.appendAll_rows stamped
    change r ∈ (j.appendAll stamped).2.events.rows
    rw [hrows]
    exact List.mem_append_left _ hr

def RedbJournal.Reachable : RedbJournal → Prop := Reaches JournalStep (· = .open_)

end Konf.Journal
