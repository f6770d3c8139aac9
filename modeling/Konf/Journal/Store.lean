import Konf.Substrate.Workflow

/-! # The journal contract

Model of `konflux-substrate/src/journal.rs`: entries, rows, filters, and the `JournalStore` trait with
its default methods. Instants are nanoseconds since the epoch, and a backend keeps microseconds. -/

namespace Konf.Journal
open Konf.Substrate
set_option autoImplicit false

abbrev RunId : Type := Uuid

abbrev Time : Type := ℤ

def timestampMicros (t : Time) : ℤ := t / 1000

def ofTimestampMicros (micros : ℤ) : Time := micros * 1000

inductive JournalError
  | storage (message : String)
  | serialization (message : String)
  | notFound
deriving DecidableEq, Repr

structure JournalEntry where
  runId : Option RunId
  sessionId : String
  namespace_ : String
  eventType : String
  payload : Json
  validTo : Option Time
  idempotencyKey : Option String
deriving DecidableEq

structure JournalRow where
  id : ℕ
  runId : Option RunId
  sessionId : String
  namespace_ : String
  eventType : String
  payload : Json
  createdAt : Time
  validTo : Option Time
  idempotencyKey : Option String
deriving DecidableEq

/-! ## Filters -/

structure JournalFilter where
  namespace_ : Option String := none
  eventType : Option String := none
  runId : Option RunId := none
  sessionId : Option String := none
  traceId : Option Uuid := none
  includeExpired : Bool := false

/-- A payload without a trace id passes the trace check. -/
def traceMatches (formatUuid : Uuid → String) (payload : Json) (tid : Uuid) : Bool :=
  match (payload.get "trace_id").bind Json.asStr with
  | some text => text == formatUuid tid
  | none => true

def JournalFilter.matches (formatUuid : Uuid → String) (filter : JournalFilter) (now : Time)
    (row : JournalRow) : Bool :=
  filter.namespace_.all (row.namespace_ == ·) &&
  filter.eventType.all (row.eventType == ·) &&
  filter.runId.all (fun rid => row.runId == some rid) &&
  filter.sessionId.all (row.sessionId == ·) &&
  filter.traceId.all (traceMatches formatUuid row.payload) &&
  (filter.includeExpired || row.validTo.all fun validTo => !decide (validTo < now))

inductive AggregateQuery
  | count
  | mostRecent
  | windowSum (field : String) (windowMs : ℕ)

inductive AggregateResult
  | count (n : ℕ)
  | mostRecent (at_ : Option Time)
  -- the bits of the sum
  | windowSum (bits : UInt64)
deriving DecidableEq

/-! ## The trait -/

/-- A backend with state `σ`. `ω` is what a call reads from outside: the clock, the order in which a
hash map is walked. The last four methods have default bodies, which a backend may keep. -/
structure JournalStore (ω σ : Type) where
  append : ω → JournalEntry → σ → Except JournalError ℕ × σ
  queryByRun : ω → RunId → σ → Except JournalError (List JournalRow)
  queryBySession : ω → String → ℕ → σ → Except JournalError (List JournalRow)
  recent : ω → ℕ → σ → Except JournalError (List JournalRow)
  reconcileZombies : ω → σ → Except JournalError ℕ × σ
  query : ω → JournalFilter → ℕ → σ → Except JournalError (List JournalRow) :=
    fun _ _ _ _ => .ok []
  aggregate : ω → JournalFilter → AggregateQuery → σ → Except JournalError AggregateResult :=
    fun _ _ _ _ => .ok (.count 0)
  getByIdempotencyKey : ω → String → σ → Except JournalError (Option JournalRow) :=
    fun _ _ _ => .ok none
  deleteExpired : ω → σ → Except JournalError ℕ × σ := fun _ s => (.ok 0, s)

end Konf.Journal
