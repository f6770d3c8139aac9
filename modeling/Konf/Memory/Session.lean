import Mathlib.Data.Int.ConditionallyCompleteOrder
import Mathlib.Data.Prod.Lex
import Mathlib.Data.String.Basic
import Mathlib.Order.ConditionallyCompleteLattice.Basic
import Mathlib.Order.WithBot
import Konf.Foundations.Linearization
import Konf.Foundations.Transition
import Konf.Memory.Store

/-! # Session state

Model of `konf-tool-memory-surreal/src/session.rs`. Each SurrealQL statement is one step on the table of
`(namespace, session_id, skey)`, which the unique index makes a map; between the two statements of a
call anything may happen. What SurrealDB makes of a duration is a parameter. -/

namespace Konf.Memory
open Konf.Transition Konf.Linearization
set_option autoImplicit false

/-- Nanoseconds since the epoch. -/
abbrev Time : Type := ℤ

/-! ## The table -/

/-- Namespace, session id and key. -/
abbrev Slot : Type := String ×ₗ String ×ₗ String

def slotOf (ns sid key : String) : Slot := toLex (ns, toLex (sid, key))

def Slot.session (k : Slot) : String × String := ((ofLex k).1, (ofLex (ofLex k).2).1)

def Slot.key (k : Slot) : String := (ofLex (ofLex k).2).2

@[simp] theorem slotOf_session (ns sid key : String) : (slotOf ns sid key).session = (ns, sid) := rfl

@[simp] theorem slotOf_key (ns sid key : String) : (slotOf ns sid key).key = key := rfl

structure SessionRow where
  value : Json
  expiresAt : Option Time

/-- `expires_at != NONE AND expires_at < time::now()`. -/
def SessionRow.expired (row : SessionRow) (now : Time) : Bool := row.expiresAt.any (· < now)

abbrev SessionTable : Type := Table Slot SessionRow

def pruneExpired (t : SessionTable) (session : String × String) (now : Time) : SessionTable :=
  t.filter fun k row => !(decide (k.session = session) && row.expired now)

def deleteSession (t : SessionTable) (session : String × String) : SessionTable :=
  t.filter fun k _ => !decide (k.session = session)

/-- What SurrealDB computes and says: `time::now() + <duration>($ttl + "s")`, which can fail, and the
text of a `CREATE` that fails. -/
structure Surreal where
  expiresAt : Time → ℤ → Option Time
  later : ∀ now ttl e, 0 < ttl → expiresAt now ttl = some e → now ≤ e
  createError : String

/-- The row of a `CREATE`. -/
def Surreal.row (db : Surreal) (now : Time) (value : Json) (ttl : Option ℤ) : Option SessionRow :=
  match ttl with
  | some seconds => if 0 < seconds then (db.expiresAt now seconds).map fun e => ⟨value, some e⟩
    else some ⟨value, none⟩
  | none => some ⟨value, none⟩

/-! ## Calls -/

inductive StateCall
  | set (key : String) (value : Json) (sessionId : String) (namespace_ : Option String) (ttl : Option ℤ)
  | get (key sessionId : String) (namespace_ : Option String)
  | delete (key sessionId : String) (namespace_ : Option String)
  | list (sessionId : String) (namespace_ : Option String)
  | clear (sessionId : String) (namespace_ : Option String)
deriving DecidableEq

def ttlJson : Option ℤ → Json
  | some seconds => .num (.int seconds)
  | none => .null

def setReply (key sid ns : String) (ttl : Option ℤ) : Json :=
  .obj [("_meta", .obj [("namespace", .str ns), ("ttl", ttlJson ttl)]), ("key", .str key),
    ("session_id", .str sid)]

def getReply (key sid ns : String) (value : Json) : Json :=
  .obj [("_meta", .obj [("namespace", .str ns)]), ("key", .str key), ("session_id", .str sid),
    ("value", value)]

def deleteReply (key ns : String) (removed : ℕ) : Json :=
  .obj [("_meta", .obj [("namespace", .str ns)]), ("deleted", .str key),
    ("removed_count", .ofNat removed)]

def listReply (sid ns : String) (keys : List String) : Json :=
  .obj [("_meta", .obj [("namespace", .str ns), ("session_id", .str sid)]),
    ("keys", .arr (keys.map .str))]

def clearReply (sid ns : String) (removed : ℕ) : Json :=
  .obj [("_meta", .obj [("namespace", .str ns), ("session_id", .str sid)]), ("cleared", .ofNat removed)]

/-- A call that is under way. `begun` says that its first statement has run. -/
structure Flight where
  call : StateCall
  begun : Bool
  invoked : ℕ
  start : Time

/-- The next statement of a call: the table after it and, when it was the last one, what the call
returns. -/
def StateCall.statement (db : Surreal) (t : SessionTable) (begun : Bool) (now : Time) :
    StateCall → SessionTable × Option (Except MemoryError Json)
  | .set key value sid param ttl =>
    let slot := slotOf (resolveNamespace param) sid key
    if begun then
      -- the unique index rejects a second row
      match db.row now value ttl, t.get slot with
      | some row, none => (t.insert slot row, some (.ok (setReply key sid (resolveNamespace param) ttl)))
      | _, _ => (t, some (.error (.operationFailed db.createError)))
    else if key = "" then (t, some (.error (.validation "state:set: key must be non-empty")))
    else (t.remove slot, none)
  | .get key sid param =>
    let ns := resolveNamespace param
    if begun then
      (t, some (.ok (getReply key sid ns (((t.get (slotOf ns sid key)).map SessionRow.value).getD .null))))
    else (pruneExpired t (ns, sid) now, none)
  | .delete key sid param =>
    let slot := slotOf (resolveNamespace param) sid key
    (t.remove slot, some (.ok (deleteReply key (resolveNamespace param) (t.get slot).toList.length)))
  | .list sid param =>
    let ns := resolveNamespace param
    if begun then
      let rows := t.rows.filter fun r => r.1.session = (ns, sid)
      (t, some (.ok (listReply sid ns (rows.map fun r => r.1.key))))
    else (pruneExpired t (ns, sid) now, none)
  | .clear sid param =>
    let ns := resolveNamespace param
    let rows := t.rows.filter fun r => r.1.session = (ns, sid)
    (deleteSession t (ns, sid), some (.ok (clearReply sid ns rows.length)))

/-! ## Runs -/

/-- A call that has returned, with the times between which it ran and the table that it left. -/
structure Ended where
  call : StateCall
  reply : Except MemoryError Json
  start : Time
  finish : Time
  table : SessionTable

/-- `taken` keeps the rows that the first statement of a `set` has removed, until the key is written,
deleted or cleared or the row expires. It and the history only record. -/
structure SessionState where
  table : SessionTable
  inFlight : List Flight
  clock : Time
  stamp : ℕ
  taken : SessionTable
  history : List (Completed Ended)

inductive StateMove
  | invoke (call : StateCall) (now : Time)
  | advance (i : ℕ) (now : Time)

def takeRow (taken t : SessionTable) (k : Slot) : SessionTable :=
  match t.get k with
  | some row => taken.insert k row
  | none => taken

def StateCall.takes (db : Surreal) (t taken : SessionTable) (begun : Bool) (now : Time) :
    StateCall → SessionTable
  | .set key value sid param ttl =>
    let slot := slotOf (resolveNamespace param) sid key
    if begun then
      match db.row now value ttl, t.get slot with
      | some _, none => taken.remove slot
      | _, _ => taken
    else if key = "" then taken
    else takeRow taken t slot
  | .get _ sid param | .list sid param =>
    if begun then taken else pruneExpired taken (resolveNamespace param, sid) now
  | .delete key sid param => taken.remove (slotOf (resolveNamespace param) sid key)
  | .clear sid param => deleteSession taken (resolveNamespace param, sid)

namespace SessionState

/-- No call is under way. -/
def started (t : SessionTable) (now : Time) : SessionState := ⟨t, [], now, 0, .empty, []⟩

def invoke (s : SessionState) (call : StateCall) (now : Time) : SessionState :=
  { s with clock := now, stamp := s.stamp + 1, inFlight := s.inFlight ++ [⟨call, false, s.stamp, now⟩] }

def goOn (db : Surreal) (s : SessionState) (i : ℕ) (f : Flight) (now : Time) : SessionState where
  table := (f.call.statement db s.table f.begun now).1
  inFlight := s.inFlight.set i { f with begun := true }
  clock := now
  stamp := s.stamp + 1
  taken := f.call.takes db s.table s.taken f.begun now
  history := s.history

def finish (db : Surreal) (s : SessionState) (i : ℕ) (f : Flight) (now : Time)
    (reply : Except MemoryError Json) : SessionState where
  table := (f.call.statement db s.table f.begun now).1
  inFlight := s.inFlight.eraseIdx i
  clock := now
  stamp := s.stamp + 1
  taken := f.call.takes db s.table s.taken f.begun now
  history := s.history ++
    [⟨⟨f.call, reply, f.start, now, (f.call.statement db s.table f.begun now).1⟩, f.invoked, s.stamp⟩]

def advance (db : Surreal) (s : SessionState) (i : ℕ) (f : Flight) (now : Time) : SessionState :=
  match (f.call.statement db s.table f.begun now).2 with
  | none => s.goOn db i f now
  | some reply => s.finish db i f now reply

/-- The clock does not go back. -/
def apply (db : Surreal) (s : SessionState) : StateMove → Option SessionState
  | .invoke call now => if s.clock ≤ now then some (s.invoke call now) else none
  | .advance i now => if s.clock ≤ now then (s.inFlight[i]?).map fun f => s.advance db i f now else none

end SessionState
end Konf.Memory
