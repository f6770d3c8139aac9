import Mathlib.Data.Prod.Lex
import Mathlib.Order.WithBot
import Konf.Foundations.Ranked
import Konf.Journal.Store
import Konf.Runtime.Handoff

/-! # Timers

Model of the storage of `konf-runtime/src/scheduler.rs`: the table of timers, keyed by fire time and
job id, the index from job id to fire time, and the transactions on both. A write transaction is one
step and does not fail, and postcard reads back what it wrote, so a stored timer is kept as its value;
its input is JSON text, which reads back only up to the depth that `serde_json` takes. `jobs` is what
`list` gives when it can read every input it comes to. Job ids are compared as their bytes, which is the
order of the naturals they stand for. -/

namespace Konf.Scheduler
open Konf.Substrate Konf.Text Konf.Runtime Konf.Journal
set_option autoImplicit false

abbrev JobId : Type := Uuid

/-! ## The clock -/

def timestampMillis (t : Time) : ℤ := t / 1000000

/-- The milliseconds of a key: `timestamp_millis().max(0) as u64`. -/
def fireAtMs (t : Time) : ℕ := (timestampMillis t).toNat

/-- A reading of `Utc::now`, which does not go back behind the epoch, and whose milliseconds fit in an
`i64`. -/
structure Instant where
  time : Time
  epoch : 0 ≤ time
  fits : timestampMillis time < 2 ^ 63

def epoch : Instant := ⟨0, by decide, by decide⟩

def Instant.ms (now : Instant) : ℕ := fireAtMs now.time

theorem Instant.ms_fits (now : Instant) : now.ms < 2 ^ 63 := by
  have h := now.fits
  unfold Instant.ms fireAtMs
  omega

/-- The `cron` crate: an expression does not parse, or gives the next fire time after an instant. -/
abbrev Cron : Type := String → Except String (Time → Option Time)

/-! ## Records -/

/-- `TimerRecord` with the two fields that only storage and `list` read. -/
structure Timer extends TimerRecord where
  createdAt : Time
  createdBy : String

structure StoredTimer extends TimerRecord where
  createdAtMicros : ℤ
  createdBy : String

def StoredTimer.fromRecord (record : Timer) : StoredTimer where
  toTimerRecord := record.toTimerRecord
  createdAtMicros := timestampMicros record.createdAt
  createdBy := record.createdBy

/-- The timer that a row stands for. -/
def StoredTimer.timer (stored : StoredTimer) : Timer where
  toTimerRecord := stored.toTimerRecord
  createdAt := ofTimestampMicros stored.createdAtMicros
  createdBy := stored.createdBy

/-- `into_record`, whose input is parsed again. -/
def StoredTimer.intoRecord (stored : StoredTimer) : Except String Timer := do
  let input ← stored.input.readBack.mapError fun e => "serialization: " ++ e
  .ok { stored.timer with input := input }

@[simp] theorem StoredTimer.fromRecord_timer (stored : StoredTimer) :
    fromRecord stored.timer = stored := by
  have hmicros : timestampMicros (ofTimestampMicros stored.createdAtMicros) = stored.createdAtMicros :=
    Int.mul_ediv_cancel _ (by decide)
  simp only [fromRecord, timer, hmicros]

theorem StoredTimer.intoRecord_of_readable {stored : StoredTimer} (h : stored.input.Readable) :
    stored.intoRecord = .ok stored.timer := by
  rw [intoRecord, Json.readBack_of_readable h]
  rfl

theorem StoredTimer.intoRecord_eq_ok_iff {stored : StoredTimer} {record : Timer} :
    stored.intoRecord = .ok record ↔ stored.input.Readable ∧ record = stored.timer := by
  constructor
  · intro h
    have hreadable : stored.input.Readable := by
      by_contra hdeep
      rw [intoRecord, Json.readBack_of_not_readable hdeep] at h
      cases h
    rw [intoRecord_of_readable hreadable] at h
    exact ⟨hreadable, (Except.ok.inj h).symm⟩
  · rintro ⟨h, rfl⟩
    exact intoRecord_of_readable h

structure JobSummary where
  jobId : JobId
  workflow : String
  namespace_ : String
  nextFireAt : Time
  mode : TimerMode
  createdAt : Time
  createdBy : String

/-! ## Tables -/

abbrev TimerKey : Type := ℕ ×ₗ JobId

structure Tables where
  timers : Table TimerKey StoredTimer
  timersById : Table JobId ℕ

/-- A bound of a range over the keys. The empty slice stands below every id. -/
abbrev KeyBound : Type := ℕ ×ₗ WithBot JobId

def TimerKey.bound (k : TimerKey) : KeyBound := toLex ((ofLex k).1, WithBot.some (ofLex k).2)

/-- Where a timer fires next: the clock is read again at this moment. A cron expression that no longer
parses has no next time. -/
def nextFireAfter (cron : Cron) (now : Instant) : TimerMode → Option Time
  | .once => none
  | .fixed delayMs => some (now.time + delayMs * 1000000)
  | .cron expr => match cron expr with
    | .ok upcoming => upcoming now.time
    | .error _ => none

inductive Request
  | once (record : Timer) (runAt : Time)
  | fixed (record : Timer) (delayMs : ℕ)
  | cron (record : Timer) (expr : String)

def Request.jobId : Request → JobId
  | .once record _ | .fixed record _ | .cron record _ => record.jobId

namespace Tables

def empty : Tables := ⟨.empty, .empty⟩

def insertNew (t : Tables) (record : Timer) (runAt : Time) : Tables where
  timers := t.timers.insert (toLex (fireAtMs runAt, record.jobId)) (.fromRecord record)
  timersById := t.timersById.insert record.jobId (fireAtMs runAt)

def scheduleOnce (t : Tables) (record : Timer) (runAt : Time) : Except String Tables := do
  record.validate
  .ok (t.insertNew { record with mode := .once } runAt)

def scheduleFixed (t : Tables) (now : Instant) (record : Timer) (delayMs : ℕ) :
    Except String Tables :=
  if minFixedDelayMs ≤ delayMs ∧ delayMs ≤ maxFixedDelayMs then do
    record.validate
    .ok (t.insertNew { record with mode := .fixed delayMs } (now.time + delayMs * 1000000))
  else .error ("invalid input: " ++ delayOutOfRange delayMs)

def scheduleCron (cron : Cron) (t : Tables) (now : Instant) (record : Timer) (expr : String) :
    Except String Tables := do
  record.validate
  let upcoming ← (cron expr).mapError fun e => "invalid input: cron: " ++ e
  match upcoming now.time with
  | some runAt => .ok (t.insertNew { record with mode := .cron expr } runAt)
  | none => .error "invalid input: cron expression has no upcoming fire time"

def schedule (cron : Cron) (t : Tables) (now : Instant) : Request → Except String Tables
  | .once record runAt => t.scheduleOnce record runAt
  | .fixed record delayMs => t.scheduleFixed now record delayMs
  | .cron record expr => t.scheduleCron cron now record expr

/-- Whether the id existed, and the tables without it. -/
def cancel (t : Tables) (id : JobId) : Bool × Tables :=
  match t.timersById.get id with
  | some fireAt => (true,
      { timers := t.timers.remove (toLex (fireAt, id)), timersById := t.timersById.remove id })
  | none => (false, t)

def summary (fireAt : ℕ) (record : Timer) : JobSummary where
  jobId := record.jobId
  workflow := record.workflow
  namespace_ := record.namespace_
  nextFireAt := fireAt * 1000000
  mode := record.mode
  createdAt := record.createdAt
  createdBy := record.createdBy

/-- The rows that `list` comes to. -/
def selected (t : Tables) (namespacePrefix : Option String) : List (TimerKey × StoredTimer) :=
  t.timers.rows.filter fun r => namespacePrefix.all (startsWith r.2.namespace_ ·)

def list (t : Tables) (namespacePrefix : Option String) : Except String (List JobSummary) :=
  (t.selected namespacePrefix).mapM fun r => do
    let record ← r.2.intoRecord
    .ok (summary (ofLex r.1).1 record)

def jobs (t : Tables) (namespacePrefix : Option String) : List JobSummary :=
  (t.selected namespacePrefix).map fun r => summary (ofLex r.1).1 r.2.timer

/-- `timers.range(lower..upper)`. -/
def range (t : Tables) (lower upper : KeyBound) : List (TimerKey × StoredTimer) :=
  t.timers.rows.filter fun r => decide (lower ≤ TimerKey.bound r.1 ∧ TimerKey.bound r.1 < upper)

/-- The rows up to `now`, in the order of their keys. The upper bound is saturating `u64` arithmetic. -/
def due (t : Tables) (nowMs : ℕ) : List (TimerKey × StoredTimer) :=
  t.range (toLex (0, ⊥)) (toLex (min (nowMs + 1) (2 ^ 64 - 1), ⊥))

def collectDue (t : Tables) (nowMs : ℕ) : Except String (List (ℕ × Timer)) :=
  (t.due nowMs).mapM fun r => do
    let record ← r.2.intoRecord
    .ok ((ofLex r.1).1, record)

def reschedule (t : Tables) (oldFireAt : ℕ) (record : Timer) : Option Time → Tables
  | some next =>
    { timers := (t.timers.remove (toLex (oldFireAt, record.jobId))).insert
        (toLex (fireAtMs next, record.jobId)) (.fromRecord record)
      timersById := t.timersById.insert record.jobId (fireAtMs next) }
  | none =>
    { timers := t.timers.remove (toLex (oldFireAt, record.jobId))
      timersById := t.timersById.remove record.jobId }

end Tables

/-! ## What the tables stand for -/

/-- The delays that `schedule_fixed` lets through. -/
def DelayInRange (mode : TimerMode) : Prop :=
  ∀ delayMs, mode = .fixed delayMs → minFixedDelayMs ≤ delayMs ∧ delayMs ≤ maxFixedDelayMs

/-- The tables stand for a map from job ids to a fire time and a timer of that id. -/
structure Tables.Holds (t : Tables) (m : JobId → Option (ℕ × StoredTimer)) : Prop where
  ranks : Ranks t.timers t.timersById m
  own : ∀ id r, m id = some r → r.2.jobId = id
  delays : ∀ id r, m id = some r → DelayInRange r.2.mode

namespace Tables

variable {t t' : Tables} {m : JobId → Option (ℕ × StoredTimer)}

theorem schedule_insertNew {cron : Cron} {now : Instant} {request : Request}
    (h : t.schedule cron now request = .ok t') :
    ∃ (record : Timer) (runAt : Time), record.jobId = request.jobId ∧ DelayInRange record.mode ∧
      t' = t.insertNew record runAt := by
  cases request with
  | once record runAt =>
    obtain ⟨_, _, ht⟩ := Fallible.bind_ok h
    cases ht
    exact ⟨{ record with mode := .once }, runAt, rfl, by simp [DelayInRange], rfl⟩
  | fixed record delayMs =>
    simp only [schedule, scheduleFixed] at h
    split_ifs at h with hrange
    obtain ⟨_, _, ht⟩ := Fallible.bind_ok h
    cases ht
    refine ⟨{ record with mode := .fixed delayMs }, _, rfl, ?_, rfl⟩
    intro d hd
    cases hd
    exact hrange
  | cron record expr =>
    obtain ⟨_, _, h⟩ := Fallible.bind_ok h
    obtain ⟨upcoming, _, h⟩ := Fallible.bind_ok h
    cases hnext : upcoming now.time with
    | none => simp [hnext] at h
    | some runAt =>
      simp only [hnext, Except.ok.injEq] at h
      exact ⟨{ record with mode := .cron expr }, runAt, rfl, by simp [DelayInRange], h.symm⟩

theorem holds_empty : empty.Holds fun _ => none :=
  ⟨Ranks.empty, by simp, by simp⟩

/-- A change at one id keeps what is stored sound, if what it stores is. -/
theorem Holds.update (h : t.Holds m) {id : JobId} {r : Option (ℕ × StoredTimer)}
    (hranks : Ranks t'.timers t'.timersById (Function.update m id r))
    (hr : ∀ r', r = some r' → r'.2.jobId = id ∧ DelayInRange r'.2.mode) :
    t'.Holds (Function.update m id r) := by
  refine ⟨hranks, ?_, ?_⟩
  · intro id' r' hm
    by_cases hid : id' = id
    · subst hid
      exact (hr r' (by simpa using hm)).1
    · exact h.own id' r' (by simpa [hid] using hm)
  · intro id' r' hm
    by_cases hid : id' = id
    · subst hid
      exact (hr r' (by simpa using hm)).2
    · exact h.delays id' r' (by simpa [hid] using hm)

theorem Holds.insertNew (h : t.Holds m) {record : Timer} (hnew : m record.jobId = none)
    (hdelay : DelayInRange record.mode) (runAt : Time) :
    (t.insertNew record runAt).Holds
      (Function.update m record.jobId (some (fireAtMs runAt, .fromRecord record))) := by
  refine h.update (h.ranks.insert hnew _ _) ?_
  rintro _ ⟨⟩
  exact ⟨rfl, hdelay⟩

theorem Holds.existed (h : t.Holds m) (id : JobId) : (t.cancel id).1 = (m id).isSome := by
  have hget := h.ranks.get_index id
  rw [Tables.cancel]
  cases hm : m id with
  | none =>
    rw [hm, Option.map_none] at hget
    rw [hget]
    rfl
  | some r =>
    rw [hm, Option.map_some] at hget
    rw [hget]
    rfl

theorem Holds.cancel (h : t.Holds m) (id : JobId) :
    (t.cancel id).2.Holds (Function.update m id none) := by
  have hget := h.ranks.get_index id
  rw [Tables.cancel]
  cases hm : m id with
  | none =>
    rw [hm, Option.map_none] at hget
    rw [hget, ← hm, Function.update_eq_self]
    exact h
  | some r =>
    rw [hm, Option.map_some] at hget
    rw [hget]
    refine h.update (h.ranks.remove ?_) (by simp)
    intro r' hr'
    cases hm.symm.trans hr'
    rfl

/-- The old entry goes with its row, unless the timer is stored under another time. -/
theorem Holds.reschedule (h : t.Holds m) {oldFireAt : ℕ} {record : Timer}
    (hrank : ∀ r, m record.jobId = some r → r.1 = oldFireAt) (hdelay : DelayInRange record.mode)
    (next : Option Time) :
    (t.reschedule oldFireAt record next).Holds
      (Function.update m record.jobId (next.map fun at_ => (fireAtMs at_, .fromRecord record))) := by
  cases next with
  | none => exact h.update (h.ranks.remove hrank) (by simp)
  | some runAt =>
    refine h.update (h.ranks.move hrank _ _) ?_
    rintro _ ⟨⟩
    exact ⟨rfl, hdelay⟩

/-- A step of the loops that parse one row after another. -/
theorem map_intoRecord_eq_ok_iff {β : Type} {g : Timer → β} {stored : StoredTimer} {b : β} :
    (do let record ← stored.intoRecord
        .ok (g record) : Except String β) = .ok b ↔ stored.input.Readable ∧ b = g stored.timer := by
  constructor
  · intro h
    obtain ⟨record, hrecord, h⟩ := Fallible.bind_ok h
    obtain ⟨hreadable, rfl⟩ := StoredTimer.intoRecord_eq_ok_iff.mp hrecord
    exact ⟨hreadable, (Except.ok.inj h).symm⟩
  · rintro ⟨hreadable, rfl⟩
    rw [StoredTimer.intoRecord_of_readable hreadable]
    rfl

theorem list_eq_ok_iff {namespacePrefix : Option String} {out : List JobSummary} :
    t.list namespacePrefix = .ok out ↔
      (∀ r ∈ t.selected namespacePrefix, r.2.input.Readable) ∧ out = t.jobs namespacePrefix :=
  Fallible.mapM_eq_ok_iff fun _ _ => map_intoRecord_eq_ok_iff

theorem collectDue_eq_ok_iff {nowMs : ℕ} {due : List (ℕ × Timer)} :
    t.collectDue nowMs = .ok due ↔ (∀ r ∈ t.due nowMs, r.2.input.Readable) ∧
      due = (t.due nowMs).map fun r => ((ofLex r.1).1, r.2.timer) :=
  Fallible.mapM_eq_ok_iff fun _ _ => map_intoRecord_eq_ok_iff

/-- The range is up to and including `now`: no key lies between the last id at `now` and the empty id
of the next millisecond. -/
theorem mem_due {nowMs : ℕ} (hfits : nowMs < 2 ^ 63) {r : TimerKey × StoredTimer} :
    r ∈ t.due nowMs ↔ r ∈ t.timers.rows ∧ (ofLex r.1).1 ≤ nowMs := by
  have hupper : min (nowMs + 1) (2 ^ 64 - 1) = nowMs + 1 := by omega
  have hlow : (toLex (0, ⊥) : KeyBound) ≤ TimerKey.bound r.1 := by
    rw [TimerKey.bound, Prod.Lex.le_iff]
    obtain hz | hp := Nat.eq_zero_or_pos (ofLex r.1).1
    · exact .inr ⟨hz.symm, bot_le⟩
    · exact .inl hp
  have hhigh : TimerKey.bound r.1 < toLex (nowMs + 1, ⊥) ↔ (ofLex r.1).1 ≤ nowMs := by
    rw [TimerKey.bound, Prod.Lex.lt_iff, ← Nat.lt_add_one_iff]
    simp only [ofLex_toLex, not_lt_bot, and_false, or_false]
  rw [due, range, List.mem_filter, hupper, decide_eq_true_eq, hhigh]
  exact and_congr_right fun _ => and_iff_right hlow

theorem Holds.mem_collectDue (h : t.Holds m) {nowMs : ℕ} (hfits : nowMs < 2 ^ 63)
    {due : List (ℕ × Timer)} (hdue : t.collectDue nowMs = .ok due) {d : ℕ × Timer} :
    d ∈ due ↔ ∃ stored, m stored.jobId = some (d.1, stored) ∧ d.1 ≤ nowMs ∧ d.2 = stored.timer := by
  rw [(collectDue_eq_ok_iff.mp hdue).2, List.mem_map]
  constructor
  · rintro ⟨⟨k, stored⟩, hr, rfl⟩
    obtain ⟨hrow, hle⟩ := (mem_due hfits).mp hr
    have hm := (h.ranks.rows (ofLex k).1 (ofLex k).2 stored).mp hrow
    have hid : stored.jobId = (ofLex k).2 := h.own _ _ hm
    exact ⟨stored, hid ▸ hm, hle, rfl⟩
  · obtain ⟨p, record⟩ := d
    rintro ⟨stored, hm, hle, rfl⟩
    exact ⟨(toLex (p, stored.jobId), stored),
      (mem_due hfits).mpr ⟨(h.ranks.rows _ _ _).mpr hm, hle⟩, rfl⟩

theorem Holds.collectDue_nodup (h : t.Holds m) {nowMs : ℕ} {due : List (ℕ × Timer)}
    (hdue : t.collectDue nowMs = .ok due) : (due.map (·.2.jobId)).Nodup := by
  rw [(collectDue_eq_ok_iff.mp hdue).2, List.map_map]
  refine List.Nodup.map_on ?_ (.filter _ (.of_map _ t.timers.keys_nodup))
  rintro ⟨k, stored⟩ hr ⟨k', stored'⟩ hr' hid
  have hm := (h.ranks.rows (ofLex k).1 (ofLex k).2 stored).mp (List.mem_filter.mp hr).1
  have hm' := (h.ranks.rows (ofLex k').1 (ofLex k').2 stored').mp (List.mem_filter.mp hr').1
  have hids : (ofLex k).2 = (ofLex k').2 := (h.own _ _ hm).symm.trans (hid.trans (h.own _ _ hm'))
  rw [hids, hm', Option.some.injEq, Prod.mk.injEq] at hm
  exact Prod.ext (Prod.ext hm.1.symm hids) hm.2.symm

theorem Holds.mem_jobs (h : t.Holds m) {namespacePrefix : Option String} {job : JobSummary}
    (hjob : job ∈ t.jobs namespacePrefix) : m job.jobId ≠ none := by
  obtain ⟨⟨k, stored⟩, hr, rfl⟩ := List.mem_map.mp hjob
  have hm := (h.ranks.rows (ofLex k).1 (ofLex k).2 stored).mp (List.mem_filter.mp hr).1
  have hid : stored.jobId = (ofLex k).2 := h.own _ _ hm
  have hsome : m stored.jobId = some ((ofLex k).1, stored) := hid ▸ hm
  exact Option.ne_none_iff_exists'.mpr ⟨_, hsome⟩

theorem Holds.listed (h : t.Holds m) {id : JobId} {r : ℕ × StoredTimer} (hm : m id = some r) :
    ∃ job ∈ t.jobs none, job.jobId = id := by
  have hrow := (h.ranks.rows r.1 id r.2).mpr hm
  exact ⟨_, List.mem_map_of_mem (List.mem_filter.mpr ⟨hrow, rfl⟩), h.own id r hm⟩

end Tables

end Konf.Scheduler
