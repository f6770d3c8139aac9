import Konf.Scheduler.Polling

/-! # One tick

`RedbScheduler::tick` when nothing else runs: the timers that are due are fired and written back one
after the other. The clock is read at the start of the tick and again for each timer. A tick is a run
of the polling loop. One due timer whose input does not parse again ends it before anything is fired. -/

namespace Konf.Scheduler
open Konf.Substrate Konf.Runtime Konf.Journal Konf.Transition
set_option autoImplicit false

/-! ## The tick as a function -/

/-- The tables after a due timer was looked at, and whether it was fired. -/
def Tables.fireAndReschedule (cron : Cron) (registered : String → Bool) (now : Instant) (t : Tables)
    (oldFireAt : ℕ) (record : Timer) : Tables × Bool :=
  if registered (workflowToolName record.workflow) then
    (t.reschedule oldFireAt record (nextFireAfter cron now record.mode), true)
  -- the timer is left in place for a later tick
  else (t, false)

/-- The loop over the due timers, with the clock at each of them, and the ids it fires in order. -/
def Tables.fireEach (cron : Cron) (registered : String → Bool) :
    List (ℕ × Timer) → (ℕ → Instant) → Tables → Tables × List JobId
  | [], _, t => (t, [])
  | (oldFireAt, record) :: rest, readings, t =>
    let looked := t.fireAndReschedule cron registered (readings 0) oldFireAt record
    let others := looked.1.fireEach cron registered rest fun n => readings (n + 1)
    (others.1, if looked.2 then record.jobId :: others.2 else others.2)

/-- The result of a tick, the tables it leaves and the ids it has fired, in order. -/
structure Ticked where
  result : Except String Unit
  tables : Tables
  fired : List JobId

def Tables.tick (cron : Cron) (registered : String → Bool) (now : Instant) (readings : ℕ → Instant)
    (t : Tables) : Ticked :=
  match t.collectDue now.ms with
  | .error e => ⟨.error e, t, []⟩
  | .ok due =>
    let after := t.fireEach cron registered due readings
    ⟨.ok (), after.1, after.2⟩

section Results
variable {cron : Cron} {registered : String → Bool} {now : Instant} {readings : ℕ → Instant} {t : Tables}

theorem Tables.tick_ok {due : List (ℕ × Timer)} (h : t.collectDue now.ms = .ok due) :
    t.tick cron registered now readings = ⟨.ok (), (t.fireEach cron registered due readings).1,
      (t.fireEach cron registered due readings).2⟩ := by
  simp only [tick, h]

theorem Tables.tick_error {e : String} (h : t.collectDue now.ms = .error e) :
    t.tick cron registered now readings = ⟨.error e, t, []⟩ := by
  simp only [tick, h]

end Results

/-! ## What the loop does -/

section Loop

variable {cron : Cron} {registered : String → Bool} {oldFireAt : ℕ} {record : Timer}

theorem Tables.fireEach_registered (hreg : registered (workflowToolName record.workflow) = true)
    (rest : List (ℕ × Timer)) (readings : ℕ → Instant) (t : Tables) :
    let others := (t.reschedule oldFireAt record (nextFireAfter cron (readings 0) record.mode)).fireEach
      cron registered rest fun n => readings (n + 1)
    t.fireEach cron registered ((oldFireAt, record) :: rest) readings =
      (others.1, record.jobId :: others.2) := by
  simp [fireEach, fireAndReschedule, hreg]

theorem Tables.fireEach_missing (hreg : registered (workflowToolName record.workflow) ≠ true)
    (rest : List (ℕ × Timer)) (readings : ℕ → Instant) (t : Tables) :
    t.fireEach cron registered ((oldFireAt, record) :: rest) readings =
      t.fireEach cron registered rest fun n => readings (n + 1) := by
  simp [fireEach, fireAndReschedule, hreg]

/-- What the loop does to a snapshot of stored timers: the registered ones are fired and get their next
fire time, and all others stay as they are. -/
structure FiresEach (cron : Cron) (registered : String → Bool) (due : List (ℕ × Timer))
    (readings : ℕ → Instant) (m m' : JobId → Option (ℕ × StoredTimer)) (fired : List JobId) : Prop where
  fired_eq : fired =
    (due.filter fun d => registered (workflowToolName d.2.workflow)).map (·.2.jobId)
  kept : ∀ id, id ∉ fired → m' id = m id
  moved : ∀ d ∈ due, registered (workflowToolName d.2.workflow) = true → ∃ n, m' d.2.jobId =
    (nextFireAfter cron (readings n) d.2.mode).map fun next => (fireAtMs next, .fromRecord d.2)

theorem Tables.Holds.fireEach {due : List (ℕ × Timer)} (readings : ℕ → Instant) {t : Tables}
    {m : JobId → Option (ℕ × StoredTimer)} (h : t.Holds m)
    (hstored : ∀ d ∈ due, m d.2.jobId = some (d.1, .fromRecord d.2))
    (hdistinct : (due.map (·.2.jobId)).Nodup) :
    ∃ m', (t.fireEach cron registered due readings).1.Holds m' ∧
      FiresEach cron registered due readings m m' (t.fireEach cron registered due readings).2 := by
  induction due generalizing t m readings with
  | nil => exact ⟨m, h, rfl, fun _ _ => rfl, by simp⟩
  | cons d rest ih =>
    obtain ⟨oldFireAt, record⟩ := d
    obtain ⟨hfirst, hothers⟩ := List.nodup_cons.mp hdistinct
    have hother : ∀ d ∈ rest, d.2.jobId ≠ record.jobId := by
      intro d hd heq
      exact hfirst (List.mem_map.mpr ⟨d, hd, heq⟩)
    have hrow := hstored _ List.mem_cons_self
    by_cases hreg : registered (workflowToolName record.workflow) = true
    · have hrank : ∀ r, m record.jobId = some r → r.1 = oldFireAt := by
        intro r hr
        cases hrow.symm.trans hr
        rfl
      have hmoved := h.reschedule hrank (h.delays _ _ hrow)
        (nextFireAfter cron (readings 0) record.mode)
      have hrest : ∀ d ∈ rest, Function.update m record.jobId
          ((nextFireAfter cron (readings 0) record.mode).map
            fun next => (fireAtMs next, .fromRecord record)) d.2.jobId =
          some (d.1, .fromRecord d.2) := by
        intro d hd
        rw [Function.update_of_ne (hother d hd)]
        exact hstored d (List.mem_cons_of_mem _ hd)
      obtain ⟨m', hm', heach⟩ := ih (fun n => readings (n + 1)) hmoved hrest hothers
      rw [fireEach_registered hreg]
      refine ⟨m', hm', ?_, ?_, ?_⟩
      · rw [List.filter_cons_of_pos (by simpa using hreg), List.map_cons, heach.fired_eq]
      · intro id hid
        obtain ⟨hne, hid⟩ := not_or.mp (List.mem_cons.not.mp hid)
        rw [heach.kept id hid, Function.update_of_ne hne]
      · intro d hd hreg'
        obtain rfl | hd := List.mem_cons.mp hd
        · refine ⟨0, ?_⟩
          have hunfired : record.jobId ∉ (rest.filter fun d =>
              registered (workflowToolName d.2.workflow)).map (·.2.jobId) := by
            intro hmem
            obtain ⟨d, hd, heq⟩ := List.mem_map.mp hmem
            exact hother d (List.mem_of_mem_filter hd) heq
          rw [heach.kept _ (heach.fired_eq ▸ hunfired), Function.update_self]
        · obtain ⟨n, hn⟩ := heach.moved d hd hreg'
          exact ⟨n + 1, hn⟩
    · obtain ⟨m', hm', heach⟩ := ih (fun n => readings (n + 1)) h
        (fun d hd => hstored d (List.mem_cons_of_mem _ hd)) hothers
      rw [fireEach_missing hreg]
      refine ⟨m', hm', ?_, heach.kept, ?_⟩
      · rw [List.filter_cons_of_neg (by simpa using hreg), heach.fired_eq]
      · intro d hd hreg'
        obtain rfl | hd := List.mem_cons.mp hd
        · exact absurd hreg' hreg
        · obtain ⟨n, hn⟩ := heach.moved d hd hreg'
          exact ⟨n + 1, hn⟩

/-- The loop over the due timers is a run of the polling loop, which ends idle. -/
theorem fireEach_reaches (registered : String → Bool) {due : List (ℕ × Timer)}
    (readings : ℕ → Instant) {s s₀ : SchedulerState}
    (h : Reaches (SchedulerStep cron) (· = s₀) s) (hl : s.loop = .due due) :
    Reaches (SchedulerStep cron) (· = s₀)
      { s with
        tables := (s.tables.fireEach cron registered due readings).1
        loop := .idle
        trace := s.trace ++ (s.tables.fireEach cron registered due readings).2.map .fired } := by
  induction due generalizing s readings with
  | nil =>
    have hidle := h.tail trivial (.finish hl)
    rw [Tables.fireEach, List.map_nil, List.append_nil]
    exact hidle
  | cons d rest ih =>
    obtain ⟨oldFireAt, record⟩ := d
    by_cases hreg : registered (workflowToolName record.workflow) = true
    · have hfired := h.tail trivial (.fire (readings 0) hl)
      have hnext := ih (fun n => readings (n + 1)) (hfired.tail trivial (.reschedule rfl)) rfl
      rw [Tables.fireEach_registered hreg, List.map_cons, List.append_cons]
      exact hnext
    · have hnext := ih (fun n => readings (n + 1)) (h.tail trivial (.missing hl)) rfl
      rw [Tables.fireEach_missing hreg]
      exact hnext

/-- A tick is a run of the polling loop from one idle state to the next, also when its read fails. -/
theorem tick_reaches (registered : String → Bool) (now : Instant) (readings : ℕ → Instant)
    {s : SchedulerState} (hl : s.loop = .idle) :
    Reaches (SchedulerStep cron) (· = s)
      { s with
        tables := (s.tables.tick cron registered now readings).tables
        loop := .idle
        trace := s.trace ++ (s.tables.tick cron registered now readings).fired.map .fired } := by
  have hstart : Reaches (SchedulerStep cron) (· = s) s := .start rfl
  cases hdue : s.tables.collectDue now.ms with
  | error e =>
    have habandon := hstart.tail trivial .abandon
    rw [Tables.tick_error hdue, List.map_nil, List.append_nil]
    exact habandon
  | ok due =>
    have htick := fireEach_reaches registered readings (hstart.tail trivial (.collect now hl hdue)) rfl
    rw [Tables.tick_ok hdue]
    exact htick

end Loop

/-! ## What a tick does -/

/-- The entries of an id in both tables. -/
def Tables.Entries (t : Tables) (id : JobId) (r : Option (ℕ × StoredTimer)) : Prop :=
  (∀ f stored, t.timers.get (toLex (f, id)) = some stored ↔ r = some (f, stored)) ∧
    t.timersById.get id = r.map Prod.fst

theorem Tables.Holds.entries {t : Tables} {m : JobId → Option (ℕ × StoredTimer)} (h : t.Holds m)
    (id : JobId) : t.Entries id (m id) := by
  refine ⟨?_, h.ranks.get_index id⟩
  intro f stored
  rw [Table.get_eq_some_iff, h.ranks.rows]

/-- The entry is due, and its workflow is there. -/
def FiresAt (registered : String → Bool) (now : Instant) (r : Option (ℕ × StoredTimer)) : Prop :=
  ∃ f stored, r = some (f, stored) ∧ f ≤ now.ms ∧ registered (workflowToolName stored.workflow) = true

/-- What a tick does to the map that the tables stand for. -/
structure Ticks (cron : Cron) (registered : String → Bool) (now : Instant) (readings : ℕ → Instant)
    (m m' : JobId → Option (ℕ × StoredTimer)) (fired : List JobId) : Prop where
  once : fired.Nodup
  due : ∀ id, id ∈ fired ↔ FiresAt registered now (m id)
  kept : ∀ id, id ∉ fired → m' id = m id
  moved : ∀ id ∈ fired, ∃ n f stored, m id = some (f, stored) ∧
    m' id = (nextFireAfter cron (readings n) stored.mode).map fun next => (fireAtMs next, stored)

theorem Tables.Holds.tick {t : Tables} {m : JobId → Option (ℕ × StoredTimer)} (h : t.Holds m)
    (cron : Cron) (registered : String → Bool) (now : Instant) (readings : ℕ → Instant)
    {due : List (ℕ × Timer)} (hdue : t.collectDue now.ms = .ok due) :
    ∃ m', (t.tick cron registered now readings).tables.Holds m' ∧
      Ticks cron registered now readings m m' (t.tick cron registered now readings).fired := by
  have hmem : ∀ d, d ∈ due ↔
      ∃ stored, m stored.jobId = some (d.1, stored) ∧ d.1 ≤ now.ms ∧ d.2 = stored.timer :=
    fun d => h.mem_collectDue now.ms_fits hdue
  have hstored : ∀ d ∈ due, m d.2.jobId = some (d.1, .fromRecord d.2) := by
    intro d hd
    obtain ⟨stored, hrow, _, hrecord⟩ := (hmem d).mp hd
    rw [hrecord, StoredTimer.fromRecord_timer]
    exact hrow
  have hdistinct := h.collectDue_nodup hdue
  obtain ⟨m', hholds', heach⟩ := h.fireEach readings hstored hdistinct
  rw [Tables.tick_ok hdue]
  refine ⟨m', hholds', ?_, ?_, heach.kept, ?_⟩
  · rw [heach.fired_eq]
    exact hdistinct.sublist (List.filter_sublist.map _)
  · intro id
    rw [heach.fired_eq, List.mem_map]
    constructor
    · rintro ⟨d, hd, rfl⟩
      obtain ⟨hd, hreg⟩ := List.mem_filter.mp hd
      obtain ⟨_, _, hle, _⟩ := (hmem d).mp hd
      exact ⟨d.1, .fromRecord d.2, hstored d hd, hle, hreg⟩
    · rintro ⟨f, stored, hrow, hle, hreg⟩
      have hid : stored.jobId = id := h.own id _ hrow
      refine ⟨(f, stored.timer), List.mem_filter.mpr ⟨?_, hreg⟩, hid⟩
      exact (hmem _).mpr ⟨stored, hid ▸ hrow, hle, rfl⟩
  · intro id hid
    rw [heach.fired_eq, List.mem_map] at hid
    obtain ⟨d, hd, rfl⟩ := hid
    obtain ⟨hd, hreg⟩ := List.mem_filter.mp hd
    obtain ⟨n, hn⟩ := heach.moved d hd hreg
    exact ⟨n, d.1, .fromRecord d.2, hstored d hd, hn⟩

end Konf.Scheduler
