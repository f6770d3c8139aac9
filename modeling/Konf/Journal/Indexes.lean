import Konf.Journal.Redb

/-! # The indexes mirror the log

Each of the four indexes holds the key of every entry that has one, under the entry's id, and nothing
else: `append` adds the keys of the entry it stores, and the sweep takes away the keys of the entries
it removes. -/

namespace Konf.Journal
open Konf.Substrate Konf.Transition
set_option autoImplicit false

structure RedbJournal.Mirrors (j : RedbJournal) : Prop where
  byRun : j.byRun.Indexes j.events StoredEntry.runId
  bySession : j.bySession.Indexes j.events fun e => some e.sessionId
  byExpiry : j.byExpiry.Indexes j.events StoredEntry.validToMicros
  byIdempotency : j.byIdempotency.Indexes j.events StoredEntry.idempotencyKey

section Writes
variable {j : RedbJournal}

theorem RedbJournal.open_mirrors : RedbJournal.open_.Mirrors := ⟨.empty, .empty, .empty, .empty⟩

theorem RedbJournal.Mirrors.append (h : j.Mirrors) (now : Time) (entry : JournalEntry) :
    (j.append now entry).2.Mirrors := by
  have hnew : ∀ r ∈ j.events.rows, r.1 < j.nextId := fun _ hr => RedbJournal.lt_nextId hr
  exact ⟨h.byRun.insert hnew, h.bySession.insert hnew, h.byExpiry.insert hnew,
    h.byIdempotency.insert hnew⟩

theorem RedbJournal.Mirrors.forget (h : j.Mirrors) {r : ℕ × StoredEntry} (hr : r ∈ j.events.rows) :
    (j.forget r).Mirrors :=
  ⟨h.byRun.remove hr, h.bySession.remove hr, h.byExpiry.remove hr, h.byIdempotency.remove hr⟩

/-- The entries to remove are rows of the log, and stay so until their turn comes. -/
theorem RedbJournal.Mirrors.forgetAll (h : j.Mirrors) {gone : List (ℕ × StoredEntry)}
    (hgone : ∀ r ∈ gone, r ∈ j.events.rows) (hkeys : (gone.map Prod.fst).Nodup) :
    (gone.foldl RedbJournal.forget j).Mirrors := by
  induction gone generalizing j with
  | nil => exact h
  | cons r rest ih =>
    rw [List.map_cons, List.nodup_cons] at hkeys
    refine ih (h.forget (hgone r (List.mem_cons_self ..))) ?_ hkeys.2
    intro r' hr'
    refine List.mem_filter.mpr ⟨hgone r' (List.mem_cons_of_mem _ hr'), decide_eq_true ?_⟩
    intro heq
    exact hkeys.1 (heq ▸ List.mem_map_of_mem hr')

theorem RedbJournal.Mirrors.deleteExpired (h : j.Mirrors) (now : Time) :
    (j.deleteExpired now).2.Mirrors := by
  unfold RedbJournal.deleteExpired
  simp only
  split_ifs with hnone
  · exact h
  · refine h.forgetAll (fun r hr => (List.mem_filter.mp hr).1) ?_
    exact j.events.keys_nodup.sublist (List.filter_sublist.map Prod.fst)

theorem RedbJournal.Mirrors.appendAll (h : j.Mirrors) (batch : List (Time × JournalEntry)) :
    (j.appendAll batch).2.Mirrors := by
  induction batch generalizing j with
  | nil => exact h
  | cons e rest ih => exact ih (h.append e.1 e.2)

theorem RedbJournal.Mirrors.step {j' : RedbJournal} {op : JournalOp} (h : j.Mirrors)
    (hstep : JournalStep j op j') : j'.Mirrors := by
  cases hstep with
  | write w =>
    cases w with
    | append now entry => exact h.append now entry
    | deleteExpired now => exact h.deleteExpired now
  | reconcileZombies _ => exact h.appendAll _

end Writes

theorem RedbJournal.Reachable.mirrors {j : RedbJournal} (h : j.Reachable) : j.Mirrors := by
  refine Reaches.invariant ?_ (fun _ _ _ _ hi hs => hi.step hs) h
  rintro _ rfl
  exact RedbJournal.open_mirrors

/-- After every history of appends, sweeps and reconciliations, each index has the pair of key and id
of every stored entry with such a key, and no other pair. -/
theorem indexes_mirror_log (j : RedbJournal) (h : j.Reachable) :
    (∀ run id, (run, id) ∈ j.byRun.pairs ↔ ∃ e, (id, e) ∈ j.events.rows ∧ e.runId = some run) ∧
    (∀ session id, (session, id) ∈ j.bySession.pairs ↔
      ∃ e, (id, e) ∈ j.events.rows ∧ e.sessionId = session) ∧
    (∀ micros id, (micros, id) ∈ j.byExpiry.pairs ↔
      ∃ e, (id, e) ∈ j.events.rows ∧ e.validToMicros = some micros) ∧
    (∀ key id, (key, id) ∈ j.byIdempotency.pairs ↔
      ∃ e, (id, e) ∈ j.events.rows ∧ e.idempotencyKey = some key) := by
  have hm := h.mirrors
  refine ⟨hm.byRun, ?_, hm.byExpiry, hm.byIdempotency⟩
  intro session id
  rw [hm.bySession session id]
  simp only [Option.some.injEq]

/-! ## A history -/

def runEvent (run : RunId) (eventType : String) : JournalEntry where
  runId := some run
  sessionId := "s"
  namespace_ := "konf:demo:alice"
  eventType := eventType
  payload := .null
  validTo := none
  idempotencyKey := none

/-- The same event with an end of validity and a key. -/
def keyedEvent (run : RunId) (validTo : Time) (key : String) : JournalEntry :=
  { runEvent run "interaction" with validTo := some validTo, idempotencyKey := some key }

/-- The journal after the writes of a list. -/
def RedbJournal.after (j : RedbJournal) (ws : List Write) : RedbJournal :=
  ws.foldl (fun j w => (w.perform j).2) j

theorem RedbJournal.Reachable.after {j : RedbJournal} (h : j.Reachable) (ws : List Write) :
    (j.after ws).Reachable := by
  induction ws generalizing j with
  | nil => exact h
  | cons w rest ih => exact ih (h.tail trivial (.write w))

/-- Two entries, one of them swept, and one more under the id that the sweep has freed. -/
def sweptJournal : RedbJournal :=
  RedbJournal.open_.after
    [.append 0 (runEvent 7 "workflow_started"), .append 0 (keyedEvent 7 5000 "k"),
      .deleteExpired 9000, .append 9000 (keyedEvent 8 20000 "k")]

theorem swept_journal_mirrored : sweptJournal.byIdempotency.pairs = [("k", 2)] ∧
    ∃ e, (2, e) ∈ sweptJournal.events.rows ∧ e.idempotencyKey = some "k" := by
  have hpairs : sweptJournal.byIdempotency.pairs = [("k", 2)] := by decide +kernel
  have hreach : sweptJournal.Reachable :=
    RedbJournal.Reachable.after (ReachesBy.start rfl) _
  refine ⟨hpairs, ?_⟩
  refine ((indexes_mirror_log sweptJournal hreach).2.2.2 "k" 2).mp ?_
  rw [hpairs]
  exact List.mem_singleton_self _

end Konf.Journal
