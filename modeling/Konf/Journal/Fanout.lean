import Konf.Journal.Indexes

/-! # Fan-out

Model of `konf-runtime/src/journal/fanout.rs`: a primary store whose answer is returned, and secondary
stores that are written to by tasks of their own, in any order and at any time. The implementation
forwards every method of the trait but one, which keeps the default body. -/

namespace Konf.Journal
open Konf.Substrate
set_option autoImplicit false

variable {ω σ τ : Type}

/-! ## Calls -/

inductive Call
  | append (entry : JournalEntry)
  | queryByRun (runId : RunId)
  | queryBySession (sessionId : String) (limit : ℕ)
  | recent (limit : ℕ)
  | reconcileZombies
  | query (filter : JournalFilter) (limit : ℕ)
  | aggregate (filter : JournalFilter) (q : AggregateQuery)
  | getByIdempotencyKey (key : String)
  | deleteExpired

inductive Answer
  | number (r : Except JournalError ℕ)
  | rows (r : Except JournalError (List JournalRow))
  | aggregate (r : Except JournalError AggregateResult)
  | row (r : Except JournalError (Option JournalRow))

/-- One call of a method, with its answer. -/
def JournalStore.call (store : JournalStore ω σ) (w : ω) (s : σ) : Call → Answer × σ
  | .append entry => (.number (store.append w entry s).1, (store.append w entry s).2)
  | .queryByRun runId => (.rows (store.queryByRun w runId s), s)
  | .queryBySession sessionId limit => (.rows (store.queryBySession w sessionId limit s), s)
  | .recent limit => (.rows (store.recent w limit s), s)
  | .reconcileZombies => (.number (store.reconcileZombies w s).1, (store.reconcileZombies w s).2)
  | .query filter limit => (.rows (store.query w filter limit s), s)
  | .aggregate filter q => (.aggregate (store.aggregate w filter q s), s)
  | .getByIdempotencyKey key => (.row (store.getByIdempotencyKey w key s), s)
  | .deleteExpired => (.number (store.deleteExpired w s).1, (store.deleteExpired w s).2)

def JournalStore.answers (store : JournalStore ω σ) : σ → List (ω × Call) → List Answer
  | _, [] => []
  | s, (w, c) :: rest => (store.call w s c).1 :: store.answers (store.call w s c).2 rest

/-! ## The store -/

structure FanoutState (σ τ : Type) where
  primary : σ
  secondaries : List τ
  -- writes of spawned tasks, each for the secondary at an index
  spawned : List (ℕ × JournalEntry)
  droppedSecondaryWrites : ℕ

/-- `FanoutJournalStore::append`: nothing is spawned when the primary fails. -/
def fanoutAppend (primary : JournalStore ω σ) (w : ω) (entry : JournalEntry) (s : FanoutState σ τ) :
    Except JournalError ℕ × FanoutState σ τ :=
  match primary.append w entry s.primary with
  | (.error e, p) => (.error e, { s with primary := p })
  | (.ok seq, p) => (.ok seq, { s with
      primary := p
      spawned := s.spawned ++ (List.range s.secondaries.length).map fun i => (i, entry) })

def FanoutState.withPrimary (s : FanoutState σ τ) (r : Except JournalError ℕ × σ) :
    Except JournalError ℕ × FanoutState σ τ := (r.1, { s with primary := r.2 })

/-- The trait implementation of `FanoutJournalStore`. -/
def fanoutJournalStore (primary : JournalStore ω σ) : JournalStore ω (FanoutState σ τ) where
  append := fanoutAppend primary
  queryByRun w runId s := primary.queryByRun w runId s.primary
  queryBySession w sessionId limit s := primary.queryBySession w sessionId limit s.primary
  recent w limit s := primary.recent w limit s.primary
  reconcileZombies w s := s.withPrimary (primary.reconcileZombies w s.primary)
  query w filter limit s := primary.query w filter limit s.primary
  aggregate w filter q s := primary.aggregate w filter q s.primary
  deleteExpired w s := s.withPrimary (primary.deleteExpired w s.primary)

/-- The spawned task at an index writes to its secondary; a failure is counted. -/
def FanoutState.settle (stores : List (JournalStore ω τ)) (w : ω) (k : ℕ) (s : FanoutState σ τ) :
    FanoutState σ τ :=
  match s.spawned[k]? with
  | none => s
  | some (i, entry) => match stores[i]?, s.secondaries[i]? with
    | some store, some t =>
      { s with
        secondaries := s.secondaries.set i (store.append w entry t).2
        spawned := s.spawned.eraseIdx k
        droppedSecondaryWrites := match (store.append w entry t).1 with
          | .error _ => s.droppedSecondaryWrites + 1
          | .ok _ => s.droppedSecondaryWrites }
    | _, _ => s

/-- What happens to a fan-out: a caller calls a method, or the task of a secondary write runs. -/
inductive FanoutMove (ω : Type)
  | call (w : ω) (c : Call)
  | secondary (w : ω) (k : ℕ)

def FanoutMove.asCall : FanoutMove ω → Option (ω × Call)
  | .call w c => some (w, c)
  | .secondary _ _ => none

/-- The answers that the callers of a fan-out get. -/
def fanoutAnswers (primary : JournalStore ω σ) (stores : List (JournalStore ω τ)) :
    FanoutState σ τ → List (FanoutMove ω) → List Answer
  | _, [] => []
  | s, .call w c :: rest =>
    ((fanoutJournalStore primary).call w s c).1 ::
      fanoutAnswers primary stores ((fanoutJournalStore primary).call w s c).2 rest
  | s, .secondary w k :: rest => fanoutAnswers primary stores (s.settle stores w k) rest

/-! ## The primary for every reader -/

/-- Every lookup by idempotency key among the calls finds nothing in the store. -/
def JournalStore.LookupsEmpty (store : JournalStore ω σ) : σ → List (ω × Call) → Prop
  | _, [] => True
  | s, (w, c) :: rest =>
    (∀ key, c = .getByIdempotencyKey key → store.getByIdempotencyKey w key s = .ok none) ∧
      store.LookupsEmpty (store.call w s c).2 rest

section Primary
variable {primary : JournalStore ω σ} {s : FanoutState σ τ}

theorem settle_primary (stores : List (JournalStore ω τ)) (w : ω) (k : ℕ) :
    (s.settle stores w k).primary = s.primary := by
  unfold FanoutState.settle
  split
  · rfl
  · split <;> rfl

/-- Every call leaves the primary as it would be alone. -/
theorem fanout_call_primary (w : ω) (c : Call) :
    ((fanoutJournalStore primary).call w s c).2.primary = (primary.call w s.primary c).2 := by
  cases c with
  | append entry =>
    change (fanoutAppend primary w entry s).2.primary = (primary.append w entry s.primary).2
    unfold fanoutAppend
    split
    · rename_i h
      rw [h]
    · rename_i h
      rw [h]
  | _ => rfl

/-- Every call but a lookup by key is answered as by the primary. -/
theorem fanout_call_answer (w : ω) (c : Call) :
    ((fanoutJournalStore primary).call w s c).1 = (primary.call w s.primary c).1 ↔
      ∀ key, c = .getByIdempotencyKey key → primary.getByIdempotencyKey w key s.primary = .ok none := by
  cases c with
  | append entry =>
    refine iff_of_true ?_ (fun key h => by cases h)
    change Answer.number (fanoutAppend primary w entry s).1 = .number (primary.append w entry s.primary).1
    unfold fanoutAppend
    split
    · rename_i h
      rw [h]
    · rename_i h
      rw [h]
  | getByIdempotencyKey key =>
    constructor
    · intro h key' heq
      cases heq
      exact (Answer.row.inj h).symm
    · intro h
      exact congrArg Answer.row (h key rfl).symm
  | queryByRun | queryBySession | recent | reconcileZombies | query | aggregate | deleteExpired =>
    exact iff_of_true rfl (fun key h => by cases h)

end Primary

/-- For every primary, secondaries and history of calls and secondary writes: the callers get exactly
the answers that the primary alone would give, if and only if every lookup by idempotency key finds
nothing there. -/
theorem fanout_answers_iff (primary : JournalStore ω σ) (stores : List (JournalStore ω τ))
    (s : FanoutState σ τ) (moves : List (FanoutMove ω)) :
    fanoutAnswers primary stores s moves =
        primary.answers s.primary (moves.filterMap FanoutMove.asCall) ↔
      primary.LookupsEmpty s.primary (moves.filterMap FanoutMove.asCall) := by
  induction moves generalizing s with
  | nil => exact iff_of_true rfl trivial
  | cons m rest ih =>
    cases m with
    | call w c =>
      change _ :: _ = _ :: _ ↔ _ ∧ _
      rw [List.cons.injEq, fanout_call_answer, ← fanout_call_primary, ih]
    | secondary w k =>
      have hrest := ih (s.settle stores w k)
      rw [settle_primary] at hrest
      exact hrest

/-! ## A fan-out over redb -/

/-- `RedbJournal` as a store. A call reads the clock once, and the hash map of a reconciliation is
walked in the order in which it was filled. -/
def redbStore (formatUuid : Uuid → String) : JournalStore Time RedbJournal where
  append now entry j := (.ok (j.append now entry).1, (j.append now entry).2)
  queryByRun now runId j := j.queryByRun now runId
  queryBySession now sessionId limit j := j.queryBySession now sessionId limit
  recent now limit j := j.recent now limit
  reconcileZombies now j :=
    let r := j.reconcileZombies (j.zombies.map fun e => (now, e))
    (.ok r.1, r.2)
  query now filter limit j := j.query formatUuid now filter limit
  aggregate now filter q j := j.aggregate formatUuid now filter q
  getByIdempotencyKey now key j := j.getByIdempotencyKey now key
  deleteExpired now j := (.ok (j.deleteExpired now).1, (j.deleteExpired now).2)

/-- A fan-out without secondaries does not find the entry that its primary finds. -/
theorem fanout_lookup_misses : ∃ (s : FanoutState RedbJournal RedbJournal) (moves : List (FanoutMove Time)),
    s.secondaries = [] ∧
      fanoutAnswers (redbStore toString) [] s moves ≠
        (redbStore toString).answers s.primary (moves.filterMap FanoutMove.asCall) := by
  refine ⟨⟨.open_, [], [], 0⟩,
    [.call 0 (.append (keyedEvent 7 5000 "k")), .call 1 (.getByIdempotencyKey "k")], rfl, ?_⟩
  intro h
  have hrow : Answer.row (.ok none) = .row
      ((RedbJournal.open_.append 0 (keyedEvent 7 5000 "k")).2.getByIdempotencyKey 1 "k") :=
    (List.cons.inj (List.cons.inj h).2).1
  have hfound : ((RedbJournal.open_.append 0 (keyedEvent 7 5000 "k")).2.getByIdempotencyKey 1
      "k").map (Option.map JournalRow.id) = .ok (some 1) := by
    decide +kernel
  rw [← Answer.row.inj hrow] at hfound
  cases hfound

end Konf.Journal
