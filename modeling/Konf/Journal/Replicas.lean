import Mathlib.Algebra.Order.Group.Multiset
import Mathlib.Tactic.Abel
import Konf.Journal.Fanout
import Konf.Journal.Reconcile

/-! # What the secondaries are handed

`FanoutJournalStore` hands to each secondary what is appended through it. `reconcile_zombies` is passed
to the primary, which appends by itself, so what it adds reaches no secondary. -/

namespace Konf.Journal
open Konf.Substrate
set_option autoImplicit false

variable {ω σ τ : Type}

/-! ## Histories -/

section History
variable (primary : JournalStore ω σ) (stores : List (JournalStore ω τ))

def FanoutState.step (s : FanoutState σ τ) : FanoutMove ω → FanoutState σ τ
  | .call w c => ((fanoutJournalStore primary).call w s c).2
  | .secondary w k => s.settle stores w k

def FanoutState.after (s : FanoutState σ τ) (moves : List (FanoutMove ω)) : FanoutState σ τ :=
  moves.foldl (FanoutState.step primary stores) s

/-- What the moves of a history give together. -/
def FanoutState.total (f : FanoutState σ τ → FanoutMove ω → Multiset JournalEntry) :
    FanoutState σ τ → List (FanoutMove ω) → Multiset JournalEntry
  | _, [] => 0
  | s, m :: rest => f s m + FanoutState.total f (s.step primary stores m) rest

/-- The entry that a move hands to the secondary at an index. -/
def FanoutState.handedBy (i : ℕ) (s : FanoutState σ τ) : FanoutMove ω → Multiset JournalEntry
  | .call _ _ => 0
  | .secondary _ k => match s.spawned[k]? with
    | some (j, entry) => if j = i then {entry} else 0
    | none => 0

/-- The entries that a move appends to the primary through the fan-out. -/
def FanoutState.appendedBy (s : FanoutState σ τ) : FanoutMove ω → Multiset JournalEntry
  | .call w (.append entry) => match (primary.append w entry s.primary).1 with
    | .ok _ => {entry}
    | .error _ => 0
  | _ => 0

/-- The entries that a move adds to the primary by a reconciliation. -/
def FanoutState.reconciledBy (reconciled : ω → σ → Multiset JournalEntry) (s : FanoutState σ τ) :
    FanoutMove ω → Multiset JournalEntry
  | .call w .reconcileZombies => reconciled w s.primary
  | _ => 0

def FanoutState.added (reconciled : ω → σ → Multiset JournalEntry) (s : FanoutState σ τ)
    (moves : List (FanoutMove ω)) : Multiset JournalEntry :=
  s.total primary stores (fun s m => s.appendedBy primary m + s.reconciledBy reconciled m) moves

/-- The entries that a history hands to the secondary at an index. -/
def FanoutState.handed (i : ℕ) (s : FanoutState σ τ) (moves : List (FanoutMove ω)) :
    Multiset JournalEntry :=
  s.total primary stores (FanoutState.handedBy i) moves

/-- No reconciliation of a history adds anything. -/
def FanoutState.NothingReconciled (reconciled : ω → σ → Multiset JournalEntry) :
    FanoutState σ τ → List (FanoutMove ω) → Prop
  | _, [] => True
  | s, m :: rest => (∀ w, m = .call w .reconcileZombies → reconciled w s.primary = 0) ∧
    FanoutState.NothingReconciled reconciled (s.step primary stores m) rest

end History

/-! ## Handed and waiting -/

/-- The writes that wait for the secondary at an index. -/
def FanoutState.waiting (i : ℕ) (s : FanoutState σ τ) : Multiset JournalEntry :=
  ((s.spawned.filter fun p => p.1 = i).map Prod.snd : List JournalEntry)

/-- Every secondary has its store, and every write its secondary. -/
structure FanoutState.Fits (stores : List (JournalStore ω τ)) (s : FanoutState σ τ) : Prop where
  length : stores.length = s.secondaries.length
  spawned : ∀ p ∈ s.spawned, p.1 < s.secondaries.length

section Step
variable {primary : JournalStore ω σ} {stores : List (JournalStore ω τ)} {s : FanoutState σ τ} {i : ℕ}

theorem FanoutState.waiting_of_spawned {s' : FanoutState σ τ} {spawned : List (ℕ × JournalEntry)}
    (h : s'.spawned.Perm (spawned ++ s.spawned)) :
    s'.waiting i = ((spawned.filter fun p => p.1 = i).map Prod.snd : List JournalEntry) + s.waiting i := by
  have hperm := (h.filter fun p => p.1 = i).map Prod.snd
  rw [List.filter_append, List.map_append] at hperm
  exact Multiset.coe_eq_coe.mpr hperm

theorem filter_range_pair (entry : JournalEntry) {n : ℕ} (hi : i < n) :
    (((List.range n).map fun j => (j, entry)).filter fun p => p.1 = i).map Prod.snd = [entry] := by
  have hrange : (List.range n).filter (fun j => j = i) = [i] := by
    rw [List.filter_eq, List.count_range, if_pos hi]
    rfl
  rw [List.filter_map, List.map_map]
  simp only [Function.comp_def]
  rw [hrange]
  rfl

theorem FanoutState.Fits.append (h : s.Fits stores) (w : ω) (entry : JournalEntry) :
    (fanoutAppend primary w entry s).2.Fits stores := by
  unfold fanoutAppend
  split
  · exact ⟨h.length, h.spawned⟩
  · refine ⟨h.length, ?_⟩
    intro p hp
    obtain hp | hp := List.mem_append.mp hp
    · exact h.spawned p hp
    · obtain ⟨j, hj, rfl⟩ := List.mem_map.mp hp
      exact List.mem_range.mp hj

theorem FanoutState.waiting_append (hi : i < s.secondaries.length) (w : ω) (entry : JournalEntry) :
    (fanoutAppend primary w entry s).2.waiting i =
      s.waiting i + s.appendedBy primary (.call w (.append entry)) := by
  unfold fanoutAppend
  cases happend : primary.append w entry s.primary with
  | mk answer p =>
    cases answer with
    | error e =>
      simp only [FanoutState.appendedBy, happend, add_zero]
      rfl
    | ok seq =>
      simp only [FanoutState.appendedBy, happend]
      rw [FanoutState.waiting_of_spawned (s := s) List.perm_append_comm, filter_range_pair entry hi,
        add_comm]
      rfl

theorem FanoutState.settle_spawned (h : s.Fits stores) {w : ω} {k : ℕ} {p : ℕ × JournalEntry}
    (hk : s.spawned[k]? = some p) : (s.settle stores w k).spawned = s.spawned.eraseIdx k ∧
      (s.settle stores w k).secondaries.length = s.secondaries.length := by
  obtain ⟨j, entry⟩ := p
  have hj : j < s.secondaries.length := h.spawned _ (List.mem_of_getElem? hk)
  have hj' : j < stores.length := h.length ▸ hj
  simp only [settle, hk, List.getElem?_eq_getElem hj', List.getElem?_eq_getElem hj, List.length_set,
    and_self]

theorem FanoutState.Fits.settle (h : s.Fits stores) (w : ω) (k : ℕ) :
    (s.settle stores w k).Fits stores := by
  cases hk : s.spawned[k]? with
  | none =>
    have hstay : s.settle stores w k = s := by simp only [FanoutState.settle, hk]
    rw [hstay]
    exact h
  | some p =>
    obtain ⟨hspawned, hlength⟩ := FanoutState.settle_spawned h (w := w) hk
    refine ⟨h.length.trans hlength.symm, ?_⟩
    intro q hq
    rw [hspawned] at hq
    rw [hlength]
    exact h.spawned q (List.mem_of_mem_eraseIdx hq)

theorem FanoutState.waiting_settle (h : s.Fits stores) (w : ω) (k : ℕ) :
    (s.settle stores w k).waiting i + s.handedBy i (.secondary w k) = s.waiting i := by
  cases hk : s.spawned[k]? with
  | none => simp only [FanoutState.settle, FanoutState.handedBy, hk, add_zero]
  | some p =>
    obtain ⟨j, entry⟩ := p
    obtain ⟨hspawned, _⟩ := FanoutState.settle_spawned h (w := w) hk
    obtain ⟨hlt, hget⟩ := List.getElem?_eq_some_iff.mp hk
    have hperm : s.spawned.Perm ([(j, entry)] ++ (s.settle stores w k).spawned) := by
      rw [hspawned, ← hget]
      exact (List.getElem_cons_eraseIdx_perm hlt).symm
    rw [FanoutState.waiting_of_spawned hperm, add_comm]
    congr 1
    simp only [FanoutState.handedBy, hk]
    by_cases hji : j = i
    · simp [hji]
    · simp [hji]

theorem FanoutState.Fits.step (h : s.Fits stores) (primary : JournalStore ω σ) (m : FanoutMove ω) :
    (s.step primary stores m).Fits stores := by
  cases m with
  | secondary w k => exact h.settle w k
  | call w c =>
    cases c with
    | append entry => exact h.append w entry
    | queryByRun | queryBySession | recent | reconcileZombies | query | aggregate
    | getByIdempotencyKey | deleteExpired => exact ⟨h.length, h.spawned⟩

/-- One move: what was waiting or is appended is waiting afterwards, or has been handed over. -/
theorem FanoutState.waiting_step (primary : JournalStore ω σ) (h : s.Fits stores)
    (hi : i < s.secondaries.length) (m : FanoutMove ω) :
    (s.step primary stores m).waiting i + s.handedBy i m = s.waiting i + s.appendedBy primary m := by
  cases m with
  | secondary w k =>
    change _ = s.waiting i + 0
    rw [add_zero]
    exact FanoutState.waiting_settle h w k
  | call w c =>
    rw [FanoutState.handedBy, add_zero]
    cases c with
    | append entry => exact FanoutState.waiting_append hi w entry
    | queryByRun | queryBySession | recent | reconcileZombies | query | aggregate
    | getByIdempotencyKey | deleteExpired =>
      change _ = s.waiting i + 0
      rw [add_zero]
      rfl

theorem FanoutState.step_length (h : s.Fits stores) (m : FanoutMove ω) :
    (s.step primary stores m).secondaries.length = s.secondaries.length :=
  (h.step primary m).length.symm.trans h.length

end Step

/-! ## Whole histories -/

section Totals
variable (primary : JournalStore ω σ) {stores : List (JournalStore ω τ)}

/-- Over a history: what was waiting or is appended is waiting afterwards, or has been handed over. -/
theorem FanoutState.waiting_after {s : FanoutState σ τ} (h : s.Fits stores) {i : ℕ}
    (hi : i < s.secondaries.length) (moves : List (FanoutMove ω)) :
    (s.after primary stores moves).waiting i + s.handed primary stores i moves =
      s.waiting i + s.total primary stores (FanoutState.appendedBy primary) moves := by
  induction moves generalizing s with
  | nil => rfl
  | cons m rest ih =>
    have hrest := ih (h.step primary m) (by rw [FanoutState.step_length h]; exact hi)
    have hstep := FanoutState.waiting_step primary h hi m
    change _ + (s.handedBy i m + _) = _ + (s.appendedBy primary m + _)
    calc (s.after primary stores (m :: rest)).waiting i +
          (s.handedBy i m + (s.step primary stores m).handed primary stores i rest)
        = s.handedBy i m + ((s.after primary stores (m :: rest)).waiting i +
          (s.step primary stores m).handed primary stores i rest) := by abel
      _ = s.handedBy i m + ((s.step primary stores m).waiting i +
          (s.step primary stores m).total primary stores (FanoutState.appendedBy primary) rest) := by
            rw [← hrest]
            rfl
      _ = s.waiting i + (s.appendedBy primary m +
          (s.step primary stores m).total primary stores (FanoutState.appendedBy primary) rest) := by
            rw [← add_assoc, add_comm (s.handedBy i m), hstep, add_assoc]

theorem FanoutState.added_eq (reconciled : ω → σ → Multiset JournalEntry) (s : FanoutState σ τ)
    (moves : List (FanoutMove ω)) :
    s.added primary stores reconciled moves =
      s.total primary stores (FanoutState.appendedBy primary) moves +
        s.total primary stores (FanoutState.reconciledBy reconciled) moves := by
  induction moves generalizing s with
  | nil => rfl
  | cons m rest ih =>
    change s.appendedBy primary m + s.reconciledBy reconciled m + _ =
      s.appendedBy primary m + _ + (s.reconciledBy reconciled m + _)
    rw [← FanoutState.added, ih]
    abel

theorem FanoutState.reconciled_eq_zero_iff (reconciled : ω → σ → Multiset JournalEntry)
    (s : FanoutState σ τ) (moves : List (FanoutMove ω)) :
    s.total primary stores (FanoutState.reconciledBy reconciled) moves = 0 ↔
      s.NothingReconciled primary stores reconciled moves := by
  induction moves generalizing s with
  | nil => exact iff_of_true rfl trivial
  | cons m rest ih =>
    have hmove : s.reconciledBy reconciled m = 0 ↔
        ∀ w, m = .call w .reconcileZombies → reconciled w s.primary = 0 := by
      constructor
      · rintro h w rfl
        exact h
      · intro h
        cases m with
        | secondary => rfl
        | call w c =>
          cases c with
          | reconcileZombies => exact h w rfl
          | append | queryByRun | queryBySession | recent | query | aggregate | getByIdempotencyKey
          | deleteExpired => rfl
    change s.reconciledBy reconciled m + _ = 0 ↔ _ ∧ _
    rw [← Multiset.card_eq_zero, Multiset.card_add, Nat.add_eq_zero_iff, Multiset.card_eq_zero,
      Multiset.card_eq_zero, hmove, ih]

end Totals

/-- For every primary and what its reconciliations add, every fan-out over it with nothing spawned yet,
and every history whose spawned writes have all run: every secondary has been handed exactly the
entries that were added to the primary, if and only if there is no secondary or no reconciliation has
added an entry. -/
theorem secondaries_complete_iff (primary : JournalStore ω σ)
    (reconciled : ω → σ → Multiset JournalEntry) (stores : List (JournalStore ω τ))
    (s : FanoutState σ τ) (hstores : stores.length = s.secondaries.length) (hfresh : s.spawned = [])
    (moves : List (FanoutMove ω)) (hdrained : (s.after primary stores moves).spawned = []) :
    (∀ i < s.secondaries.length,
      s.handed primary stores i moves = s.added primary stores reconciled moves) ↔
    s.secondaries = [] ∨ s.NothingReconciled primary stores reconciled moves := by
  have hfits : s.Fits stores := ⟨hstores, by simp [hfresh]⟩
  have hhanded : ∀ i < s.secondaries.length, s.handed primary stores i moves =
      s.total primary stores (FanoutState.appendedBy primary) moves := by
    intro i hi
    have hafter := FanoutState.waiting_after primary hfits hi moves
    simpa [FanoutState.waiting, hdrained, hfresh] using hafter
  have heach : ∀ i < s.secondaries.length,
      (s.handed primary stores i moves = s.added primary stores reconciled moves ↔
        s.NothingReconciled primary stores reconciled moves) := by
    intro i hi
    rw [hhanded i hi, FanoutState.added_eq, left_eq_add, FanoutState.reconciled_eq_zero_iff]
  constructor
  · intro h
    obtain hnil | hne := eq_or_ne s.secondaries []
    · exact .inl hnil
    · have hfirst : 0 < s.secondaries.length := List.length_pos_of_ne_nil hne
      exact .inr ((heach 0 hfirst).mp (h 0 hfirst))
  · rintro (hnil | hnothing) i hi
    · rw [hnil] at hi
      cases hi
    · exact (heach i hi).mpr hnothing

/-! ## A redb primary -/

/-- What a reconciliation of `RedbJournal` adds. -/
def redbReconciled (_ : Time) (j : RedbJournal) : Multiset JournalEntry := j.zombies

def redbPair : FanoutState RedbJournal RedbJournal := ⟨.open_, [.open_], [], 0⟩

def endedMoves : List (FanoutMove Time) :=
  [.call 0 (.append (runEvent 7 "workflow_started")), .call 0 (.append (runEvent 7 "workflow_failed")),
    .secondary 1 1, .secondary 2 0, .call 3 .reconcileZombies]

/-- A run that has ended is written to both journals, and the reconciliation finds nothing. -/
theorem ended_run_replicated : redbPair.handed (redbStore toString) [redbStore toString] 0 endedMoves =
    redbPair.added (redbStore toString) [redbStore toString] redbReconciled endedMoves := by
  have hdrained : (redbPair.after (redbStore toString) [redbStore toString] endedMoves).spawned = [] := by
    decide +kernel
  have hnothing : redbPair.NothingReconciled (redbStore toString) [redbStore toString] redbReconciled
      endedMoves := by
    rw [← FanoutState.reconciled_eq_zero_iff, ← Multiset.card_eq_zero]
    decide +kernel
  exact (secondaries_complete_iff (redbStore toString) redbReconciled [redbStore toString] redbPair rfl
    rfl _ hdrained).mpr (.inr hnothing) 0 (by decide)

/-- The entry that closes an interrupted run is added to the primary only. -/
theorem reconciled_entry_not_replicated : ∃ moves : List (FanoutMove Time),
    (redbPair.after (redbStore toString) [redbStore toString] moves).spawned = [] ∧
    (redbPair.after (redbStore toString) [redbStore toString] moves).droppedSecondaryWrites = 0 ∧
    redbPair.handed (redbStore toString) [redbStore toString] 0 moves ≠
      redbPair.added (redbStore toString) [redbStore toString] redbReconciled moves := by
  refine ⟨[.call 0 (.append (runEvent 7 "workflow_started")), .secondary 1 0, .call 2 .reconcileZombies],
    by decide +kernel, by decide +kernel, ?_⟩
  intro h
  have hcards := congrArg Multiset.card h
  revert hcards
  decide +kernel

end Konf.Journal
