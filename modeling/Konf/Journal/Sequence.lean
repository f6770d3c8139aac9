import Konf.Journal.Indexes

/-! # Sequence ids

The next id is one more than the greatest id in the log, so ids grow as long as the newest entry is
in the log. A sweep that removes the newest entry frees its id, and the next append takes an id that
has been given out before. -/

namespace Konf.Journal
open Konf.Substrate
set_option autoImplicit false

/-- The ids that the appends among the writes return, in order. -/
def RedbJournal.issued (j : RedbJournal) : List Write → List ℕ
  | [] => []
  | w :: rest => (w.perform j).1 ++ (w.perform j).2.issued rest

/-- The entry has ended by `now`, both read in microseconds. -/
def JournalEntry.Lapsed (entry : JournalEntry) (now : Time) : Prop :=
  ∃ validTo, entry.validTo = some validTo ∧ timestampMicros validTo ≤ timestampMicros now

def Write.isAppend : Write → Bool
  | .append _ _ => true
  | .deleteExpired _ => false

/-- No append comes after a sweep at which the newest entry has lapsed. `newest` is the entry
appended last. -/
def NewestKept : Option JournalEntry → List Write → Prop
  | _, [] => True
  | _, .append _ entry :: rest => NewestKept (some entry) rest
  | newest, .deleteExpired now :: rest =>
    ((∃ entry, newest = some entry ∧ entry.Lapsed now) → ∀ w ∈ rest, w.isAppend = false) ∧
      NewestKept newest rest

section Sweep
variable {j : RedbJournal} {now : Time}

theorem isSwept_fromEntry (t : Time) (entry : JournalEntry) :
    (StoredEntry.fromEntry t entry).isSwept now = true ↔ entry.Lapsed now := by
  unfold StoredEntry.isSwept StoredEntry.fromEntry JournalEntry.Lapsed
  cases entry.validTo with
  | none => simp
  | some validTo => simp

theorem newestKept_of_noAppend (newest : Option JournalEntry) {ws : List Write}
    (h : ∀ w ∈ ws, w.isAppend = false) : NewestKept newest ws := by
  induction ws with
  | nil => trivial
  | cons w rest ih =>
    have hrest : ∀ w ∈ rest, w.isAppend = false := fun w hw => h w (List.mem_cons_of_mem _ hw)
    cases w with
    | append t entry => cases h _ (List.mem_cons_self ..)
    | deleteExpired now => exact ⟨fun _ => hrest, ih hrest⟩

theorem issued_of_noAppend (j : RedbJournal) {ws : List Write} (h : ∀ w ∈ ws, w.isAppend = false) :
    j.issued ws = [] := by
  induction ws generalizing j with
  | nil => rfl
  | cons w rest ih =>
    cases w with
    | append t entry => cases h _ (List.mem_cons_self ..)
    | deleteExpired now => exact ih _ fun w hw => h w (List.mem_cons_of_mem _ hw)

/-- Without its newest entry, a log gives an id out again at the next append. -/
theorem lost_increasing_iff {n : ℕ} (hlow : ∀ r ∈ j.events.rows, r.1 < n) (hn : 0 < n)
    (ws : List Write) :
    (n :: j.issued ws).Pairwise (· < ·) ↔ ∀ w ∈ ws, w.isAppend = false := by
  constructor
  · intro h
    induction ws generalizing j with
    | nil => exact fun w hw => absurd hw (List.not_mem_nil)
    | cons w rest ih =>
      cases w with
      | append t entry =>
        have hlt : n < j.nextId := List.rel_of_pairwise_cons h (List.mem_cons_self ..)
        have hle : j.nextId ≤ n := by
          unfold RedbJournal.nextId
          cases hlast : j.events.lastKey with
          | none => exact hn
          | some k =>
            obtain ⟨v, init, hrows⟩ := Table.lastKey_eq_some_iff.mp hlast
            refine hlow (k, v) ?_
            rw [hrows]
            exact List.mem_append_right _ (List.mem_singleton_self _)
        omega
      | deleteExpired now =>
        have hlow' : ∀ r ∈ (j.deleteExpired now).2.events.rows, r.1 < n := by
          intro r hr
          rw [RedbJournal.deleteExpired_rows] at hr
          exact hlow r (List.mem_filter.mp hr).1
        intro w hw
        obtain rfl | hw := List.mem_cons.mp hw
        · rfl
        · exact ih hlow' h w hw
  · intro h
    rw [issued_of_noAppend j h]
    exact List.pairwise_singleton _ _

/-- With its newest entry in the log, the ids grow exactly as long as it is kept. -/
theorem kept_increasing_iff {init : List (ℕ × StoredEntry)} {n : ℕ} {t : Time} {entry : JournalEntry}
    (hrows : j.events.rows = init ++ [(n, StoredEntry.fromEntry t entry)]) (hn : 0 < n)
    (ws : List Write) :
    (n :: j.issued ws).Pairwise (· < ·) ↔ NewestKept (some entry) ws := by
  induction ws generalizing j init n t entry with
  | nil => exact iff_of_true (List.pairwise_singleton _ _) trivial
  | cons w rest ih =>
    cases w with
    | append t' entry' =>
      have hnext : j.nextId = n + 1 := by
        rw [RedbJournal.nextId, Table.lastKey_eq_some_iff.mpr ⟨_, _, hrows⟩]
        rfl
      have hrows' := j.append_rows t' entry'
      rw [hnext] at hrows'
      rw [NewestKept, ← ih hrows' (Nat.succ_pos n)]
      change (n :: j.nextId :: (j.append t' entry').2.issued rest).Pairwise _ ↔ _
      rw [hnext, List.pairwise_cons]
      constructor
      · exact fun h => h.2
      · intro h
        refine ⟨?_, h⟩
        intro i hi
        obtain rfl | hi := List.mem_cons.mp hi
        · exact Nat.lt_succ_self n
        · exact (Nat.lt_succ_self n).trans (List.rel_of_pairwise_cons h hi)
    | deleteExpired now =>
      have hsweep := j.deleteExpired_rows now
      rw [hrows, List.filter_append] at hsweep
      by_cases hlapsed : entry.Lapsed now
      · have hswept := (isSwept_fromEntry t entry).mpr hlapsed
        rw [List.filter_singleton, hswept, Bool.not_true, cond_false, List.append_nil] at hsweep
        have hlow : ∀ r ∈ (j.deleteExpired now).2.events.rows, r.1 < n := by
          intro r hr
          rw [hsweep] at hr
          have hsorted := j.events.sorted
          rw [hrows, List.pairwise_append] at hsorted
          exact hsorted.2.2 r (List.mem_filter.mp hr).1 _ (List.mem_singleton_self _)
        refine (lost_increasing_iff hlow hn rest).trans ?_
        constructor
        · exact fun h => ⟨fun _ => h, newestKept_of_noAppend _ h⟩
        · exact fun h => h.1 ⟨entry, rfl, hlapsed⟩
      · have hkept : (StoredEntry.fromEntry t entry).isSwept now = false := by
          rw [← Bool.not_eq_true, isSwept_fromEntry]
          exact hlapsed
        rw [List.filter_singleton, hkept, Bool.not_false, cond_true] at hsweep
        refine (ih hsweep hn).trans ?_
        constructor
        · intro h
          refine ⟨?_, h⟩
          rintro ⟨entry', heq, hl⟩
          cases heq
          exact absurd hl hlapsed
        · exact fun h => h.2

end Sweep

/-- Before the first append nothing can be lost. -/
theorem empty_increasing_iff {j : RedbJournal} (hrows : j.events.rows = []) (ws : List Write) :
    (j.issued ws).Pairwise (· < ·) ↔ NewestKept none ws := by
  induction ws generalizing j with
  | nil => exact iff_of_true List.Pairwise.nil trivial
  | cons w rest ih =>
    cases w with
    | append t entry =>
      have hnext : j.nextId = 1 := by
        rw [RedbJournal.nextId, Table.lastKey_eq_none_iff.mpr hrows]
        rfl
      have hrows' := j.append_rows t entry
      rw [hnext] at hrows'
      rw [NewestKept, ← kept_increasing_iff hrows' Nat.one_pos]
      change (j.nextId :: (j.append t entry).2.issued rest).Pairwise _ ↔ _
      rw [hnext]
    | deleteExpired now =>
      have hsweep := j.deleteExpired_rows now
      rw [hrows, List.filter_nil] at hsweep
      refine (ih hsweep).trans ?_
      constructor
      · intro h
        refine ⟨?_, h⟩
        rintro ⟨entry, heq, -⟩
        cases heq
      · exact fun h => h.2

/-- Over the whole life of a journal the ids of successive appends increase exactly when no append
comes after a sweep at which the newest entry has lapsed. -/
theorem ids_increasing_iff (ws : List Write) :
    (RedbJournal.open_.issued ws).Pairwise (· < ·) ↔ NewestKept none ws :=
  empty_increasing_iff rfl ws

/-- The only entry is swept, and the next one gets its id. -/
theorem swept_id_reused :
    ¬∀ ws, (RedbJournal.open_.issued ws).Pairwise (· < ·) := by
  intro h
  have hids : RedbJournal.open_.issued [.append 0 (keyedEvent 7 5000 "k"), .deleteExpired 9000,
      .append 9000 (runEvent 8 "workflow_started")] = [1, 1] := by
    decide +kernel
  have hlt := h [.append 0 (keyedEvent 7 5000 "k"), .deleteExpired 9000,
    .append 9000 (runEvent 8 "workflow_started")]
  rw [hids] at hlt
  exact absurd hlt (by decide)

end Konf.Journal
