import Konf.Runtime.NodeEvents

/-! # The order of node events in the journal

The sequence id is assigned inside the append, and each event is appended by a task of its own, so the
ids follow the order in which these tasks happen to run. Nothing makes the end of a step wait for its
start, nor the terminal entry for either. When the tasks run in such an order, the ids are in order as
well, whatever else is written to the journal and swept from it meanwhile: the entries of a run carry
no expiry and stay. -/

namespace Konf.Runtime
open Konf.Substrate Konf.Executor Konf.Text Konf.Transition Konf.Journal
set_option autoImplicit false

/-- The ids of a run's entries: a start before what follows in its execution, and all of them before
the terminal entry. Each id is that of the entry in the journal. -/
structure NodesOrdered (l : Launch) (runId : RunId) (o : Observed) : Prop where
  starts : ∀ i e j e', (i, some e) ∈ o.written → (j, some e') ∈ o.written →
    e.execution = e'.execution → e.isStart = true → e'.isStart = false → i < j
  last : ∀ i e j, (i, some e) ∈ o.written → (j, none) ∈ o.written → i < j
  events : ∀ i e, (i, some e) ∈ o.written → ∃ now stamp, (i, StoredEntry.fromEntry now
    ((l.hooks runId).eventEntry l.sys.lib stamp e.event)) ∈ o.journal.events.rows
  terminal : ∀ i, (i, none) ∈ o.written → ∃ now, ∃ row : JournalRow, (i, StoredEntry.fromEntry now
    ((l.hooks runId).entry row.eventType row.payload)) ∈ o.journal.events.rows

/-- A task appends a retry or an end only when no task with the start of its execution is waiting, the
terminal entry is appended only when no task is waiting, and the watcher does not stop before `execute`
has returned. -/
def AppendsInOrder (l : Launch) (o : Observed) : ObservedMove → Prop
  | .append k _ => ((o.spawned[k]?).all fun p => p.1.isStart || o.spawned.all fun q =>
      q.1.execution != p.1.execution || !q.1.isStart) = true
  | .finish _ => o.spawned.isEmpty = true
  | .aside m => StaysOn l o.run m
  | .work _ _ | .retry _ _ _ | .drop _ | .others _ => True

instance (l : Launch) (o : Observed) : (m : ObservedMove) → Decidable (AppendsInOrder l o m)
  | .append _ _ => inferInstanceAs (Decidable (_ = true))
  | .finish _ => inferInstanceAs (Decidable (_ = true))
  | .aside m => inferInstanceAs (Decidable (StaysOn l o.run m))
  | .work _ _ | .retry _ _ _ | .drop _ | .others _ => inferInstanceAs (Decidable True)

theorem AppendsInOrder.staysOn {l : Launch} {o : Observed} {m : ObservedMove}
    (h : AppendsInOrder l o m) : m.StaysOn l o := by
  cases m with
  | aside m => exact h
  | _ => trivial

/-! ## Entries that stay -/

theorem RuntimeHooks.entry_validTo (h : RuntimeHooks) (now : Time) (eventType : String)
    (payload : Json) : (StoredEntry.fromEntry now (h.entry eventType payload)).validToMicros = none :=
  rfl

theorem RuntimeHooks.eventEntry_validTo (h : RuntimeHooks) (lib : Externals) (now : Time)
    (stamp : Stamp) (e : ExecutorEvent) :
    (StoredEntry.fromEntry now (h.eventEntry lib stamp e)).validToMicros = none := by
  cases e <;> rfl

/-! ## Ordered appends -/

/-- What has been written and what is waiting. -/
structure Observed.Queued (l : Launch) (runId : RunId) (o : Observed) : Prop where
  ordered : NodesOrdered l runId o
  entries : ∀ p ∈ o.spawned, p.1 ∈ o.log ∧
    ∃ stamp, p.2 = (l.hooks runId).eventEntry l.sys.lib stamp p.1.event
  logged : ∀ i e, (i, some e) ∈ o.written → e ∈ o.log
  -- after a retry or an end of an execution its start is not waiting
  after : ∀ i e, (i, some e) ∈ o.written → e.isStart = false → ∀ p ∈ o.spawned,
    p.1.execution = e.execution → p.1.isStart = false
  -- after the terminal entry nothing is waiting, and nothing comes
  closed : ∀ i, (i, none) ∈ o.written → o.spawned = [] ∧ o.run.worker.settled = true

section Queue
variable {l : Launch} {runId : RunId} {o o' : Observed} {m : ObservedMove}

theorem NodesOrdered.lt_nextId (h : NodesOrdered l runId o) {i : ℕ} {e : Option NodeEvent}
    (hi : (i, e) ∈ o.written) : i < o.journal.nextId := by
  cases e with
  | none =>
    obtain ⟨now, row, hr⟩ := h.terminal i hi
    exact RedbJournal.lt_nextId hr
  | some e =>
    obtain ⟨now, stamp, hr⟩ := h.events i e hi
    exact RedbJournal.lt_nextId hr

/-- The order does not depend on what others do to the journal. -/
theorem NodesOrdered.kept (h : NodesOrdered l runId o) (hwritten : o'.written = o.written)
    (hrows : ∀ r ∈ o.journal.events.rows, r.2.validToMicros = none → r ∈ o'.journal.events.rows) :
    NodesOrdered l runId o' := by
  refine ⟨?_, ?_, ?_, ?_⟩
  · rw [hwritten]
    exact h.starts
  · rw [hwritten]
    exact h.last
  · rw [hwritten]
    intro i e he
    obtain ⟨now, stamp, hr⟩ := h.events i e he
    exact ⟨now, stamp, hrows _ hr (RuntimeHooks.eventEntry_validTo ..)⟩
  · rw [hwritten]
    intro i hi
    obtain ⟨now, row, hr⟩ := h.terminal i hi
    exact ⟨now, row, hrows _ hr (RuntimeHooks.entry_validTo ..)⟩

theorem Observed.mem_write {now : Time} {entry : JournalEntry} {e e' : Option NodeEvent} {i : ℕ}
    (hi : (i, e') ∈ (o.write now entry e).written) :
    (i, e') ∈ o.written ∨ (i = o.journal.nextId ∧ e' = e) := by
  obtain hi | hi := List.mem_append.mp hi
  · exact .inl hi
  · cases List.mem_singleton.mp hi
    exact .inr ⟨rfl, rfl⟩

theorem Observed.write_rows (now : Time) (entry : JournalEntry) (e : Option NodeEvent) :
    (o.write now entry e).journal.events.rows =
      o.journal.events.rows ++ [(o.journal.nextId, StoredEntry.fromEntry now entry)] :=
  o.journal.append_rows now entry

/-- What an append of this run does to the order, once the order of its own id is known. -/
theorem NodesOrdered.write (h : NodesOrdered l runId o) {e : Option NodeEvent} {now : Time}
    {entry : JournalEntry}
    (hfirst : ∀ i e₁ e₂, e = some e₁ → (i, some e₂) ∈ o.written → e₁.execution = e₂.execution →
      e₁.isStart = true → e₂.isStart = true)
    (hopen : e.isSome = true → ∀ i, (i, none) ∉ o.written)
    (hevent : ∀ e₁, e = some e₁ → ∃ stamp, entry = (l.hooks runId).eventEntry l.sys.lib stamp e₁.event)
    (hterminal : e = none → ∃ row : JournalRow,
      entry = (l.hooks runId).entry row.eventType row.payload) :
    NodesOrdered l runId (o.write now entry e) := by
  refine ⟨?_, ?_, ?_, ?_⟩
  · intro i e₁ j e₂ hi hj hsame hstart hlater
    obtain hi | ⟨rfl, he₁⟩ := Observed.mem_write hi
    · obtain hj | ⟨rfl, -⟩ := Observed.mem_write hj
      · exact h.starts i e₁ j e₂ hi hj hsame hstart hlater
      · exact h.lt_nextId hi
    · obtain hj | ⟨-, he₂⟩ := Observed.mem_write hj
      · rw [hfirst j e₁ e₂ he₁.symm hj hsame hstart] at hlater
        cases hlater
      · cases he₁.trans he₂.symm
        rw [hstart] at hlater
        cases hlater
  · intro i e₁ j hi hj
    obtain hi | ⟨rfl, he₁⟩ := Observed.mem_write hi
    · obtain hj | ⟨rfl, -⟩ := Observed.mem_write hj
      · exact h.last i e₁ j hi hj
      · exact h.lt_nextId hi
    · obtain hj | ⟨-, he₂⟩ := Observed.mem_write hj
      · exact absurd hj (hopen (by rw [← he₁]; rfl) j)
      · cases he₁.trans he₂.symm
  · intro i e₁ hi
    rw [Observed.write_rows]
    obtain hi | ⟨rfl, he₁⟩ := Observed.mem_write hi
    · obtain ⟨now₁, stamp, hr⟩ := h.events i e₁ hi
      exact ⟨now₁, stamp, List.mem_append_left _ hr⟩
    · obtain ⟨stamp, rfl⟩ := hevent e₁ he₁.symm
      exact ⟨now, stamp, List.mem_append_right _ (List.mem_singleton_self _)⟩
  · intro i hi
    rw [Observed.write_rows]
    obtain hi | ⟨rfl, he⟩ := Observed.mem_write hi
    · obtain ⟨now₁, row, hr⟩ := h.terminal i hi
      exact ⟨now₁, row, List.mem_append_left _ hr⟩
    · obtain ⟨row, rfl⟩ := hterminal he.symm
      exact ⟨now, row, List.mem_append_right _ (List.mem_singleton_self _)⟩

theorem Observed.Queued.aside (hi : o.Queued l runId) {r' : LiveRun}
    (hset : o.run.worker.settled = true → r'.worker.settled = true) :
    ({ o with run := r' } : Observed).Queued l runId :=
  ⟨hi.ordered.kept rfl fun _ hr _ => hr, hi.entries, hi.logged, hi.after,
    fun i hw => ⟨(hi.closed i hw).1, hset (hi.closed i hw).2⟩⟩

/-- A new event waits. If it is a start, its execution is new to the log. -/
theorem Observed.Queued.onEvent (hi : o.Queued l runId) {stamp : Stamp} {e : NodeEvent}
    (hfresh : e.isStart = true → ∀ e' ∈ o.log, e'.execution ≠ e.execution)
    (hopen : ∀ i, (i, none) ∉ o.written) : (o.onEvent l runId stamp e).Queued l runId := by
  refine ⟨hi.ordered.kept rfl fun _ hr _ => hr, ?_, ?_, ?_, fun i hw => absurd hw (hopen i)⟩
  · intro p hp
    obtain hp | hp := List.mem_append.mp hp
    · obtain ⟨hlog, hentry⟩ := hi.entries p hp
      exact ⟨List.mem_append_left _ hlog, hentry⟩
    · rw [List.mem_singleton.mp hp]
      exact ⟨List.mem_append_right _ (List.mem_singleton_self _), stamp, rfl⟩
  · intro i e' hw
    exact List.mem_append_left _ (hi.logged i e' hw)
  · intro i e' hw hlater p hp hsame
    obtain hp | hp := List.mem_append.mp hp
    · exact hi.after i e' hw hlater p hp hsame
    · rw [List.mem_singleton.mp hp] at hsame ⊢
      by_contra hstart
      exact hfresh (Bool.not_eq_false _ ▸ hstart) e' (hi.logged i e' hw) hsame.symm

/-- While a task is there, no terminal entry has been written. -/
theorem Observed.Queued.unwritten (hi : o.Queued l runId) (hsound : o.Sound l) {s : State} {t : Task}
    (hw : o.run.worker = .running s) (ht : t ∈ s.tasks) (i : ℕ) : (i, none) ∉ o.written := by
  intro hwritten
  have htasks := hsound.worker.tasks_nil (hi.closed i hwritten).2
  rw [hw] at htasks
  rw [show s.tasks = [] from htasks] at ht
  cases ht

theorem Observed.Queued.work (hi : o.Queued l runId) (hsound : o.Sound l) {c : Choice StepAnswer}
    {s s' : State} {stamp : Stamp} (hw : o.run.worker = .running s) (h : Trans l.env s c s') :
    ({ o with run := { o.run with worker := .running s' } }.raise l runId stamp
      (raised l.finalEvent s c)).Queued l runId := by
  have hreach := hsound.worker s hw
  have htallies := Reachable.tallies hreach
  have hmoved : ({ o with run := { o.run with worker := .running s' } } : Observed).Queued l runId :=
    hi.aside fun hset => (LifeStep.work hw h).settled hsound.worker hset
  have hraises : Raises l.env l.finalEvent s c s' (raised l.finalEvent s c) :=
    h.raises l.finalEvent htallies.tallied (Reachable.ledger hreach).ids
  generalize raised l.finalEvent s c = event at hraises ⊢
  obtain @⟨k, t, e, hk, hpc⟩ | @⟨k, t, seen, a, hk, hpc, -⟩ | ⟨-, -⟩ := hraises
  · have hmem : t ∈ s.tasks := List.mem_of_getElem? hk
    refine hmoved.onEvent (fun _ => ?_) (hi.unwritten hsound hw hmem)
    exact (hsound.logged s hw).fresh (htallies.tallied t hmem) hmem hpc
  · cases hend : l.finalEvent a t.current seen with
    | none => exact hmoved
    | some e =>
      refine hmoved.onEvent (fun hstart => ?_) (hi.unwritten hsound hw (List.mem_of_getElem? hk))
      have hb : e.boundary = some .ended := finalEvent_boundary hend
      simp [NodeEvent.isStart, hb] at hstart
  · exact hmoved

/-- An append task runs, and the start of its execution does not wait behind it. -/
theorem Observed.Queued.append (hi : o.Queued l runId) {k : ℕ} {e : NodeEvent} {entry : JournalEntry}
    {now : Time} {r' : LiveRun} (hk : o.spawned[k]? = some (e, entry))
    (hfirst : e.isStart = false → ∀ q ∈ o.spawned, q.1.execution = e.execution →
      q.1.isStart = false) :
    ({ o with run := r', spawned := o.spawned.eraseIdx k }.write now entry (some e)).Queued
      l runId := by
  have hmem : (e, entry) ∈ o.spawned := List.mem_of_getElem? hk
  have hwaiting : ∀ p ∈ o.spawned.eraseIdx k, p ∈ o.spawned := fun p => List.mem_of_mem_eraseIdx
  have hopen : ∀ i, (i, none) ∉ o.written := by
    intro i hw
    rw [(hi.closed i hw).1] at hmem
    cases hmem
  obtain ⟨hlog, hentry⟩ := hi.entries _ hmem
  have hkept : NodesOrdered l runId { o with run := r', spawned := o.spawned.eraseIdx k } :=
    hi.ordered.kept rfl fun _ hr _ => hr
  refine ⟨hkept.write ?_ (fun _ => hopen) ?_ (by simp), ?_, ?_, ?_, ?_⟩
  · intro i e₁ e₂ he₁ hw hsame hstart
    cases he₁
    by_contra hlater
    rw [hi.after i e₂ hw (Bool.not_eq_true _ ▸ hlater) _ hmem hsame] at hstart
    cases hstart
  · intro e₁ he₁
    cases he₁
    exact hentry
  · intro p hp
    exact hi.entries p (hwaiting p hp)
  · intro i e' hw
    obtain hw | ⟨-, he'⟩ := Observed.mem_write hw
    · exact hi.logged i e' hw
    · cases he'
      exact hlog
  · intro i e' hw hlater p hp hsame
    obtain hw | ⟨-, he'⟩ := Observed.mem_write hw
    · exact hi.after i e' hw hlater p (hwaiting p hp) hsame
    · cases he'
      exact hfirst hlater p (hwaiting p hp) hsame
  · intro i hw
    obtain hw | ⟨-, he'⟩ := Observed.mem_write hw
    · exact absurd hw (hopen i)
    · cases he'

/-- A task whose append fails waits no more. -/
theorem Observed.Queued.drop (hi : o.Queued l runId) (k : ℕ) (dropped : List NodeEvent) :
    ({ o with spawned := o.spawned.eraseIdx k, dropped := dropped } : Observed).Queued l runId := by
  have hwaiting : ∀ p ∈ o.spawned.eraseIdx k, p ∈ o.spawned := fun p => List.mem_of_mem_eraseIdx
  refine ⟨hi.ordered.kept rfl fun _ hr _ => hr, fun p hp => hi.entries p (hwaiting p hp), hi.logged,
    fun i e hw hlater p hp => hi.after i e hw hlater p (hwaiting p hp), ?_⟩
  intro i hw
  obtain ⟨hnone, hset⟩ := hi.closed i hw
  refine ⟨List.eq_nil_iff_forall_not_mem.mpr fun p hp => ?_, hset⟩
  have hp' := hwaiting p hp
  rw [hnone] at hp'
  cases hp'

theorem LifeStep.append_receiving {r r' : LiveRun} (h : LifeStep l r .append r') :
    r.watcher.receiving = false := by
  cases h with
  | append hw | streamAppend hw =>
    rw [hw]
    rfl

theorem Observed.Queued.step (hi : o.Queued l runId) (hsound : o.Sound l)
    (hlife : ReachesBy (LifeStep l) (StaysOn l) l.Started o.run) (hok : AppendsInOrder l o m)
    (h : ObservedStep l runId o m o') : o'.Queued l runId := by
  cases h with
  | work hw h _ => exact hi.work hsound hw h
  | @retry k a s t seen e rest stamp hw hk hpc hnext =>
    have hmem : e ∈ l.stepContext.stepRetries l.sys.lib a t.current seen := by
      rw [hnext]
      exact List.mem_append_right _ List.mem_cons_self
    have hretry := stepRetries_boundary hmem
    refine hi.onEvent (fun hstart => ?_) (hi.unwritten hsound hw (List.mem_of_getElem? hk))
    simp [NodeEvent.isStart, hretry] at hstart
  | aside h _ => exact hi.aside fun hset => h.settled hsound.worker hset
  | append hk _ =>
    refine hi.append hk ?_
    intro hlater q hq hsame
    have hall := hok
    simp only [AppendsInOrder, hk, Option.all_some, hlater, Bool.false_or, List.all_eq_true,
      Bool.or_eq_true, bne_iff_ne, Bool.not_eq_true'] at hall
    exact (hall q hq).resolve_left fun hne => hne hsame
  | @finish row now r' h hrow =>
    have hempty : o.spawned = [] := List.isEmpty_iff.mp hok
    have hset : o.run.worker.settled = true := by
      obtain ⟨-, hset | hwatched⟩ := settled_or_watched hlife
      · exact hset
      · cases hwatched.receiving.symm.trans h.append_receiving
    have hmoved : ({ o with run := r' } : Observed).Queued l runId :=
      hi.aside fun hset => h.settled hsound.worker hset
    refine ⟨hmoved.ordered.write (by simp) (by simp) (by simp) (fun _ => ⟨row, rfl⟩),
      hmoved.entries, ?_, ?_, fun _ _ => ⟨hempty, h.settled hsound.worker hset⟩⟩
    · intro i e' hw
      obtain hw | ⟨-, he'⟩ := Observed.mem_write hw
      · exact hi.logged i e' hw
      · cases he'
    · intro i e' _ _ p hp
      change p ∈ o.spawned at hp
      rw [hempty] at hp
      cases hp
  | finishSilent h _ => exact hi.aside fun hset => h.settled hsound.worker hset
  | drop => exact hi.drop _ _
  | others h =>
    exact ⟨hi.ordered.kept rfl fun _ hr hforever => h.keeps hr hforever, hi.entries, hi.logged,
      hi.after, hi.closed⟩

end Queue

/-- In every observed run whose append tasks run in order and whose watcher stays on, the sequence ids
of its entries are in order. -/
theorem node_ids_ordered (l : Launch) (runId : RunId) (o : Observed)
    (h : ReachesBy (ObservedStep l runId) (AppendsInOrder l) l.ObservedStart o) :
    NodesOrdered l runId o := by
  have hqueued : o.Queued l runId := by
    refine h.invariant ?_ ?_
    · rintro _ ⟨j, rfl⟩
      exact ⟨⟨by simp, by simp, by simp, by simp⟩, by simp, by simp, by simp, by simp⟩
    · intro o m o' hr hqueued hok hstep
      obtain ⟨hlife, hsound⟩ := observed_sound (fun _ _ => AppendsInOrder.staysOn) hr
      exact hqueued.step hsound hlife hok hstep
  exact hqueued.ordered

/-! ## Two orders -/

/-- The four events of two steps and the terminal entry, in order. -/
theorem pair_ids_ordered : ∃ o,
    ReachesBy (ObservedStep pairLaunch 7) (AppendsInOrder pairLaunch) pairLaunch.ObservedStart o ∧
      o.written.length = 5 ∧ NodesOrdered pairLaunch 7 o := by
  have hrun : (pairLaunch.observe 7 (AppendsInOrder pairLaunch) (pairMoves ++
      ([.append 0 0, .append 0 0, .append 0 0, .append 0 0, .finish 0] : List ObservedMove))).any
      (fun o => decide (o.written.length = 5)) = true := by
    decide +kernel
  obtain ⟨o, hobserve, ho⟩ := (Option.any_eq_true ..).mp hrun
  have hreach := Launch.observe_reaches hobserve
  exact ⟨o, hreach, of_decide_eq_true ho, node_ids_ordered pairLaunch 7 o hreach⟩

/-- The end of the first step is appended before its start, and the terminal entry before the start of
the second step. -/
theorem end_before_start : ∃ o, Reaches (ObservedStep pairLaunch 7) pairLaunch.ObservedStart o ∧
    (∃ w ∈ o.written, ∃ w' ∈ o.written, w.2.map NodeEvent.execution = w'.2.map NodeEvent.execution ∧
      w.2.any NodeEvent.isStart = true ∧ w'.2.isSome = true ∧ w'.2.any NodeEvent.isStart = false ∧
      w'.1 < w.1) ∧
    ∃ w ∈ o.written, ∃ w' ∈ o.written, w.2.isSome = true ∧ w'.2.isNone = true ∧ w'.1 < w.1 := by
  have hrun : (pairLaunch.observe 7 (fun _ _ => True) (pairMoves ++
      ([.append 1 0, .append 0 0, .finish 0, .append 0 0] : List ObservedMove))).any
      (fun o => decide ((∃ w ∈ o.written, ∃ w' ∈ o.written,
        w.2.map NodeEvent.execution = w'.2.map NodeEvent.execution ∧
        w.2.any NodeEvent.isStart = true ∧ w'.2.isSome = true ∧
        w'.2.any NodeEvent.isStart = false ∧ w'.1 < w.1) ∧
        ∃ w ∈ o.written, ∃ w' ∈ o.written,
          w.2.isSome = true ∧ w'.2.isNone = true ∧ w'.1 < w.1)) = true := by
    decide +kernel
  obtain ⟨o, hobserve, ho⟩ := (Option.any_eq_true ..).mp hrun
  exact ⟨o, Launch.observe_reaches hobserve, of_decide_eq_true ho⟩

end Konf.Runtime
