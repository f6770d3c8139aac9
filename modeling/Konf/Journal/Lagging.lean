import Konf.Journal.Filtered
import Konf.Journal.Subscribe
import Konf.Runtime.EventBus

/-! # Slow subscriptions

The subscription of `konf-runtime/src/journal/subscribe.rs` with all that can hold it up: the event bus
that it reads is bounded and shared, so that it can fall behind; the channel that it fills is bounded, so
that it waits for the reader; the journal can fail; and the reader can go away. Nothing of this, and no
order in which entries are announced, brings the rows out of order or repeats more than one of them. -/

namespace Konf.Journal
open Konf.Substrate Konf.Transition Konf.Broadcast Konf.EventBus
set_option autoImplicit false

/-! ## The task -/

/-- `sending` has the rows that are still to be sent. -/
inductive SubscriptionPc
  | querying
  | sending (rows : List JournalRow)
  | receiving
  | looking (sequence : ℕ)
  | stopped

/-- `sent` is everything that the channel has taken, of which `queued` rows wait for the reader. `replay`
and `live` only record what the query and the lookups have found. -/
structure Subscription where
  journal : RedbJournal
  unsent : List Announcement
  bus : RunEventBus
  receiver : ℕ
  pc : SubscriptionPc
  sent : List JournalRow
  queued : ℕ
  readerGone : Bool
  replay : List JournalRow
  live : List JournalRow

/-- What the task does with a reception. -/
def onReception (filter : JournalFilter) : Reception RunEvent → SubscriptionPc
  | .value (.journalAppended sequence eventType ns _) =>
    if preFilter filter ⟨sequence, eventType, ns⟩ then .looking sequence else .receiving
  | .value _ | .lagged _ => .receiving

/-- The entry that an event announces. -/
def sequenceOf : RunEvent → Option ℕ
  | .journalAppended sequence _ _ _ => some sequence
  | .runStarted .. | .nodeStart .. | .nodeEnd .. | .textDelta .. | .runCompleted .. | .runFailed ..
  | .runCancelled .. | .toolInvoked .. | .scheduleFired .. | .scheduleFailed .. | .intentReplayed .. =>
    none

/-- Only those who append announce entries. -/
def announces : Move RunEvent → Bool
  | .send e => (sequenceOf e).isSome
  | .subscribe | .recv _ | .drop _ | .close => false

inductive SubscriptionMove
  | append
  | announce
  | others (m : Move RunEvent)
  | query
  | queryFailed
  | send
  | sendFailed
  | sentAll
  | take
  | leave
  | recv
  | closed
  | lookup
  | lookupFailed

inductive SubscriptionStep (formatUuid : Uuid → String) (filter : JournalFilter)
    (replayLimit bufferSize : ℕ) (s : Subscription) : SubscriptionMove → Subscription → Prop
  -- nothing in the program sets an expiry
  | append (now : Time) (entry : JournalEntry) (hforever : entry.validTo = none) :
      SubscriptionStep formatUuid filter replayLimit bufferSize s .append
        { s with
          journal := (s.journal.append now entry).2
          unsent := s.unsent ++
            [⟨(s.journal.append now entry).1, entry.eventType, entry.namespace_⟩] }
  | announce (pre post : List Announcement) {a : Announcement} (runId : RunId) {bus : RunEventBus}
      (h : s.unsent = pre ++ a :: post)
      (hbus : s.bus.apply (.send (.journalAppended a.sequence a.eventType a.namespace_ runId)) =
        some bus) :
      SubscriptionStep formatUuid filter replayLimit bufferSize s .announce
        { s with unsent := pre ++ post, bus := bus }
  | others {m : Move RunEvent} {bus : RunEventBus} (hm : m.uses ≠ some s.receiver)
      (hquiet : announces m = false) (hbus : s.bus.apply m = some bus) :
      SubscriptionStep formatUuid filter replayLimit bufferSize s (.others m) { s with bus := bus }
  | query (now : Time) {rows : List JournalRow} (hpc : s.pc = .querying)
      (hquery : s.journal.query formatUuid now filter replayLimit = .ok rows) :
      SubscriptionStep formatUuid filter replayLimit bufferSize s .query
        { s with pc := .sending rows, replay := rows }
  -- a row that cannot be read back, or a failure of the database
  | queryFailed (hpc : s.pc = .querying) :
      SubscriptionStep formatUuid filter replayLimit bufferSize s .queryFailed
        { s with pc := .receiving }
  | send {row : JournalRow} {rows : List JournalRow} (hpc : s.pc = .sending (row :: rows))
      (hroom : s.queued < bufferSize) (hreader : s.readerGone = false) :
      SubscriptionStep formatUuid filter replayLimit bufferSize s .send
        { s with pc := .sending rows, sent := s.sent ++ [row], queued := s.queued + 1 }
  | sendFailed {row : JournalRow} {rows : List JournalRow} {bus : RunEventBus}
      (hpc : s.pc = .sending (row :: rows)) (hreader : s.readerGone = true)
      (hbus : s.bus.apply (.drop s.receiver) = some bus) :
      SubscriptionStep formatUuid filter replayLimit bufferSize s .sendFailed
        { s with pc := .stopped, bus := bus }
  | sentAll (hpc : s.pc = .sending []) :
      SubscriptionStep formatUuid filter replayLimit bufferSize s .sentAll { s with pc := .receiving }
  | take (hqueued : 0 < s.queued) (hreader : s.readerGone = false) :
      SubscriptionStep formatUuid filter replayLimit bufferSize s .take
        { s with queued := s.queued - 1 }
  | leave :
      SubscriptionStep formatUuid filter replayLimit bufferSize s .leave { s with readerGone := true }
  | recv {x : Reception RunEvent} {bus : RunEventBus} (hpc : s.pc = .receiving)
      (hbus : s.bus.recv s.receiver = some (x, bus)) :
      SubscriptionStep formatUuid filter replayLimit bufferSize s .recv
        { s with bus := bus, pc := onReception filter x }
  | closed {bus : RunEventBus} (hpc : s.pc = .receiving) (hclosed : s.bus.closed = true)
      (hempty : s.bus.recv s.receiver = none) (hbus : s.bus.apply (.drop s.receiver) = some bus) :
      SubscriptionStep formatUuid filter replayLimit bufferSize s .closed
        { s with pc := .stopped, bus := bus }
  | lookup (now : Time) {sequence : ℕ} (hpc : s.pc = .looking sequence) :
      SubscriptionStep formatUuid filter replayLimit bufferSize s .lookup
        { s with
          pc := .sending (lookUp formatUuid filter s.journal now sequence)
          live := s.live ++ lookUp formatUuid filter s.journal now sequence }
  | lookupFailed {sequence : ℕ} (hpc : s.pc = .looking sequence) :
      SubscriptionStep formatUuid filter replayLimit bufferSize s .lookupFailed
        { s with pc := .receiving }

/-- The state in which the task starts: it has subscribed, and nothing has been sent since. -/
structure Subscription.Started (s : Subscription) : Prop where
  pc : s.pc = .querying
  sent : s.sent = []
  replay : s.replay = []
  live : s.live = []
  forever : ∀ row ∈ s.journal.rows, row.validTo = none
  distinct : (s.unsent.map (·.sequence)).Nodup
  unsent : ∀ a ∈ s.unsent, ∃ row ∈ s.journal.rows, row.id = a.sequence
  receiver : ∃ capacity, s.bus.Owns capacity s.receiver ⟨[], []⟩

/-! ## The invariant -/

def SubscriptionPc.outgoing : SubscriptionPc → List JournalRow
  | .sending rows => rows
  | .querying | .receiving | .looking _ | .stopped => []

def SubscriptionPc.looked : SubscriptionPc → List ℕ
  | .looking sequence => [sequence]
  | .querying | .sending _ | .receiving | .stopped => []

/-- The entries whose announcement is on the way. -/
def Subscription.pending (s : Subscription) (unread : List RunEvent) : List ℕ :=
  s.unsent.map (·.sequence) ++ unread.filterMap sequenceOf ++ s.pc.looked

/-- What the task is about to do with the bus. -/
structure Subscription.Awaits (s : Subscription) (unread : List RunEvent) : Prop where
  distinct : (s.pending unread).Nodup
  known : ∀ id ∈ s.pending unread, ∃ row ∈ s.journal.rows, row.id = id
  fresh : ∀ row ∈ s.live, row.id ∉ s.pending unread
  receiver : ∃ capacity got, s.bus.Owns capacity s.receiver ⟨unread, got⟩

structure Subscription.Sound (formatUuid : Uuid → String) (filter : JournalFilter) (s : Subscription) :
    Prop where
  forever : ∀ row ∈ s.journal.rows, row.validTo = none
  found : ∀ row ∈ s.replay ++ s.live, row ∈ s.journal.rows ∧
    ∀ now, filter.matches formatUuid now row = true
  replay : s.replay.Pairwise fun newer older => older.id < newer.id
  live : s.live.Pairwise fun older newer => older.id < newer.id
  later : ∀ old ∈ s.replay, ∀ new ∈ s.live, old.id ≤ new.id
  querying : s.pc = .querying → s.replay = [] ∧ s.live = [] ∧ s.sent = []
  sent : s.sent <+: s.replay ++ s.live
  awaits : s.pc ≠ .stopped →
    s.sent ++ s.pc.outgoing = s.replay ++ s.live ∧ ∃ unread, s.Awaits unread

section Step
variable {formatUuid : Uuid → String} {filter : JournalFilter} {limit bufferSize : ℕ}
  {s s' : Subscription} {unread unread' : List RunEvent}

/-- Fewer announcements on the way, and nothing else. -/
theorem Subscription.Awaits.less (h : s.Awaits unread) (hjournal : s'.journal = s.journal)
    (hlive : s'.live = s.live) (hpending : (s'.pending unread').Subperm (s.pending unread))
    (hreceiver : ∃ capacity got, s'.bus.Owns capacity s'.receiver ⟨unread', got⟩) :
    s'.Awaits unread' where
  distinct := by
    obtain ⟨l, hperm, hsub⟩ := hpending
    exact hperm.nodup_iff.mp (h.distinct.sublist hsub)
  known id hid := hjournal ▸ h.known id (hpending.subset hid)
  fresh row hrow hid := h.fresh row (hlive ▸ hrow) (hpending.subset hid)
  receiver := hreceiver

/-- The journal and what was found stay as they are. -/
theorem Subscription.Sound.keep (h : s.Sound formatUuid filter) (hjournal : s'.journal = s.journal)
    (hreplay : s'.replay = s.replay) (hlive : s'.live = s.live)
    (hquerying : s'.pc = .querying → s.pc = .querying ∧ s'.sent = s.sent)
    (hsent : s'.sent <+: s.replay ++ s.live)
    (hawaits : s'.pc ≠ .stopped →
      s'.sent ++ s'.pc.outgoing = s.replay ++ s.live ∧ ∃ unread, s'.Awaits unread) :
    s'.Sound formatUuid filter where
  forever := hjournal ▸ h.forever
  found := by
    rw [hreplay, hlive, hjournal]
    exact h.found
  replay := hreplay ▸ h.replay
  live := hlive ▸ h.live
  later := by
    rw [hreplay, hlive]
    exact h.later
  querying hpc := by
    obtain ⟨hpc', hsame⟩ := hquerying hpc
    rw [hreplay, hlive, hsame]
    exact h.querying hpc'
  sent := by
    rw [hreplay, hlive]
    exact hsent
  awaits hpc := by
    rw [hreplay, hlive]
    exact hawaits hpc

theorem RedbJournal.row_le_newest {j : RedbJournal} {row newest : JournalRow} (hrow : row ∈ j.rows)
    (hnewest : j.rows.getLast? = some newest) : row.id ≤ newest.id := by
  obtain ⟨init, hinit⟩ := List.getLast?_eq_some_iff.mp hnewest
  have hsorted := j.rows_sorted
  rw [hinit, List.pairwise_append] at hsorted
  rw [hinit, List.mem_append, List.mem_singleton] at hrow
  obtain hold | rfl := hrow
  · exact (hsorted.2.2 row hold newest (List.mem_singleton_self _)).le
  · exact Nat.le_refl _

theorem Subscription.Sound.append (h : s.Sound formatUuid filter) (now : Time) {entry : JournalEntry}
    (hforever : entry.validTo = none) : Subscription.Sound formatUuid filter { s with
      journal := (s.journal.append now entry).2
      unsent := s.unsent ++
        [⟨(s.journal.append now entry).1, entry.eventType, entry.namespace_⟩] } := by
  have hrows := s.journal.rows_append now entry
  have hgrows : ∀ row ∈ s.journal.rows, row ∈ (s.journal.append now entry).2.rows := by
    intro row hrow
    rw [hrows]
    exact List.mem_append_left _ hrow
  refine ⟨?_, ?_, h.replay, h.live, h.later, h.querying, h.sent, ?_⟩
  · intro row hrow
    rw [hrows, List.mem_append, List.mem_singleton] at hrow
    obtain hrow | rfl := hrow
    · exact h.forever row hrow
    · simp [StoredEntry.row, StoredEntry.fromEntry, hforever]
  · intro row hrow
    obtain ⟨hmem, hmatches⟩ := h.found row hrow
    exact ⟨hgrows row hmem, hmatches⟩
  · intro hpc
    obtain ⟨hsent, unread, hawaits⟩ := h.awaits hpc
    refine ⟨hsent, unread, ?_⟩
    have hpending : ∀ id, id ∈ s.pending unread → id < s.journal.nextId := by
      intro id hid
      obtain ⟨row, hrow, rfl⟩ := hawaits.known id hid
      exact RedbJournal.row_lt_nextId hrow
    have hperm : (Subscription.pending { s with
        journal := (s.journal.append now entry).2
        unsent := s.unsent ++ [⟨(s.journal.append now entry).1, entry.eventType, entry.namespace_⟩] }
          unread).Perm (s.journal.nextId :: s.pending unread) := by
      simp only [Subscription.pending, List.map_append, List.append_assoc]
      exact List.perm_middle
    refine ⟨?_, ?_, ?_, hawaits.receiver⟩
    · rw [hperm.nodup_iff, List.nodup_cons]
      exact ⟨fun hid => (hpending _ hid).ne rfl, hawaits.distinct⟩
    · intro id hid
      obtain rfl | hid := List.mem_cons.mp (hperm.mem_iff.mp hid)
      · refine ⟨(StoredEntry.fromEntry now entry).row s.journal.nextId, ?_, rfl⟩
        rw [hrows]
        exact List.mem_append_right _ (List.mem_singleton_self _)
      · obtain ⟨row, hrow, hid⟩ := hawaits.known id hid
        exact ⟨row, hgrows row hrow, hid⟩
    · intro row hrow hid
      obtain hnew | hid := List.mem_cons.mp (hperm.mem_iff.mp hid)
      · have hmem := (h.found row (List.mem_append_right _ hrow)).1
        exact (RedbJournal.row_lt_nextId hmem).ne hnew
      · exact hawaits.fresh row hrow hid

theorem Subscription.Sound.query (h : s.Sound formatUuid filter) (now : Time)
    {rows : List JournalRow} (hpc : s.pc = .querying)
    (hquery : s.journal.query formatUuid now filter limit = .ok rows) :
    Subscription.Sound formatUuid filter { s with pc := .sending rows, replay := rows } := by
  obtain ⟨-, hlive, hsent⟩ := h.querying hpc
  have hrows : rows = (s.journal.rows.reverse.filter (filter.matches formatUuid now)).take limit :=
    ((RedbJournal.query_eq_ok_iff s.journal now formatUuid).mp hquery).2
  have hsub : rows.Sublist s.journal.rows.reverse := by
    rw [hrows]
    exact (List.take_sublist _ _).trans List.filter_sublist
  have hlast : rows.Pairwise fun newer older => older.id < newer.id := by
    apply List.Pairwise.sublist hsub
    rw [List.pairwise_reverse]
    exact s.journal.rows_sorted
  refine ⟨h.forever, ?_, hlast, h.live, ?_, fun heq => SubscriptionPc.noConfusion heq, ?_, ?_⟩
  · intro row hrow
    rw [hlive, List.append_nil] at hrow
    have hmem := List.mem_reverse.mp (hsub.subset hrow)
    refine ⟨hmem, fun now' => ?_⟩
    rw [hrows] at hrow
    rw [← matches_forever (h.forever row hmem)]
    exact (List.mem_filter.mp (List.mem_of_mem_take hrow)).2
  · rw [hlive]
    intro old _ new hnew
    cases hnew
  · rw [hsent]
    exact List.nil_prefix
  · intro _
    obtain ⟨-, unread, hawaits⟩ := h.awaits (by rw [hpc]; exact SubscriptionPc.noConfusion)
    refine ⟨?_, unread, hawaits.less rfl rfl ?_ hawaits.receiver⟩
    · rw [hsent, hlive, List.append_nil]
      rfl
    · rw [Subscription.pending, Subscription.pending, hpc]
      exact .refl _

theorem filterMap_sent {m : Move RunEvent} (hquiet : announces m = false) :
    m.sent.filterMap sequenceOf = [] := by
  cases m with
  | send e =>
    have hnone : sequenceOf e = none := by
      rw [announces, Option.isSome_eq_false_iff, Option.isNone_iff_eq_none] at hquiet
      exact hquiet
    simp [Move.sent, hnone]
  | subscribe | recv _ | drop _ | close => rfl

/-- What was received is on the way no more, unless it is looked up. -/
theorem reception_looked {x : Reception RunEvent} {values rest : List RunEvent} (hx : x.Covers values) :
    (rest.filterMap sequenceOf ++ (onReception filter x).looked).Subperm
      ((values ++ rest).filterMap sequenceOf) := by
  rw [List.filterMap_append]
  cases x with
  | lagged missed =>
    rw [onReception, SubscriptionPc.looked, List.append_nil]
    exact (List.sublist_append_right ..).subperm
  | value e =>
    have hvalues : values = [e] := hx
    subst hvalues
    have hlooked : ((onReception filter (.value e)).looked).Sublist ([e].filterMap sequenceOf) := by
      cases e with
      | journalAppended sequence eventType ns runId =>
        rw [onReception]
        split
        · exact .refl _
        · exact List.nil_sublist _
      | runStarted | nodeStart | nodeEnd | textDelta | runCompleted | runFailed | runCancelled
      | toolInvoked | scheduleFired | scheduleFailed | intentReplayed => exact List.nil_sublist _
    refine ⟨(onReception filter (.value e)).looked ++ rest.filterMap sequenceOf, List.perm_append_comm, ?_⟩
    exact hlooked.append (.refl _)

theorem onReception_outgoing (filter : JournalFilter) (x : Reception RunEvent) :
    (onReception filter x).outgoing = [] ∧ onReception filter x ≠ .querying := by
  cases x with
  | lagged missed => exact ⟨rfl, SubscriptionPc.noConfusion⟩
  | value e =>
    cases e with
    | journalAppended sequence eventType ns runId =>
      rw [onReception]
      split
      · exact ⟨rfl, SubscriptionPc.noConfusion⟩
      · exact ⟨rfl, SubscriptionPc.noConfusion⟩
    | runStarted | nodeStart | nodeEnd | textDelta | runCompleted | runFailed | runCancelled
    | toolInvoked | scheduleFired | scheduleFailed | intentReplayed =>
      exact ⟨rfl, SubscriptionPc.noConfusion⟩

theorem Subscription.Sound.recv (h : s.Sound formatUuid filter) {x : Reception RunEvent}
    {bus : RunEventBus} (hpc : s.pc = .receiving) (hbus : s.bus.recv s.receiver = some (x, bus)) :
    Subscription.Sound formatUuid filter { s with bus := bus, pc := onReception filter x } := by
  obtain ⟨houtgoing, hquerying⟩ := onReception_outgoing filter x
  refine h.keep rfl rfl rfl (fun heq => absurd heq hquerying) h.sent ?_
  intro _
  obtain ⟨hsent, unread, hawaits⟩ := h.awaits (by rw [hpc]; exact SubscriptionPc.noConfusion)
  obtain ⟨capacity, got, howns⟩ := hawaits.receiver
  obtain ⟨-, rest, hserve, howns'⟩ := howns.recv hbus
  obtain ⟨values, hcovers, hunread⟩ := serve_covers hserve
  refine ⟨?_, rest, hawaits.less rfl rfl ?_ ⟨capacity, _, howns'⟩⟩
  · rw [hpc] at hsent
    rw [houtgoing]
    exact hsent
  · have hunread' : unread = values ++ rest := hunread
    rw [Subscription.pending, Subscription.pending, hpc, hunread', SubscriptionPc.looked,
      List.append_nil, List.append_assoc]
    exact List.subperm_append_left _ |>.mpr (reception_looked hcovers)

/-- The one step that finds rows: the newest one, if it is the one that was announced. -/
theorem Subscription.Sound.lookup (h : s.Sound formatUuid filter) (now : Time) {sequence : ℕ}
    (hpc : s.pc = .looking sequence) : Subscription.Sound formatUuid filter { s with
      pc := .sending (lookUp formatUuid filter s.journal now sequence)
      live := s.live ++ lookUp formatUuid filter s.journal now sequence } := by
  obtain ⟨hsent, unread, hawaits⟩ := h.awaits (by rw [hpc]; exact SubscriptionPc.noConfusion)
  have hpending : s.pending unread =
      s.unsent.map (·.sequence) ++ unread.filterMap sequenceOf ++ [sequence] := by
    rw [Subscription.pending, hpc]
    rfl
  have hnewest : ∀ row ∈ lookUp formatUuid filter s.journal now sequence,
      row ∈ s.journal.rows ∧ (∀ now, filter.matches formatUuid now row = true) ∧ row.id = sequence ∧
        ∀ old ∈ s.journal.rows, old.id ≤ row.id := by
    intro row hrow
    obtain ⟨⟨hlast, -⟩, hid, hmatches⟩ := mem_lookUp hrow
    have hmem := List.mem_of_getLast? hlast
    refine ⟨hmem, fun now' => ?_, hid, fun old hold => RedbJournal.row_le_newest hold hlast⟩
    rw [← matches_forever (h.forever row hmem)]
    exact hmatches
  have hone : (lookUp formatUuid filter s.journal now sequence).Pairwise fun older newer =>
      older.id < newer.id := by
    apply List.Pairwise.sublist (lookUp_sublist sequence)
    cases s.journal.rows.getLast? with
    | none => exact .nil
    | some last => exact List.pairwise_singleton _ _
  refine ⟨h.forever, ?_, h.replay, ?_, ?_, fun heq => SubscriptionPc.noConfusion heq, ?_, ?_⟩
  · intro row hrow
    rw [← List.append_assoc, List.mem_append] at hrow
    obtain hrow | hrow := hrow
    · exact h.found row hrow
    · exact ⟨(hnewest row hrow).1, (hnewest row hrow).2.1⟩
  · rw [List.pairwise_append]
    refine ⟨h.live, hone, ?_⟩
    intro old hold new hnew
    obtain ⟨-, -, hid, hle⟩ := hnewest new hnew
    have hmem := (h.found old (List.mem_append_right _ hold)).1
    refine Nat.lt_of_le_of_ne (hle old hmem) ?_
    intro heq
    apply hawaits.fresh old hold
    rw [hpending, heq, hid]
    exact List.mem_append_right _ (List.mem_singleton_self _)
  · intro old hold new hnew
    obtain hnew | hnew := List.mem_append.mp hnew
    · exact h.later old hold new hnew
    · exact (hnewest new hnew).2.2.2 old (h.found old (List.mem_append_left _ hold)).1
  · rw [← List.append_assoc]
    exact h.sent.trans (List.prefix_append _ _)
  · intro _
    rw [hpc, SubscriptionPc.outgoing, List.append_nil] at hsent
    refine ⟨?_, unread, ?_, ?_, ?_, hawaits.receiver⟩
    · rw [hsent, List.append_assoc]
      rfl
    · have hdistinct := hawaits.distinct
      rw [hpending] at hdistinct
      rw [Subscription.pending, SubscriptionPc.looked, List.append_nil]
      exact hdistinct.sublist (List.sublist_append_left _ _)
    · intro id hid
      apply hawaits.known id
      rw [hpending]
      rw [Subscription.pending, SubscriptionPc.looked, List.append_nil] at hid
      exact List.mem_append_left _ hid
    · intro row hrow hid
      rw [Subscription.pending, SubscriptionPc.looked, List.append_nil] at hid
      obtain hrow | hrow := List.mem_append.mp hrow
      · apply hawaits.fresh row hrow
        rw [hpending]
        exact List.mem_append_left _ hid
      · have hdistinct := hawaits.distinct
        rw [hpending, List.nodup_append] at hdistinct
        have hne := hdistinct.2.2 row.id hid sequence (List.mem_singleton_self _)
        exact hne (hnewest row hrow).2.2.1

theorem Subscription.Sound.announce (h : s.Sound formatUuid filter) {pre post : List Announcement}
    {a : Announcement} {runId : RunId} {bus : RunEventBus} (hunsent : s.unsent = pre ++ a :: post)
    (hbus : s.bus.apply (.send (.journalAppended a.sequence a.eventType a.namespace_ runId)) =
      some bus) : Subscription.Sound formatUuid filter { s with unsent := pre ++ post, bus := bus } := by
  refine h.keep rfl rfl rfl (fun heq => ⟨heq, rfl⟩) h.sent ?_
  intro hpc
  obtain ⟨hsent, unread, hawaits⟩ := h.awaits hpc
  obtain ⟨capacity, got, howns⟩ := hawaits.receiver
  have howns' := howns.others (by simp [Move.uses]) hbus
  refine ⟨hsent, _, hawaits.less rfl rfl ?_ ⟨capacity, got, howns'⟩⟩
  have hperm : (Subscription.pending { s with unsent := pre ++ post, bus := bus } (unread ++
      (Move.send (RunEvent.journalAppended a.sequence a.eventType a.namespace_ runId)).sent)).Perm
        (s.pending unread) := by
    simp only [Subscription.pending, hunsent, Move.sent, List.filterMap_append, List.map_append,
      List.map_cons, List.append_assoc, sequenceOf, List.filterMap_cons, List.filterMap_nil]
    apply List.Perm.append_left
    simp only [List.cons_append, List.nil_append]
    rw [← List.append_assoc, ← List.append_assoc]
    exact List.perm_middle
  exact hperm.subperm

theorem Subscription.Sound.others (h : s.Sound formatUuid filter) {m : Move RunEvent}
    {bus : RunEventBus} (hm : m.uses ≠ some s.receiver) (hquiet : announces m = false)
    (hbus : s.bus.apply m = some bus) :
    Subscription.Sound formatUuid filter { s with bus := bus } := by
  refine h.keep rfl rfl rfl (fun heq => ⟨heq, rfl⟩) h.sent ?_
  intro hpc
  obtain ⟨hsent, unread, hawaits⟩ := h.awaits hpc
  obtain ⟨capacity, got, howns⟩ := hawaits.receiver
  refine ⟨hsent, _, hawaits.less rfl rfl ?_ ⟨capacity, got, howns.others hm hbus⟩⟩
  rw [Subscription.pending, Subscription.pending, List.filterMap_append, filterMap_sent hquiet,
    List.append_nil]

/-- A step of the task that leaves the bus, and finds nothing. -/
theorem Subscription.Sound.resume (h : s.Sound formatUuid filter) {pc : SubscriptionPc}
    {sent : List JournalRow} {queued : ℕ} (hrunning : s.pc ≠ .stopped) (hquerying : pc ≠ .querying)
    (hlooked : pc.looked = []) (hsent : sent ++ pc.outgoing = s.sent ++ s.pc.outgoing) :
    Subscription.Sound formatUuid filter { s with pc := pc, sent := sent, queued := queued } := by
  obtain ⟨hall, unread, hawaits⟩ := h.awaits hrunning
  have hmore : sent ++ pc.outgoing = s.replay ++ s.live := hsent.trans hall
  refine h.keep rfl rfl rfl (fun heq => absurd heq hquerying) ⟨pc.outgoing, hmore⟩ ?_
  intro _
  refine ⟨hmore, unread, hawaits.less rfl rfl ?_ hawaits.receiver⟩
  rw [Subscription.pending, Subscription.pending, hlooked, List.append_nil]
  exact (List.sublist_append_left _ _).subperm

/-- The step lemma. -/
theorem Subscription.Sound.step {m : SubscriptionMove} (h : s.Sound formatUuid filter)
    (hs : SubscriptionStep formatUuid filter limit bufferSize s m s') : s'.Sound formatUuid filter := by
  cases hs with
  | append now entry hforever => exact h.append now hforever
  | announce pre post runId hunsent hbus => exact h.announce hunsent hbus
  | others hm hquiet hbus => exact h.others hm hquiet hbus
  | query now hpc hquery => exact h.query now hpc hquery
  | recv hpc hbus => exact h.recv hpc hbus
  | lookup now hpc => exact h.lookup now hpc
  | queryFailed hpc =>
    refine h.resume ?_ SubscriptionPc.noConfusion rfl ?_
    · rw [hpc]
      exact SubscriptionPc.noConfusion
    · rw [hpc]
      rfl
  | @send row rows hpc _ _ =>
    refine h.resume ?_ SubscriptionPc.noConfusion rfl ?_
    · rw [hpc]
      exact SubscriptionPc.noConfusion
    · rw [hpc, SubscriptionPc.outgoing, SubscriptionPc.outgoing, List.append_assoc]
      rfl
  | sentAll hpc =>
    refine h.resume ?_ SubscriptionPc.noConfusion rfl ?_
    · rw [hpc]
      exact SubscriptionPc.noConfusion
    · rw [hpc]
      rfl
  | lookupFailed hpc =>
    refine h.resume ?_ SubscriptionPc.noConfusion rfl ?_
    · rw [hpc]
      exact SubscriptionPc.noConfusion
    · rw [hpc]
      rfl
  | sendFailed | closed =>
    exact h.keep rfl rfl rfl (fun heq => SubscriptionPc.noConfusion heq) h.sent (absurd rfl)
  | take | leave =>
    refine h.keep rfl rfl rfl (fun heq => ⟨heq, rfl⟩) h.sent ?_
    intro hpc
    obtain ⟨hsent, unread, hawaits⟩ := h.awaits hpc
    exact ⟨hsent, unread, hawaits.less rfl rfl (.refl _) hawaits.receiver⟩

theorem Subscription.Started.sound (h : s.Started) : s.Sound formatUuid filter := by
  have hpending : s.pending [] = s.unsent.map (·.sequence) := by
    rw [Subscription.pending, h.pc, SubscriptionPc.looked, List.append_nil, List.filterMap_nil,
      List.append_nil]
  refine ⟨h.forever, ?_, ?_, ?_, ?_, fun _ => ⟨h.replay, h.live, h.sent⟩, ?_, ?_⟩
  · rw [h.replay, h.live]
    intro row hrow
    cases hrow
  · rw [h.replay]
    exact .nil
  · rw [h.live]
    exact .nil
  · rw [h.replay]
    intro old hold
    cases hold
  · rw [h.sent]
    exact List.nil_prefix
  · intro _
    refine ⟨?_, [], ?_, ?_, ?_, ?_⟩
    · rw [h.sent, h.replay, h.live, h.pc]
      rfl
    · rw [hpending]
      exact h.distinct
    · intro id hid
      rw [hpending] at hid
      obtain ⟨a, ha, rfl⟩ := List.mem_map.mp hid
      exact h.unsent a ha
    · rw [h.live]
      intro row hrow
      cases hrow
    · obtain ⟨capacity, howns⟩ := h.receiver
      exact ⟨capacity, [], howns⟩

end Step

/-! ## In order, and at most twice -/

/-- A descending list before an ascending one that starts no earlier than it. -/
theorem count_turning {down up : List ℕ} (hdown : down.Pairwise fun a b => b < a)
    (hup : up.Pairwise fun a b => a < b) (hturn : ∀ a ∈ down, ∀ b ∈ up, a ≤ b) (id : ℕ) :
    (down ++ up).count id ≤ 2 ∧
      ((down ++ up).count id = 2 → down.head? = some id ∧ up.head? = some id) := by
  have hone : down.count id ≤ 1 :=
    List.nodup_iff_count_le_one.mp (hdown.imp fun h => h.ne') id
  have hone' : up.count id ≤ 1 := List.nodup_iff_count_le_one.mp (hup.imp fun h => h.ne) id
  rw [List.count_append]
  refine ⟨by omega, ?_⟩
  intro htwo
  have hmem : id ∈ down := List.count_pos_iff.mp (by omega)
  have hmem' : id ∈ up := List.count_pos_iff.mp (by omega)
  constructor
  · cases down with
    | nil => cases hmem
    | cons a down =>
      obtain rfl | hrest := List.mem_cons.mp hmem
      · rfl
      · have hlt := List.rel_of_pairwise_cons hdown hrest
        have hle := hturn a List.mem_cons_self id hmem'
        omega
  · cases up with
    | nil => cases hmem'
    | cons b up =>
      obtain rfl | hrest := List.mem_cons.mp hmem'
      · rfl
      · have hlt := List.rel_of_pairwise_cons hup hrest
        have hle := hturn id hmem b List.mem_cons_self
        omega

/-- However far a subscription falls behind: its reader gets the rows of the replay, newest first, and
then rows of the journal that match, in the order of the journal and none before the replay; only the row
that was the newest of the replay can come again, as the first one. -/
theorem subscription_in_order (formatUuid : Uuid → String) (filter : JournalFilter)
    (replayLimit bufferSize : ℕ) {s : Subscription}
    (h : Reaches (SubscriptionStep formatUuid filter replayLimit bufferSize) Subscription.Started s) :
    ∃ replay live, s.sent = replay ++ live ∧
      (replay.Pairwise fun newer older => older.id < newer.id) ∧
      (live.Pairwise fun older newer => older.id < newer.id) ∧
      (∀ old ∈ replay, ∀ new ∈ live, old.id ≤ new.id) ∧
      (∀ row ∈ s.sent, row ∈ s.journal.rows ∧ ∀ now, filter.matches formatUuid now row = true) ∧
      ∀ id, (s.sent.map (·.id)).count id ≤ 2 ∧ ((s.sent.map (·.id)).count id = 2 →
        replay.head?.map (·.id) = some id ∧ live.head?.map (·.id) = some id) := by
  have hsound : s.Sound formatUuid filter :=
    Reaches.invariant (fun s hs => hs.sound) (fun s m s' _ hi hs => hi.step hs) h
  have hreplay := hsound.replay
  have hlive := hsound.live
  have hlater := hsound.later
  have hsent : s.sent = s.replay.take s.sent.length ++
      s.live.take (s.sent.length - s.replay.length) := by
    rw [← List.take_append]
    exact List.prefix_iff_eq_take.mp hsound.sent
  refine ⟨_, _, hsent, hreplay.sublist (List.take_sublist ..), hlive.sublist (List.take_sublist ..),
    ?_, ?_, ?_⟩
  · intro old hold new hnew
    exact hlater old (List.mem_of_mem_take hold) new (List.mem_of_mem_take hnew)
  · intro row hrow
    exact hsound.found row (hsound.sent.subset hrow)
  · intro id
    rw [← List.head?_map, ← List.head?_map]
    nth_rewrite 1 2 [hsent]
    rw [List.map_append]
    apply count_turning
    · rw [List.pairwise_map]
      exact hreplay.sublist (List.take_sublist ..)
    · rw [List.pairwise_map]
      exact hlive.sublist (List.take_sublist ..)
    · intro a ha b hb
      obtain ⟨old, hold, rfl⟩ := List.mem_map.mp ha
      obtain ⟨new, hnew, rfl⟩ := List.mem_map.mp hb
      exact hlater old (List.mem_of_mem_take hold) new (List.mem_of_mem_take hnew)

def newSubscription : Subscription :=
  ⟨.open_, [], (Channel.new 2).subscribe, 0, .querying, [], 0, false, [], []⟩

theorem newSubscription_started : newSubscription.Started := by
  refine ⟨rfl, rfl, rfl, rfl, ?_, List.nodup_nil, ?_, 2, Channel.Owns.subscribe (.new 2)⟩
  · simp [newSubscription, RedbJournal.rows, RedbJournal.open_, Table.empty]
  · simp [newSubscription]

/-- An entry that is appended and announced before the query runs. -/
theorem subscription_in_order_overlap : ∃ s : Subscription, s.sent.map (·.id) = [1, 1] ∧
    ∃ replay live, s.sent = replay ++ live ∧
      (replay.Pairwise fun newer older => older.id < newer.id) ∧
      (live.Pairwise fun older newer => older.id < newer.id) ∧
      (∀ old ∈ replay, ∀ new ∈ live, old.id ≤ new.id) ∧
      (∀ row ∈ s.sent, row ∈ s.journal.rows ∧
        ∀ now, ({} : JournalFilter).matches toString now row = true) ∧
      ∀ id, (s.sent.map (·.id)).count id ≤ 2 ∧ ((s.sent.map (·.id)).count id = 2 →
        replay.head?.map (·.id) = some id ∧ live.head?.map (·.id) = some id) := by
  have hstart : Reaches (SubscriptionStep toString {} 10 4) Subscription.Started newSubscription :=
    .start newSubscription_started
  have happended := hstart.tail trivial (.append 0 (runEvent 7 "workflow_started") rfl)
  have hannounced := happended.tail trivial (.announce [] [] 7 rfl rfl)
  have hqueried := hannounced.tail trivial (.query 1 rfl rfl)
  have hreplayed := (hqueried.tail trivial (.send rfl (by decide) rfl)).tail trivial (.sentAll rfl)
  have hreceived := hreplayed.tail trivial (.recv rfl rfl)
  have hlooked := hreceived.tail trivial (.lookup 2 rfl)
  have hsent := hlooked.tail trivial (.send rfl (by decide) rfl)
  exact ⟨_, by decide +kernel, subscription_in_order _ _ _ _ hsent⟩

end Konf.Journal
