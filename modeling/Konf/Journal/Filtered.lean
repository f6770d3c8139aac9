import Konf.Journal.Queries

/-! # Filtered reads

What a filter selects from the log, stated field by field, and the readers that apply it: `query` and
`aggregate` answer for exactly the rows selected, while `recent` cuts before it selects. -/

namespace Konf.Journal
open Konf.Substrate
set_option autoImplicit false

/-! ## What a filter selects -/

/-- The trace id that the payload of a row carries as text. -/
def JournalRow.traceId (row : JournalRow) : Option String :=
  (row.payload.get "trace_id").bind Json.asStr

/-- Every field that is set in the filter holds of the row. `untraced` says whether a row without a
trace id passes a filter that asks for one. -/
structure JournalFilter.Selects (formatUuid : Uuid → String) (untraced : Prop)
    (filter : JournalFilter) (now : Time) (row : JournalRow) : Prop where
  namespace_ : ∀ ns, filter.namespace_ = some ns → row.namespace_ = ns
  eventType : ∀ et, filter.eventType = some et → row.eventType = et
  runId : ∀ rid, filter.runId = some rid → row.runId = some rid
  sessionId : ∀ sid, filter.sessionId = some sid → row.sessionId = sid
  traceId : ∀ tid, filter.traceId = some tid →
    row.traceId = some (formatUuid tid) ∨ untraced ∧ row.traceId = none
  visible : filter.includeExpired = true ∨ isExpired now row = false

/-- The reads of a filter answer for the rows that satisfy `selects`, newest first. -/
def RedbJournal.AnswersFor (formatUuid : Uuid → String) (j : RedbJournal) (now : Time)
    (filter : JournalFilter) (selects : JournalRow → Prop) : Prop :=
  ∃ chosen : List JournalRow, chosen.Pairwise (fun newer older => older.id < newer.id) ∧
    (∀ row, row ∈ chosen ↔ row ∈ j.rows ∧ selects row) ∧
    (∀ limit, j.query formatUuid now filter limit = .ok (chosen.take limit)) ∧
    j.aggregate formatUuid now filter .count = .ok (.count chosen.length) ∧
    j.aggregate formatUuid now filter .mostRecent =
      .ok (.mostRecent (chosen.map JournalRow.createdAt).max?)

section Matches
variable {formatUuid : Uuid → String} {now : Time} {filter : JournalFilter} {row : JournalRow}

theorem all_beq_iff {α : Type} [DecidableEq α] (field : Option α) (value : α) :
    field.all (value == ·) = true ↔ ∀ x, field = some x → value = x := by
  cases field with
  | none => simp
  | some x => simp

theorem traceMatches_iff {tid : Uuid} :
    traceMatches formatUuid row.payload tid = true ↔
      row.traceId = some (formatUuid tid) ∨ row.traceId = none := by
  unfold traceMatches JournalRow.traceId
  cases (row.payload.get "trace_id").bind Json.asStr with
  | none => simp
  | some text => simp

theorem JournalFilter.matches_iff :
    filter.matches formatUuid now row = true ↔ filter.Selects formatUuid True now row := by
  have hrun : (filter.runId.all fun rid => row.runId == some rid) = true ↔
      ∀ rid, filter.runId = some rid → row.runId = some rid := by
    cases filter.runId with
    | none => simp
    | some rid => simp
  have htrace : filter.traceId.all (traceMatches formatUuid row.payload) = true ↔
      ∀ tid, filter.traceId = some tid →
        row.traceId = some (formatUuid tid) ∨ True ∧ row.traceId = none := by
    cases filter.traceId with
    | none => simp
    | some tid => simp [traceMatches_iff]
  unfold JournalFilter.matches
  simp only [Bool.and_eq_true, Bool.or_eq_true, all_beq_iff, hrun, htrace, validTo_all_eq,
    Bool.not_eq_true']
  constructor
  · intro h
    obtain ⟨⟨⟨⟨⟨hns, het⟩, hrid⟩, hsid⟩, htid⟩, hvisible⟩ := h
    exact ⟨hns, het, hrid, hsid, htid, hvisible⟩
  · intro h
    exact ⟨⟨⟨⟨⟨h.namespace_, h.eventType⟩, h.runId⟩, h.sessionId⟩, h.traceId⟩, h.visible⟩

end Matches

/-! ## The loop of `aggregate` -/

theorem RedbJournal.foldl_tally_some (rows : List JournalRow) (n : ℕ) (latest : Time) :
    rows.foldl RedbJournal.tally (n, some latest) =
      (n + rows.length, some ((rows.map JournalRow.createdAt).foldl max latest)) := by
  induction rows generalizing n latest with
  | nil => rfl
  | cons row rest ih =>
    have hstep : RedbJournal.tally (n, some latest) row =
        (n + 1, some (max latest row.createdAt)) := by
      simp only [RedbJournal.tally]
      split_ifs with hlt
      · rw [max_eq_right hlt.le]
      · rw [max_eq_left (not_lt.mp hlt)]
    rw [List.foldl_cons, hstep, ih, List.map_cons, List.foldl_cons, List.length_cons]
    congr 1
    omega

theorem RedbJournal.foldl_tally (rows : List JournalRow) :
    rows.foldl RedbJournal.tally (0, none) =
      (rows.length, (rows.map JournalRow.createdAt).max?) := by
  cases rows with
  | nil => rfl
  | cons row rest =>
    rw [List.foldl_cons, RedbJournal.tally, RedbJournal.foldl_tally_some, List.map_cons,
      List.max?_cons', List.length_cons]
    congr 1
    omega

theorem max?_reverse (ts : List Time) : ts.reverse.max? = ts.max? := by
  apply Option.ext
  intro t
  simp only [List.max?_eq_some_iff, List.mem_reverse]

theorem RedbJournal.rows_sorted (j : RedbJournal) : j.rows.Pairwise fun a b => a.id < b.id := by
  unfold RedbJournal.rows
  rw [List.pairwise_map]
  exact j.events.sorted

/-- When every payload of the log can be read back, the reads of a filter answer for the rows in which
every field set in it holds, where a row without a trace id passes the trace check. An aggregate reads
every row, so otherwise it has no answer. -/
theorem filtered_reads_answer_iff (formatUuid : Uuid → String) (j : RedbJournal) (now : Time)
    (filter : JournalFilter) :
    j.AnswersFor formatUuid now filter (filter.Selects formatUuid True now) ↔ j.Readable := by
  constructor
  · rintro ⟨chosen, -, -, -, hcount, -⟩
    rw [RedbJournal.aggregate_count] at hcount
    cases htallied : j.tallied now formatUuid filter with
    | error e =>
      rw [htallied] at hcount
      cases hcount
    | ok total => exact RedbJournal.readable_of_tallied j now formatUuid htallied
  · intro h
    refine ⟨(j.rows.filter (filter.matches formatUuid now)).reverse, ?_, ?_, ?_, ?_, ?_⟩
    · rw [List.pairwise_reverse]
      exact j.rows_sorted.filter _
    · intro row
      rw [List.mem_reverse, List.mem_filter, JournalFilter.matches_iff]
    · intro limit
      rw [h.query, List.filter_reverse]
    · rw [RedbJournal.aggregate_count, h.tallied, RedbJournal.foldl_tally, List.length_reverse]
      rfl
    · rw [RedbJournal.aggregate_mostRecent, h.tallied, RedbJournal.foldl_tally, List.map_reverse,
        max?_reverse]
      rfl

/-- One entry whose payload has no trace id. -/
def untracedJournal : RedbJournal :=
  RedbJournal.open_.after [.append 0 (runEvent 7 "workflow_started")]

/-- A filter by trace finds an entry that belongs to no trace. -/
theorem trace_filter_finds_untraced :
    untracedJournal.Reachable ∧
    ¬ untracedJournal.AnswersFor toString 0 { traceId := some 3 }
      (JournalFilter.Selects toString False { traceId := some 3 } 0) := by
  refine ⟨RedbJournal.Reachable.after (Transition.ReachesBy.start rfl) _, ?_⟩
  intro h
  obtain ⟨chosen, -, hmem, hquery, -⟩ := h
  have hread : untracedJournal.Readable := by decide +kernel
  have hmatched : untracedJournal.rows.reverse.filter
      (JournalFilter.matches toString { traceId := some 3 } 0) = untracedJournal.rows := by
    decide +kernel
  have hfound := (hquery 1).symm.trans (hread.query untracedJournal 0 toString _ 1)
  rw [hmatched, Except.ok.injEq] at hfound
  have hrow : ∃ row ∈ untracedJournal.rows.take 1, row.traceId = none := by decide +kernel
  obtain ⟨row, hrow, huntraced⟩ := hrow
  rw [← hfound] at hrow
  have hselected := ((hmem row).mp (List.mem_of_mem_take hrow)).2
  obtain htraced | ⟨hfalse, -⟩ := hselected.traceId 3 rfl
  · rw [huntraced] at htraced
    cases htraced
  · exact hfalse

/-! ## Cutting before selecting -/

/-- Cutting a list and then filtering it is filtering and then cutting only when the cut keeps
nothing to drop, or leaves nothing to keep. -/
theorem filter_take_eq_take_filter_iff {α : Type} (p : α → Bool) (l : List α) (n : ℕ) :
    (l.take n).filter p = (l.filter p).take n ↔
      (∀ x ∈ l.take n, p x = true) ∨ ∀ x ∈ l.drop n, p x = false := by
  have hsplit : (l.filter p).take n = (l.take n).filter p ++
      ((l.drop n).filter p).take (n - ((l.take n).filter p).length) := by
    have hle : ((l.take n).filter p).length ≤ n :=
      (List.length_filter_le _ _).trans (List.length_take_le _ _)
    conv_lhs => rw [← List.take_append_drop n l, List.filter_append, List.take_append,
      List.take_of_length_le hle]
  rw [hsplit, List.self_eq_append_right, List.take_eq_nil_iff]
  constructor
  · intro h
    obtain hfull | hnone := h
    · left
      have hlen : ((l.take n).filter p).length = (l.take n).length := by
        have hfilter := List.length_filter_le p (l.take n)
        have htake := List.length_take_le n l
        omega
      exact List.length_filter_eq_length_iff.mp hlen
    · right
      intro x hx
      simpa using List.filter_eq_nil_iff.mp hnone x hx
  · intro h
    obtain hall | hnone := h
    · rw [List.filter_eq_self.mpr hall]
      by_cases hlen : n ≤ l.length
      · left
        rw [List.length_take_of_le hlen, Nat.sub_self]
      · right
        rw [List.drop_of_length_le (by omega), List.filter_nil]
    · right
      rw [List.filter_eq_nil_iff]
      intro x hx
      simp [hnone x hx]

section Cut
variable {α : Type} {p : α → Bool} {good : α → Prop} {l : List α} {n : ℕ}

/-- When the cut keeps nothing to drop, what follows it comes after enough finds. -/
theorem enough_before (hgood : ∀ x ∈ l.take n, good x) (hall : ∀ x ∈ l.take n, p x = true)
    {before : List α} {x : α} {after : List α} (heq : l = before ++ x :: after) (hbad : ¬good x) :
    n ≤ (before.filter p).length := by
  have hlen : n ≤ before.length := by
    by_contra hshort
    refine hbad (hgood x ?_)
    rw [heq, List.take_append, List.take_of_length_le (by omega),
      show n - before.length = n - before.length - 1 + 1 by omega, List.take_succ_cons]
    simp
  have htake : l.take n = before.take n := by
    rw [heq, List.take_append_of_le_length hlen]
  rw [htake] at hall
  calc n = ((before.take n).filter p).length := by
        rw [List.filter_eq_self.mpr hall, List.length_take_of_le hlen]
    _ ≤ (before.filter p).length := ((List.take_sublist n before).filter p).length_le

/-- When the cut has something to drop and leaves nothing to keep, nothing that follows it comes after
enough finds. -/
theorem good_after (hsome : ¬∀ x ∈ l.take n, p x = true) (hnone : ∀ x ∈ l.drop n, p x = false)
    (h : ∀ before x after, l = before ++ x :: after → ¬good x → n ≤ (before.filter p).length) :
    ∀ x ∈ l.drop n, good x := by
  intro x hx
  by_contra hbad
  obtain ⟨before, after, heq⟩ := List.append_of_mem hx
  have hsplit : l = (l.take n ++ before) ++ x :: after := by
    rw [List.append_assoc, ← heq, List.take_append_drop]
  have hfound := h _ x after hsplit hbad
  have hbefore : before.filter p = [] := by
    rw [List.filter_eq_nil_iff]
    intro y hy
    rw [hnone y (heq ▸ List.mem_append_left _ hy)]
    exact Bool.false_ne_true
  rw [List.filter_append, hbefore, List.append_nil] at hfound
  have hfilter := List.length_filter_le p (l.take n)
  have htake := List.length_take_le n l
  exact hsome (List.length_filter_eq_length_iff.mp (by omega))

/-- Whether a cut before the selection and a scan that stops at what it cannot read agree. -/
theorem cut_and_scan_iff (hgood : ∀ x ∈ l.take n, good x) :
    (((∀ x ∈ l.take n, p x = true) ∨ ∀ x ∈ l.drop n, p x = false) ∧
      ∀ before x after, l = before ++ x :: after → ¬good x → n ≤ (before.filter p).length) ↔
    (∀ x ∈ l.take n, p x = true) ∨ ∀ x ∈ l.drop n, p x = false ∧ good x := by
  by_cases hall : ∀ x ∈ l.take n, p x = true
  · refine iff_of_true ⟨.inl hall, ?_⟩ (.inl hall)
    intro before x after heq hbad
    exact enough_before hgood hall heq hbad
  · constructor
    · rintro ⟨hcut, hscan⟩
      have hnone := hcut.resolve_left hall
      exact .inr fun x hx => ⟨hnone x hx, good_after hall hnone hscan x hx⟩
    · intro h
      have hrest := h.resolve_left hall
      refine ⟨.inr fun x hx => (hrest x hx).1, ?_⟩
      intro before x after heq hbad
      have hx : x ∈ l.take n ∨ x ∈ l.drop n := by
        rw [← List.mem_append, List.take_append_drop, heq]
        simp
      obtain hx | hx := hx
      · exact absurd (hgood x hx) hbad
      · exact absurd (hrest x hx).2 hbad

end Cut

theorem matches_empty (formatUuid : Uuid → String) (now : Time) (row : JournalRow) :
    ({} : JournalFilter).matches formatUuid now row = !isExpired now row := by
  simp [JournalFilter.matches, validTo_all_eq]

/-- `recent` returns the newest unexpired rows, as `query` does, exactly when the newest rows can be read
back, and either none of them has expired or every older row has and can be read back. -/
theorem recent_eq_query_iff (formatUuid : Uuid → String) (j : RedbJournal) (now : Time)
    (limit : ℕ) :
    (j.recent now limit = .ok ((j.rows.reverse.filter fun row => !isExpired now row).take limit) ∧
      j.recent now limit = j.query formatUuid now {} limit) ↔
    (∀ row ∈ j.rows.reverse.take limit, row.payload.Readable) ∧
      ((∀ row ∈ j.rows.reverse.take limit, isExpired now row = false) ∨
        ∀ row ∈ j.rows.reverse.drop limit, isExpired now row = true ∧ row.payload.Readable) := by
  have hempty : (JournalFilter.matches formatUuid {} now) = fun row => !isExpired now row :=
    funext fun row => matches_empty formatUuid now row
  have hsame : (j.recent now limit =
        .ok ((j.rows.reverse.filter fun row => !isExpired now row).take limit) ∧
      j.recent now limit = j.query formatUuid now {} limit) ↔
      j.recent now limit =
        .ok ((j.rows.reverse.filter fun row => !isExpired now row).take limit) ∧
      j.query formatUuid now {} limit =
        .ok ((j.rows.reverse.filter fun row => !isExpired now row).take limit) :=
    and_congr_right fun hrecent => by rw [hrecent, eq_comm]
  rw [hsame, RedbJournal.recent_eq_ok_iff, RedbJournal.query_eq_ok_iff, hempty, and_iff_left rfl,
    eq_comm (a := List.take _ _), filter_take_eq_take_filter_iff, and_assoc]
  refine and_congr_right fun hgood => (cut_and_scan_iff hgood).trans ?_
  simp only [Bool.not_eq_true', Bool.not_eq_false']

/-- The newest entry has expired and takes the only slot. -/
theorem recent_misses_live_row :
    mixedJournal.Reachable ∧ (mixedJournal.recent 9000 1).map (List.map JournalRow.id) = .ok [] ∧
    (mixedJournal.query toString 9000 {} 1).map (List.map JournalRow.id) = .ok [1] := by
  refine ⟨RedbJournal.Reachable.after (Transition.ReachesBy.start rfl) _, ?_, ?_⟩
  · decide +kernel
  · decide +kernel

end Konf.Journal
