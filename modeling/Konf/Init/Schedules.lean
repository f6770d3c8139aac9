import Konf.Scheduler.Timers

/-! # Schedules from a file

Model of `register_schedules` (`konf-init/src/lib.rs`). Reading the file and the YAML parser are
parameters; a job id and two readings of the clock are drawn for each entry. The file system and the
log are left out, and so is the look into the engine's registry, which only writes a warning. -/

namespace Konf.Init
open Konf.Substrate Konf.Runtime Konf.Journal Konf.Scheduler
set_option autoImplicit false

structure CronEntry where
  name : String
  workflow : String
  cron : String
  namespace_ : String
  capabilities : List String
  input : Json

/-- Workflow, expression and namespace. -/
abbrev CronKey : Type := String × String × String

def CronEntry.key (entry : CronEntry) : CronKey := (entry.workflow, entry.cron, entry.namespace_)

structure Draw where
  jobId : JobId
  createdAt : Instant
  now : Instant

def CronEntry.record (entry : CronEntry) (draw : Draw) : Timer where
  jobId := draw.jobId
  workflow := entry.workflow
  input := entry.input
  namespace_ := entry.namespace_
  capabilities := entry.capabilities
  actor := ⟨"schedules.yaml", .system⟩
  mode := .cron entry.cron
  createdAt := draw.createdAt.time
  createdBy := "schedules.yaml:" ++ entry.name

def JobSummary.cronKey (s : JobSummary) : Option CronKey :=
  match s.mode with
  | .cron expr => some (s.workflow, expr, s.namespace_)
  | .once | .fixed _ => none

def existingKeys (existing : List JobSummary) : List CronKey := existing.filterMap JobSummary.cronKey

section Registration
variable (cron : Cron)

/-- An entry that the scheduler refuses is skipped with a warning. -/
def scheduleEntry (existing : List CronKey) (t : Tables) (p : Draw × CronEntry) : Tables :=
  if p.2.key ∈ existing then t
  else match t.scheduleCron cron p.1.now (p.2.record p.1) p.2.cron with
    | .ok t' => t'
    | .error _ => t

def scheduleEntries (existing : List CronKey) (t : Tables) (draws : List Draw)
    (entries : List CronEntry) : Tables :=
  (draws.zip entries).foldl (scheduleEntry cron existing) t

variable (readToString : String → Except String String) (fromStr : String → Except String (List CronEntry))

/-- The timers are listed once, before the first entry. -/
def registerSchedules (t : Tables) (draws : List Draw) (path : String) : Except String Tables := do
  let yaml ← (readToString path).mapError fun e => "failed to read " ++ path ++ ": " ++ e
  let entries ← (fromStr yaml).mapError fun e => "failed to parse " ++ path ++ ": " ++ e
  let existing ← (t.list none).mapError fun e => "scheduler list: " ++ e
  .ok (scheduleEntries cron (existingKeys existing) t draws entries)

end Registration

/-! ## What a registration is to do -/

/-- One key for each cron timer that is stored. -/
def cronKeys (t : Tables) : List CronKey := existingKeys (t.jobs none)

/-- The input of every timer parses again, so the timers can be listed. -/
def Listable (t : Tables) : Prop := ∀ r ∈ t.timers.rows, r.2.input.Readable

/-- At this reading of the clock the expression is valid: it parses and has a next time. -/
def ValidCron (cron : Cron) (now : Instant) (expr : String) : Prop :=
  ∃ upcoming, cron expr = .ok upcoming ∧ (upcoming now.time).isSome = true

/-- `validate_record` lets the entry's timer through. -/
def CronEntry.Accepted (entry : CronEntry) : Prop := entry.workflow ≠ "" ∧ entry.namespace_ ≠ ""

instance (entry : CronEntry) : Decidable entry.Accepted :=
  inferInstanceAs (Decidable (_ ∧ _))

/-- The entries of a file that get a timer. -/
def newEntries (t : Tables) (file : List CronEntry) : List CronEntry :=
  file.filter fun e => e.Accepted ∧ e.key ∉ cronKeys t

/-- The ids of the draws are distinct and not in use. -/
def Unused (t : Tables) (draws : List Draw) : Prop :=
  (draws.map Draw.jobId).Nodup ∧ ∀ d ∈ draws, ∀ r ∈ t.timers.rows, (ofLex r.1).2 ≠ d.jobId

/-- One draw for each entry: the ids are not in use, and the expressions are valid when they are read. -/
structure Fresh (cron : Cron) (t : Tables) (draws : List Draw) (file : List CronEntry) : Prop where
  length_eq : draws.length = file.length
  unused : Unused t draws
  valid : ∀ p ∈ draws.zip file, ValidCron cron p.1.now p.2.cron

/-- No two entries that get a timer share a key. -/
def Distinct (t : Tables) (file : List CronEntry) : Prop :=
  ((newEntries t file).map CronEntry.key).Nodup

section Registering
variable (cron : Cron) (readToString : String → Except String String)
  (fromStr : String → Except String (List CronEntry))

/-- The file at a path has these entries. -/
def Loads (path : String) (file : List CronEntry) : Prop :=
  ∃ yaml, readToString path = .ok yaml ∧ fromStr yaml = .ok file

/-- A call on the file at `path` that goes from `t` to `t'`. -/
def Registers (t : Tables) (path : String) (file : List CronEntry) (t' : Tables) : Prop :=
  ∃ draws, Fresh cron t draws file ∧ registerSchedules cron readToString fromStr t draws path = .ok t'

/-- The registration of a file on its own, a second time, and in two parts in any order. -/
structure RegistersOnce (t : Tables) (path : String) (file : List CronEntry) : Prop where
  succeeds : ∀ draws, Fresh cron t draws file →
    ∃ t', registerSchedules cron readToString fromStr t draws path = .ok t' ∧ Listable t'
  present : ∀ t', Registers cron readToString fromStr t path file t' →
    ∀ e ∈ file, e.Accepted → e.key ∈ cronKeys t'
  kept : ∀ t', Registers cron readToString fromStr t path file t' →
    ∀ k ∈ cronKeys t, (cronKeys t').count k = (cronKeys t).count k
  refused : ∀ t', Registers cron readToString fromStr t path file t' →
    ∀ e : CronEntry, ¬ e.Accepted → (cronKeys t').count e.key = (cronKeys t).count e.key
  again : ∀ t', Registers cron readToString fromStr t path file t' →
    ∀ draws, registerSchedules cron readToString fromStr t' draws path = .ok t'
  once : Distinct t file → ∀ t', Registers cron readToString fromStr t path file t' →
    ∀ k, (cronKeys t').count k ≤ (cronKeys t).count k + 1
  split : Distinct t file → ∀ path₁ path₂ first second, Loads readToString fromStr path₁ first →
    Loads readToString fromStr path₂ second → (first ++ second).Perm file →
    ∀ t' t₁ t₂, Registers cron readToString fromStr t path file t' →
      Registers cron readToString fromStr t path₁ first t₁ →
      Registers cron readToString fromStr t₁ path₂ second t₂ → (cronKeys t₂).Perm (cronKeys t')

end Registering

/-- A registration of a file that loads, where the timers can be listed. -/
theorem registerSchedules_eq {cron : Cron} {readToString : String → Except String String}
    {fromStr : String → Except String (List CronEntry)} {path : String} {file : List CronEntry}
    (hload : Loads readToString fromStr path file) {t : Tables} (h : Listable t) (draws : List Draw) :
    registerSchedules cron readToString fromStr t draws path =
      .ok (scheduleEntries cron (cronKeys t) t draws file) := by
  obtain ⟨yaml, hyaml, hfile⟩ := hload
  have hjobs : t.list none = .ok (t.jobs none) :=
    Tables.list_eq_ok_iff.mpr ⟨fun r hr => h r (List.mem_of_mem_filter hr), rfl⟩
  unfold registerSchedules
  rw [hyaml, hjobs]
  simp only [Except.mapError, bind, Except.bind, hfile]
  rfl

/-! ## One entry -/

theorem scheduleCron_of_accepted {cron : Cron} (t : Tables) {draw : Draw} {entry : CronEntry}
    (hvalid : ValidCron cron draw.now entry.cron) (h : entry.Accepted) :
    ∃ runAt, t.scheduleCron cron draw.now (entry.record draw) entry.cron =
      .ok (t.insertNew (entry.record draw) runAt) := by
  obtain ⟨upcoming, hparse, hnext⟩ := hvalid
  obtain ⟨runAt, hrun⟩ := Option.isSome_iff_exists.mp hnext
  have hrecord : (entry.record draw).validate = .ok () := by
    simp [TimerRecord.validate, CronEntry.record, h.1, h.2]
  refine ⟨runAt, ?_⟩
  unfold Tables.scheduleCron
  rw [hrecord, hparse]
  simp only [Except.mapError, bind, Except.bind, hrun]
  rfl

theorem scheduleCron_of_not_accepted (cron : Cron) (t : Tables) (draw : Draw) {entry : CronEntry}
    (h : ¬ entry.Accepted) : ∃ e, t.scheduleCron cron draw.now (entry.record draw) entry.cron =
      .error e := by
  unfold Tables.scheduleCron
  by_cases hworkflow : entry.workflow = ""
  · refine ⟨"invalid input: workflow id is empty", ?_⟩
    have hrecord : (entry.record draw).validate = .error "invalid input: workflow id is empty" := by
      simp [TimerRecord.validate, CronEntry.record, hworkflow]
    rw [hrecord]
    rfl
  · refine ⟨"invalid input: namespace is empty", ?_⟩
    have hnamespace : entry.namespace_ = "" := by
      by_contra hne
      exact h ⟨hworkflow, hne⟩
    have hrecord : (entry.record draw).validate = .error "invalid input: namespace is empty" := by
      simp [TimerRecord.validate, CronEntry.record, hworkflow, hnamespace]
    rw [hrecord]
    rfl

/-- An entry that is refused, or has its timer, is passed over. -/
theorem scheduleEntry_of_present {cron : Cron} {existing : List CronKey} (t : Tables) (draw : Draw)
    {entry : CronEntry} (h : entry.Accepted → entry.key ∈ existing) :
    scheduleEntry cron existing t (draw, entry) = t := by
  unfold scheduleEntry
  by_cases hin : entry.key ∈ existing
  · exact if_pos hin
  · obtain ⟨e, herror⟩ := scheduleCron_of_not_accepted cron t draw (mt h hin)
    rw [if_neg hin]
    simp only [herror]

/-- An entry is passed over, or its timer is stored. -/
theorem scheduleEntry_cases {cron : Cron} (existing : List CronKey) (t : Tables) {draw : Draw}
    {entry : CronEntry} (hvalid : ValidCron cron draw.now entry.cron) :
    (¬ (entry.Accepted ∧ entry.key ∉ existing) ∧ scheduleEntry cron existing t (draw, entry) = t) ∨
    ((entry.Accepted ∧ entry.key ∉ existing) ∧ ∃ runAt,
      scheduleEntry cron existing t (draw, entry) = t.insertNew (entry.record draw) runAt) := by
  by_cases h : entry.Accepted ∧ entry.key ∉ existing
  · obtain ⟨runAt, hok⟩ := scheduleCron_of_accepted t hvalid h.1
    refine .inr ⟨h, runAt, ?_⟩
    rw [scheduleEntry, if_neg h.2]
    simp only [hok]
  · exact .inl ⟨h, scheduleEntry_of_present t draw (not_and_not_right.mp h)⟩

theorem cronKeys_eq (t : Tables) :
    cronKeys t = t.timers.rows.filterMap fun r =>
      JobSummary.cronKey (Tables.summary (ofLex r.1).1 r.2.timer) := by
  simp only [cronKeys, existingKeys, Tables.jobs, Tables.selected, Option.all_none, List.filter_true]
  exact List.filterMap_map

/-- A new timer adds its key. -/
theorem cronKeys_insertNew {t : Tables} {entry : CronEntry} {draw : Draw} {runAt : Time}
    (hunused : ∀ r ∈ t.timers.rows, (ofLex r.1).2 ≠ draw.jobId) :
    (cronKeys (t.insertNew (entry.record draw) runAt)).Perm (entry.key :: cronKeys t) := by
  have hnone : t.timers.get (toLex (fireAtMs runAt, (entry.record draw).jobId)) = none := by
    rw [Table.get_eq_none_iff]
    rintro r hr heq
    exact hunused r hr (by rw [heq]; rfl)
  have hperm := Table.insert_perm (v := StoredTimer.fromRecord (entry.record draw)) hnone
  rw [cronKeys_eq, cronKeys_eq]
  exact hperm.filterMap _

theorem Listable.insertNew {t : Tables} (h : Listable t) {record : Timer} (hinput : record.input.Readable)
    (runAt : Time) : Listable (t.insertNew record runAt) := by
  intro r hr
  obtain rfl | ⟨-, hold⟩ := Table.mem_insert.mp hr
  · exact hinput
  · exact h r hold

/-! ## A file -/

theorem Unused.tail {t : Tables} {draw : Draw} {draws : List Draw} (h : Unused t (draw :: draws)) :
    Unused t draws :=
  ⟨(List.nodup_cons.mp h.1).2, fun d hd => h.2 d (List.mem_cons_of_mem _ hd)⟩

theorem Unused.insertNew {t : Tables} {draw : Draw} {draws : List Draw} {record : Timer}
    (h : Unused t (draw :: draws)) (hid : record.jobId = draw.jobId) (runAt : Time) :
    Unused (t.insertNew record runAt) draws := by
  refine ⟨h.tail.1, ?_⟩
  intro d hd r hr
  obtain rfl | ⟨-, hold⟩ := Table.mem_insert.mp hr
  · have hnot := (List.nodup_cons.mp h.1).1
    intro heq
    exact hnot (List.mem_map.mpr ⟨d, hd, heq.symm.trans hid⟩)
  · exact h.tail.2 d hd r hold

/-- The keys of a file's new entries are added, and no others. -/
theorem cronKeys_foldl {cron : Cron} (existing : List CronKey) (ps : List (Draw × CronEntry))
    (t : Tables) (hvalid : ∀ p ∈ ps, ValidCron cron p.1.now p.2.cron)
    (hunused : Unused t (ps.map Prod.fst)) :
    (cronKeys (ps.foldl (scheduleEntry cron existing) t)).Perm
      (((ps.map Prod.snd).filter fun e => e.Accepted ∧ e.key ∉ existing).map CronEntry.key ++
        cronKeys t) := by
  induction ps generalizing t with
  | nil => simp
  | cons p ps ih =>
    obtain ⟨draw, entry⟩ := p
    have hrest : ∀ p ∈ ps, ValidCron cron p.1.now p.2.cron :=
      fun p hp => hvalid p (List.mem_cons_of_mem _ hp)
    rw [List.map_cons] at hunused
    rw [List.foldl_cons, List.map_cons]
    obtain ⟨hskip, heq⟩ | ⟨hnew, runAt, heq⟩ :=
      scheduleEntry_cases existing t (hvalid (draw, entry) List.mem_cons_self)
    · rw [heq, List.filter_cons_of_neg (by simpa using hskip)]
      exact ih t hrest hunused.tail
    · rw [heq, List.filter_cons_of_pos (by simpa using hnew), List.map_cons, List.cons_append]
      refine (ih _ hrest (hunused.insertNew rfl runAt)).trans ?_
      have hfirst : ∀ r ∈ t.timers.rows, (ofLex r.1).2 ≠ draw.jobId :=
        hunused.2 draw List.mem_cons_self
      exact ((cronKeys_insertNew hfirst).append_left _).trans List.perm_middle

theorem Listable.foldl {cron : Cron} (existing : List CronKey) (ps : List (Draw × CronEntry))
    {t : Tables} (h : Listable t) (hvalid : ∀ p ∈ ps, ValidCron cron p.1.now p.2.cron)
    (hinputs : ∀ p ∈ ps, p.2.input.Readable) :
    Listable (ps.foldl (scheduleEntry cron existing) t) := by
  induction ps generalizing t with
  | nil => exact h
  | cons p ps ih =>
    obtain ⟨draw, entry⟩ := p
    rw [List.foldl_cons]
    refine ih ?_ (fun p hp => hvalid p (List.mem_cons_of_mem _ hp))
      fun p hp => hinputs p (List.mem_cons_of_mem _ hp)
    obtain ⟨-, heq⟩ | ⟨-, runAt, heq⟩ :=
      scheduleEntry_cases existing t (hvalid (draw, entry) List.mem_cons_self)
    · rw [heq]
      exact h
    · rw [heq]
      exact h.insertNew (hinputs (draw, entry) List.mem_cons_self) runAt

/-- Nothing is stored when every accepted entry has its timer. -/
theorem foldl_of_present {cron : Cron} {existing : List CronKey} (ps : List (Draw × CronEntry))
    (t : Tables) (h : ∀ p ∈ ps, p.2.Accepted → p.2.key ∈ existing) :
    ps.foldl (scheduleEntry cron existing) t = t := by
  induction ps with
  | nil => rfl
  | cons p ps ih =>
    obtain ⟨draw, entry⟩ := p
    rw [List.foldl_cons, scheduleEntry_of_present t draw (h (draw, entry) List.mem_cons_self)]
    exact ih fun p hp => h p (List.mem_cons_of_mem _ hp)

section Files
variable {cron : Cron} {t : Tables} {file : List CronEntry} {draws : List Draw}

theorem mem_newEntries {e : CronEntry} :
    e ∈ newEntries t file ↔ e ∈ file ∧ e.Accepted ∧ e.key ∉ cronKeys t := by
  simp [newEntries]

theorem newEntries_append (first second : List CronEntry) :
    newEntries t (first ++ second) = newEntries t first ++ newEntries t second :=
  List.filter_append _ _

theorem cronKeys_scheduleEntries (hfresh : Fresh cron t draws file) :
    (cronKeys (scheduleEntries cron (cronKeys t) t draws file)).Perm
      ((newEntries t file).map CronEntry.key ++ cronKeys t) := by
  have hfst : (draws.zip file).map Prod.fst = draws := List.map_fst_zip hfresh.length_eq.le
  have hsnd : (draws.zip file).map Prod.snd = file := List.map_snd_zip hfresh.length_eq.ge
  have hkeys := cronKeys_foldl (cronKeys t) (draws.zip file) t hfresh.valid (hfst.symm ▸ hfresh.unused)
  rw [hsnd] at hkeys
  exact hkeys

theorem mem_cronKeys_scheduleEntries (hfresh : Fresh cron t draws file) {k : CronKey} :
    k ∈ cronKeys (scheduleEntries cron (cronKeys t) t draws file) ↔
      (∃ e ∈ file, e.Accepted ∧ e.key = k) ∨ k ∈ cronKeys t := by
  rw [(cronKeys_scheduleEntries hfresh).mem_iff, List.mem_append, List.mem_map]
  constructor
  · rintro (⟨e, he, rfl⟩ | hk)
    · obtain ⟨hmem, haccepted, -⟩ := mem_newEntries.mp he
      exact .inl ⟨e, hmem, haccepted, rfl⟩
    · exact .inr hk
  · rintro (⟨e, hmem, haccepted, rfl⟩ | hk)
    · by_cases hold : e.key ∈ cronKeys t
      · exact .inr hold
      · exact .inl ⟨e, mem_newEntries.mpr ⟨hmem, haccepted, hold⟩, rfl⟩
    · exact .inr hk

/-- A key that no new entry has keeps its timers. -/
theorem count_scheduleEntries (hfresh : Fresh cron t draws file) {k : CronKey}
    (hk : ∀ e ∈ newEntries t file, e.key ≠ k) :
    (cronKeys (scheduleEntries cron (cronKeys t) t draws file)).count k = (cronKeys t).count k := by
  have hzero : ((newEntries t file).map CronEntry.key).count k = 0 := by
    rw [List.count_eq_zero, List.mem_map]
    rintro ⟨e, he, heq⟩
    exact hk e he heq
  rw [(cronKeys_scheduleEntries hfresh).count_eq, List.count_append, hzero, Nat.zero_add]

theorem scheduleEntries_of_present {existing : List CronKey}
    (h : ∀ e ∈ file, e.Accepted → e.key ∈ existing) (draws : List Draw) :
    scheduleEntries cron existing t draws file = t :=
  foldl_of_present _ t fun p hp => h p.2 (List.of_mem_zip hp).2

theorem Listable.scheduleEntries (h : Listable t) (hfresh : Fresh cron t draws file)
    (hinputs : ∀ e ∈ file, e.input.Readable) (existing : List CronKey) :
    Listable (Init.scheduleEntries cron existing t draws file) :=
  h.foldl existing _ hfresh.valid fun p hp => hinputs p.2 (List.of_mem_zip hp).2

/-- After the first part of a file, the new entries of the second part are those of the whole file. -/
theorem newEntries_second (hfresh : Fresh cron t draws file) {second : List CronEntry}
    (hdistinct : Distinct t (file ++ second)) :
    newEntries (scheduleEntries cron (cronKeys t) t draws file) second = newEntries t second := by
  refine List.filter_congr fun e he => ?_
  rw [Bool.eq_iff_iff, decide_eq_true_eq, decide_eq_true_eq, mem_cronKeys_scheduleEntries hfresh]
  refine and_congr_right fun haccepted => ?_
  constructor
  · intro hnot hold
    exact hnot (.inr hold)
  · rintro hnot (⟨e', he', haccepted', heq⟩ | hold)
    · rw [Distinct, newEntries_append, List.map_append] at hdistinct
      refine (List.nodup_append.mp hdistinct).2.2 e'.key ?_ e.key ?_ heq
      · exact List.mem_map_of_mem (mem_newEntries.mpr ⟨he', haccepted', heq ▸ hnot⟩)
      · exact List.mem_map_of_mem (mem_newEntries.mpr ⟨he, haccepted, hnot⟩)
    · exact hnot hold

/-- The parts of a file store what the file does. -/
theorem cronKeys_split (hfresh : Fresh cron t draws file) (hdistinct : Distinct t file)
    {first second : List CronEntry} (hperm : (first ++ second).Perm file) {draws₁ draws₂ : List Draw}
    (hfirst : Fresh cron t draws₁ first) {t₁ : Tables}
    (ht₁ : t₁ = scheduleEntries cron (cronKeys t) t draws₁ first) (hsecond : Fresh cron t₁ draws₂ second) :
    (cronKeys (scheduleEntries cron (cronKeys t₁) t₁ draws₂ second)).Perm
      (cronKeys (scheduleEntries cron (cronKeys t) t draws file)) := by
  subst ht₁
  have hnew : ((newEntries t (first ++ second)).map CronEntry.key).Perm
      ((newEntries t file).map CronEntry.key) := (hperm.filter _).map _
  have hboth : Distinct t (first ++ second) := hnew.nodup_iff.mpr hdistinct
  have hfile := cronKeys_scheduleEntries hfresh
  have hone := cronKeys_scheduleEntries hfirst
  have htwo := cronKeys_scheduleEntries hsecond
  rw [newEntries_second hfirst hboth] at htwo
  refine (htwo.trans (hone.append_left _)).trans (List.Perm.trans ?_ hfile.symm)
  rw [← List.append_assoc]
  refine List.Perm.append_right _ (List.Perm.trans ?_ hnew)
  rw [newEntries_append, List.map_append]
  exact List.perm_append_comm

end Files

section Calls
variable {cron : Cron} {readToString : String → Except String String}
  {fromStr : String → Except String (List CronEntry)} {t t' : Tables} {path : String}
  {file : List CronEntry}

theorem Registers.eq (h : Registers cron readToString fromStr t path file t')
    (hload : Loads readToString fromStr path file) (hlist : Listable t) :
    ∃ draws, Fresh cron t draws file ∧ t' = scheduleEntries cron (cronKeys t) t draws file := by
  obtain ⟨draws, hfresh, hok⟩ := h
  rw [registerSchedules_eq hload hlist, Except.ok.injEq] at hok
  exact ⟨draws, hfresh, hok.symm⟩

/-- Registration is idempotent and does not depend on the order of the entries, as long as the timers can
be listed and no two new entries share a key. `serde_yaml` has a recursion limit of its own, which keeps
the inputs of a file's entries from nesting deeper than `serde_json` reads. -/
theorem registers_once
    (hyaml : ∀ yaml file, fromStr yaml = .ok file → ∀ e ∈ file, e.input.Readable)
    (hload : Loads readToString fromStr path file) (hlist : Listable t) :
    RegistersOnce cron readToString fromStr t path file := by
  have hinputs : ∀ {path file}, Loads readToString fromStr path file →
      ∀ e ∈ file, e.input.Readable := by
    rintro path file ⟨yaml, -, hfile⟩
    exact hyaml yaml file hfile
  constructor
  case succeeds =>
    intro draws hfresh
    exact ⟨_, registerSchedules_eq hload hlist draws,
      hlist.scheduleEntries hfresh (hinputs hload) _⟩
  case present =>
    intro t' hcall e he haccepted
    obtain ⟨draws, hfresh, rfl⟩ := hcall.eq hload hlist
    exact (mem_cronKeys_scheduleEntries hfresh).mpr (.inl ⟨e, he, haccepted, rfl⟩)
  case kept =>
    intro t' hcall k hk
    obtain ⟨draws, hfresh, rfl⟩ := hcall.eq hload hlist
    refine count_scheduleEntries hfresh ?_
    rintro e he rfl
    exact (mem_newEntries.mp he).2.2 hk
  case refused =>
    intro t' hcall e hrefused
    obtain ⟨draws, hfresh, rfl⟩ := hcall.eq hload hlist
    refine count_scheduleEntries hfresh fun e' he' heq => hrefused ?_
    have haccepted := (mem_newEntries.mp he').2.1
    simp only [CronEntry.key, Prod.mk.injEq] at heq
    exact ⟨heq.1 ▸ haccepted.1, heq.2.2 ▸ haccepted.2⟩
  case again =>
    intro t' hcall draws'
    obtain ⟨draws, hfresh, rfl⟩ := hcall.eq hload hlist
    rw [registerSchedules_eq hload (hlist.scheduleEntries hfresh (hinputs hload) _)]
    refine congrArg Except.ok (scheduleEntries_of_present ?_ draws')
    intro e he haccepted
    exact (mem_cronKeys_scheduleEntries hfresh).mpr (.inl ⟨e, he, haccepted, rfl⟩)
  case once =>
    intro hdistinct t' hcall k
    obtain ⟨draws, hfresh, rfl⟩ := hcall.eq hload hlist
    rw [(cronKeys_scheduleEntries hfresh).count_eq, List.count_append, Nat.add_comm]
    exact Nat.add_le_add_left (List.nodup_iff_count_le_one.mp hdistinct k) _
  case split =>
    intro hdistinct path₁ path₂ first second hload₁ hload₂ hperm t' t₁ t₂ hcall hfirst hsecond
    obtain ⟨draws, hfresh, rfl⟩ := hcall.eq hload hlist
    obtain ⟨draws₁, hfresh₁, ht₁⟩ := hfirst.eq hload₁ hlist
    have hlist₁ : Listable t₁ := ht₁ ▸ hlist.scheduleEntries hfresh₁ (hinputs hload₁) _
    obtain ⟨draws₂, hfresh₂, rfl⟩ := hsecond.eq hload₂ hlist₁
    exact cronKeys_split hfresh hdistinct hperm hfresh₁ ht₁ hfresh₂

end Calls

/-! ## A sample -/

/-- The first whole minute after an instant, up to the end of the year 2100. No other expression. -/
def everyMinute : Cron := fun expr =>
  if expr = "0 * * * * * *" then
    .ok fun now =>
      let next := (now / 60000000000 + 1) * 60000000000
      if next < 4133980800000000000 then some next else none
  else .error "Invalid cron expression"

def brief : CronEntry := ⟨"morning_brief", "morning_brief", "0 * * * * * *", "konf", [], .obj []⟩

def briefYaml : String :=
  "- name: morning_brief\n  workflow: morning_brief\n  cron: 0 * * * * * *\n  namespace: konf\n"

def readBrief : String → Except String String := fun path =>
  if path = "schedules.yaml" then .ok briefYaml else .error "No such file or directory (os error 2)"

/-- The parser on this text, and on no other. -/
def parseBrief : String → Except String (List CronEntry) := fun yaml =>
  if yaml = briefYaml then .ok [brief] else .error "invalid type"

def drawAt (id : JobId) : Draw := ⟨id, epoch, epoch⟩

theorem registers_once_brief :
    (registerSchedules everyMinute readBrief parseBrief .empty [drawAt 1] "schedules.yaml").isOk = true ∧
      RegistersOnce everyMinute readBrief parseBrief .empty "schedules.yaml" [brief] := by
  have hyaml : ∀ yaml file, parseBrief yaml = .ok file → ∀ e ∈ file, e.input.Readable := by
    intro yaml file hfile
    unfold parseBrief at hfile
    split_ifs at hfile
    cases hfile
    decide
  have honce : RegistersOnce everyMinute readBrief parseBrief .empty "schedules.yaml" [brief] :=
    registers_once hyaml ⟨briefYaml, rfl, rfl⟩ nofun
  exact ⟨by decide +kernel, honce⟩

/-- A call on a file with these entries. -/
def registerFile (entries : List CronEntry) (draws : List Draw) (t : Tables) : Except String Tables :=
  registerSchedules everyMinute (fun _ => .ok briefYaml) (fun _ => .ok entries) t draws "schedules.yaml"

/-- A timer that the scheduler took, with 128 nested arrays for its input. -/
def deepTable : Tables :=
  Tables.empty.insertNew { brief.record (drawAt 9) with workflow := "deep", input := Json.wrap 128 .null } 0

/-- An entry that is listed twice gets two timers, in two files it gets one, an entry without a workflow
gets none, and nothing is registered while a stored timer does not parse again. -/
theorem repeated_entry_is_stored_twice :
    (registerFile [brief, brief] [drawAt 1, drawAt 2] .empty).map (fun t => (cronKeys t).count brief.key) =
        .ok 2 ∧
      (registerFile [brief] [drawAt 1] .empty >>= registerFile [brief] [drawAt 2]).map
        (fun t => (cronKeys t).count brief.key) = .ok 1 ∧
      (registerFile [{ brief with workflow := "" }] [drawAt 1] .empty).map cronKeys = .ok [] ∧
      (registerFile [brief] [drawAt 1] deepTable).map cronKeys =
        .error "scheduler list: serialization: recursion limit exceeded" := by
  decide +kernel

end Konf.Init
