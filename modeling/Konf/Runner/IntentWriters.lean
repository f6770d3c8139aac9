import Konf.Foundations.Transition
import Konf.Runner.IntentTables

/-! # The writers of the intent store

Model of all who issue the transactions of the intent store in one process: `spawn` and its tasks
(`konf-tool-runner/src/runners/inline.rs`), the boot replay of `konf-init/src/lib.rs`, and `gc`. A step is
one transaction, so `mark_terminal` and `gc` are two steps each and anything may come between. The process
can go down at any moment; the tables stay.

The boot sets the scheduler polling before it lists the intents to replay, so a workflow that a timer
starts may have spawned runs by then, and those are listed too. -/

namespace Konf.Runner
open Konf.Substrate Konf.Runtime Konf.Journal Konf.Transition
set_option autoImplicit false

/-! ## The writers -/

/-- Where a call stands that goes on to a transaction: `replay` counts and goes on to `spawn_with_id`,
which looks the workflow up and persists the intent; `mark_terminal` reads and writes. -/
inductive IntentCall
  | count (i : ListedIntent)
  | resolve (i : ListedIntent)
  | persist (i : ListedIntent)
  | read (id : Uuid) (status : TerminalStatus)
  | write (i : ListedIntent) (status : TerminalStatus)

inductive Party
  -- the boot, before it has listed the intents
  | boot
  | replaying (call : Option IntentCall) (pending : List ListedIntent)
  -- a `spawn`, or a task in `mark_terminal`
  | calling (call : IntentCall)
  -- a task at its workflow
  | running (id : Uuid)
  | collecting (victims : List (Uuid × String))

inductive IntentMove
  | restart
  | spawn
  | gc
  | list
  | proceed
deriving DecidableEq

/-- One step of a call: the tables and the call after it, and the task it launches. A write that fails
is passed over. -/
inductive CallStep (t : IntentTables) : IntentCall → IntentTables → Option IntentCall → Option Uuid → Prop
  | count (i : ListedIntent) : CallStep t (.count i) (t.insert i) (some (.resolve i)) none
  | countLost (i : ListedIntent) : CallStep t (.count i) t (some (.resolve i)) none
  | found (i : ListedIntent) (fresh : Uuid) (now : Time) :
      CallStep t (.resolve i) t (some (.persist (.new (i.replaySpec fresh) i.runId now))) none
  | notFound (i : ListedIntent) : CallStep t (.resolve i) t none none
  | persist (i : ListedIntent) : CallStep t (.persist i) (t.insert i) none (some i.runId)
  | persistLost (i : ListedIntent) : CallStep t (.persist i) t none (some i.runId)
  | read {id : Uuid} {i : ListedIntent} (status : TerminalStatus) (h : t.get id = some i) :
      CallStep t (.read id status) t (some (.write i status)) none
  | readNothing (id : Uuid) (status : TerminalStatus) : CallStep t (.read id status) t none none
  | write (i : ListedIntent) (status : TerminalStatus) :
      CallStep t (.write i status) (t.insert (i.markTerminal status)) none none
  | writeLost (i : ListedIntent) (status : TerminalStatus) : CallStep t (.write i status) t none none

/-- What `replay` does first with a listed intent. -/
def replayCall (i : ListedIntent) : IntentCall :=
  if replayLimit < i.replayCount + 1 then .read i.runId replayLimitExceeded
  else .count { i with replayCount := i.replayCount + 1 }

/-- One step of a party: the tables after it, and what has become of the party. A task may be aborted,
and a call fail, at any point. -/
inductive PartyStep (t : IntentTables) : Party → IntentMove → IntentTables → List Party → Prop
  | list : PartyStep t .boot .list t [.replaying none t.listUnterminated]
  | next (i : ListedIntent) (pending : List ListedIntent) :
      PartyStep t (.replaying none (i :: pending)) .proceed t [.replaying (some (replayCall i)) pending]
  | replay {c : IntentCall} {t' : IntentTables} {c' : Option IntentCall} {launched : Option Uuid}
      (pending : List ListedIntent) (h : CallStep t c t' c' launched) :
      PartyStep t (.replaying (some c) pending) .proceed t'
        (launched.toList.map .running ++ [.replaying c' pending])
  | call {c : IntentCall} {t' : IntentTables} {c' : Option IntentCall} {launched : Option Uuid}
      (h : CallStep t c t' c' launched) :
      PartyStep t (.calling c) .proceed t' (launched.toList.map .running ++ c'.toList.map .calling)
  | finish (id : Uuid) (status : TerminalStatus) :
      PartyStep t (.running id) .proceed t [.calling (.read id status)]
  | collect (victims : List (Uuid × String)) :
      PartyStep t (.collecting victims) .proceed (t.removeAll victims) []
  | drop (p : Party) : PartyStep t p .proceed t []

/-- `drawn` are the run ids drawn so far, each with the namespace it was drawn for. -/
structure IntentSystem where
  tables : IntentTables
  parties : List Party
  drawn : List (Uuid × String)

inductive IntentStep (s : IntentSystem) : IntentMove → IntentSystem → Prop
  | restart : IntentStep s .restart { s with parties := [.boot] }
  -- a drawn id is new
  | spawn (spec : WorkflowSpec) (id : Uuid) (now : Time) (hfresh : id ∉ s.drawn.map Prod.fst) :
      IntentStep s .spawn
        { s with
          parties := .calling (.persist (.new spec id now)) :: s.parties
          drawn := (id, spec.parentScope.namespace_) :: s.drawn }
  | gc (olderThan : Time) :
      IntentStep s .gc { s with parties := .collecting (s.tables.victims olderThan) :: s.parties }
  | act {p : Party} {a : IntentMove} {t' : IntentTables} {ps : List Party} (pre post : List Party)
      (h : s.parties = pre ++ p :: post) (hp : PartyStep s.tables p a t' ps) :
      IntentStep s a { s with tables := t', parties := pre ++ ps ++ post }

/-- The first boot, on an empty database. -/
def IntentSystem.Booted (s : IntentSystem) : Prop := s = ⟨.empty, [.boot], []⟩

/-! ## What a step of a party can do -/

/-- The run a call is about. -/
def IntentCall.runId : IntentCall → Uuid
  | .count i | .resolve i | .persist i | .write i _ => i.runId
  | .read id _ => id

/-- The intents that a call may yet write without a terminal status. -/
def IntentCall.opens : IntentCall → List ListedIntent
  | .count i | .resolve i | .persist i => [i]
  | .read _ _ | .write _ _ => []

/-- The intents a call has in hand, each by its id and namespace. -/
def IntentCall.keys : IntentCall → List (Uuid × String)
  | .count i | .resolve i | .persist i | .write i _ => [i.key]
  | .read _ _ => []

namespace Party

/-- The runs a party is at work on. -/
def owns : Party → List Uuid
  | .replaying call pending => call.toList.map IntentCall.runId ++ pending.map fun i => i.runId
  | .calling call => [call.runId]
  | .running id => [id]
  | .boot | .collecting _ => []

def opens : Party → List ListedIntent
  | .replaying call pending => call.toList.flatMap IntentCall.opens ++ pending
  | .calling call => call.opens
  | .boot | .running _ | .collecting _ => []

def keys : Party → List (Uuid × String)
  | .replaying call pending =>
    call.toList.flatMap IntentCall.keys ++ pending.map ListedIntent.key
  | .calling call => call.keys
  | .collecting victims => victims
  | .boot | .running _ => []

end Party

section Effects
variable {t t' : IntentTables} {c : IntentCall} {c' : Option IntentCall} {launched : Option Uuid}
  {p : Party} {ps : List Party}

/-- An intent that may be written is one that might have been before, with the same id. -/
def Follows (l l' : List ListedIntent) : Prop :=
  ∀ i ∈ l', ∃ j ∈ l, i.runId = j.runId ∧ (j.terminal = none → i.terminal = none)

theorem CallStep.owns (h : CallStep t c t' c' launched) :
    (launched.toList ++ c'.toList.map IntentCall.runId).Sublist [c.runId] := by
  cases h with
  | count i | countLost i | found i fresh now | notFound i | persist i | persistLost i
  | readNothing id status | write i status | writeLost i status => simp [IntentCall.runId]
  | read status hget => simp [IntentCall.runId, IntentTables.runId_of_get hget]

theorem CallStep.follows (h : CallStep t c t' c' launched) :
    Follows c.opens (c'.toList.flatMap IntentCall.opens) := by
  cases h with
  | count i | countLost i | found i fresh now => simp [Follows, IntentCall.opens]
  | notFound i | persist i | persistLost i | read status hget | readNothing id status | write i status
  | writeLost i status => simp [Follows, IntentCall.opens]

/-- How a step of a call leaves the tables: only `mark_terminal` writes a terminal status, and it is
done with the run then. -/
theorem CallStep.tables (h : CallStep t c t' c' launched) :
    t' = t ∨ (∃ i ∈ c.opens, t' = t.insert i) ∨
      ∃ i status, c = .write i status ∧ t' = t.insert (i.markTerminal status) ∧ c' = none ∧
        launched = none := by
  cases h with
  | count i => exact .inr (.inl ⟨i, by simp [IntentCall.opens], rfl⟩)
  | persist i => exact .inr (.inl ⟨i, by simp [IntentCall.opens], rfl⟩)
  | write i status => exact .inr (.inr ⟨i, status, rfl, rfl, rfl, rfl⟩)
  | countLost i | found i fresh now | notFound i | persistLost i | read status hget
  | readNothing id status | writeLost i status => exact .inl rfl

theorem replayCall_runId (i : ListedIntent) : (replayCall i).runId = i.runId := by
  unfold replayCall
  split_ifs <;> rfl

theorem Follows.append {l l' : List ListedIntent} (h : Follows l l') (m : List ListedIntent) :
    Follows (l ++ m) (l' ++ m) := by
  intro i hi
  obtain hi | hi := List.mem_append.mp hi
  · obtain ⟨j, hj, hji⟩ := h i hi
    exact ⟨j, List.mem_append_left _ hj, hji⟩
  · exact ⟨i, List.mem_append_right _ hi, rfl, id⟩

theorem replayCall_follows (i : ListedIntent) : Follows [i] (replayCall i).opens := by
  unfold replayCall
  split_ifs <;> simp [Follows, IntentCall.opens]

theorem flatMap_running_owns (launched : Option Uuid) :
    (launched.toList.map Party.running).flatMap Party.owns = launched.toList := by
  cases launched <;> simp [Party.owns]

theorem flatMap_running_opens (launched : Option Uuid) :
    (launched.toList.map Party.running).flatMap Party.opens = [] := by
  cases launched <;> simp [Party.opens]

theorem flatMap_calling_owns (call : Option IntentCall) :
    (call.toList.map Party.calling).flatMap Party.owns = call.toList.map IntentCall.runId := by
  cases call <;> simp [Party.owns]

theorem flatMap_calling_opens (call : Option IntentCall) :
    (call.toList.map Party.calling).flatMap Party.opens = call.toList.flatMap IntentCall.opens := by
  cases call <;> simp [Party.opens]

/-- Except by the listing, no party comes to be at work on a run that it was not at work on. -/
theorem PartyStep.owns (h : PartyStep t p .proceed t' ps) : (ps.flatMap Party.owns).Sublist p.owns := by
  cases h with
  | next i pending => simp [Party.owns, replayCall_runId]
  | replay pending hc =>
    rw [List.flatMap_append, flatMap_running_owns]
    simpa [Party.owns, ← List.append_assoc] using hc.owns.append_right (pending.map fun i => i.runId)
  | call hc =>
    rw [List.flatMap_append, flatMap_running_owns, flatMap_calling_owns]
    exact hc.owns
  | finish id status => simp [Party.owns, IntentCall.runId]
  | collect victims => simp
  | drop => simp

theorem PartyStep.follows (h : PartyStep t p .proceed t' ps) :
    Follows p.opens (ps.flatMap Party.opens) := by
  cases h with
  | next i pending =>
    have := (replayCall_follows i).append pending
    simpa [Party.opens] using this
  | replay pending hc =>
    rw [List.flatMap_append, flatMap_running_opens]
    simpa [Party.opens] using hc.follows.append pending
  | call hc =>
    rw [List.flatMap_append, flatMap_running_opens, flatMap_calling_opens]
    exact hc.follows
  | finish id status => simp [Party.opens, IntentCall.opens, Follows]
  | collect victims => simp [Follows]
  | drop => simp [Follows]

/-- The four things that a step of a party can do to the tables. -/
theorem PartyStep.tables {a : IntentMove} (h : PartyStep t p a t' ps) :
    t' = t ∨ (∃ i ∈ p.opens, t' = t.insert i) ∨
      (∃ (i : ListedIntent) (status : TerminalStatus), t' = t.insert (i.markTerminal status) ∧
        i.key ∈ p.keys ∧ (i.runId :: ps.flatMap Party.owns).Sublist p.owns) ∨
      ∃ victims, p = .collecting victims ∧ t' = t.removeAll victims := by
  cases h with
  | list => exact .inl rfl
  | next i pending => exact .inl rfl
  | replay pending hc =>
    obtain rfl | ⟨i, hi, rfl⟩ | ⟨i, status, rfl, rfl, rfl, rfl⟩ := hc.tables
    · exact .inl rfl
    · exact .inr (.inl ⟨i, by simp [Party.opens, hi], rfl⟩)
    · refine .inr (.inr (.inl ⟨i, status, rfl, ?_, ?_⟩))
      · simp [Party.keys, IntentCall.keys]
      · simp [Party.owns, IntentCall.runId]
  | call hc =>
    obtain rfl | ⟨i, hi, rfl⟩ | ⟨i, status, rfl, rfl, rfl, rfl⟩ := hc.tables
    · exact .inl rfl
    · exact .inr (.inl ⟨i, hi, rfl⟩)
    · refine .inr (.inr (.inl ⟨i, status, rfl, ?_, ?_⟩))
      · simp [Party.keys, IntentCall.keys]
      · simp [Party.owns, IntentCall.runId]
  | finish id status => exact .inl rfl
  | collect victims => exact .inr (.inr (.inr ⟨victims, rfl, rfl⟩))
  | drop => exact .inl rfl

/-- Only `gc` starts a collection. -/
theorem PartyStep.not_collecting {a : IntentMove} (h : PartyStep t p a t' ps)
    (victims : List (Uuid × String)) : .collecting victims ∉ ps := by
  cases h <;> simp

/-! ## Every id keeps its namespace -/

theorem CallStep.keys {drawn : List (Uuid × String)} (h : CallStep t c t' c' launched)
    (hfits : t.Fits drawn) (hc : ∀ k ∈ c.keys, k ∈ drawn) :
    ∀ k ∈ c'.toList.flatMap IntentCall.keys, k ∈ drawn := by
  cases h with
  | count i | countLost i => simpa [IntentCall.keys] using hc
  | found i fresh now => simpa [IntentCall.keys] using hc
  | read status hget => simpa [IntentCall.keys] using hfits.key_of_get hget
  | notFound i | persist i | persistLost i | readNothing id status | write i status
  | writeLost i status => simp

theorem flatMap_running_keys (launched : Option Uuid) :
    (launched.toList.map Party.running).flatMap Party.keys = [] := by
  cases launched <;> simp [Party.keys]

theorem flatMap_calling_keys (call : Option IntentCall) :
    (call.toList.map Party.calling).flatMap Party.keys = call.toList.flatMap IntentCall.keys := by
  cases call <;> simp [Party.keys]

theorem replayCall_keys (i : ListedIntent) :
    ∀ k ∈ (replayCall i).keys, k = i.key := by
  unfold replayCall
  split_ifs <;> simp [IntentCall.keys, ListedIntent.key]

theorem PartyStep.keys {drawn : List (Uuid × String)} {a : IntentMove} (h : PartyStep t p a t' ps)
    (hfits : t.Fits drawn) (hp : ∀ k ∈ p.keys, k ∈ drawn) :
    ∀ k ∈ ps.flatMap Party.keys, k ∈ drawn := by
  cases h with
  | list =>
    intro k hk
    simp only [List.flatMap_singleton, Party.keys, Option.toList_none, List.flatMap_nil, List.nil_append,
      List.mem_map] at hk
    obtain ⟨i, hi, rfl⟩ := hk
    obtain ⟨-, -, hget⟩ := IntentTables.mem_listUnterminated hi
    exact hfits.key_of_get hget
  | next i pending =>
    intro k hk
    simp only [List.flatMap_singleton, Party.keys, Option.toList_some, List.mem_append] at hk
    obtain hk | hk := hk
    · rw [replayCall_keys i k hk]
      exact hp _ (by simp [Party.keys])
    · refine hp k ?_
      rw [Party.keys, List.map_cons]
      exact List.mem_append_right _ (List.mem_cons_of_mem _ hk)
  | replay pending hc =>
    intro k hk
    rw [List.flatMap_append, flatMap_running_keys, List.nil_append, List.flatMap_singleton, Party.keys,
      List.mem_append] at hk
    obtain hk | hk := hk
    · refine hc.keys hfits ?_ k hk
      intro k' hk'
      exact hp k' (by simp [Party.keys, hk'])
    · refine hp k ?_
      rw [Party.keys]
      exact List.mem_append_right _ hk
  | call hc =>
    rw [List.flatMap_append, flatMap_running_keys, List.nil_append, flatMap_calling_keys]
    exact hc.keys hfits hp
  | finish id status => simp [Party.keys, IntentCall.keys]
  | collect victims => simp
  | drop => simp

theorem Party.key_of_opens {i : ListedIntent} (h : i ∈ p.opens) : i.key ∈ p.keys := by
  have hcall : ∀ call : IntentCall, i ∈ call.opens → i.key ∈ call.keys := by
    intro call hi
    cases call <;> simp_all [IntentCall.opens, IntentCall.keys]
  cases p with
  | boot | running id | collecting victims => simp [Party.opens] at h
  | calling call => exact hcall call h
  | replaying call pending =>
    rw [Party.opens, List.mem_append] at h
    rw [Party.keys, List.mem_append]
    obtain h | h := h
    · obtain ⟨call, hcm, hi⟩ := List.mem_flatMap.mp h
      exact .inl (List.mem_flatMap.mpr ⟨call, hcm, hcall call hi⟩)
    · exact .inr (List.mem_map_of_mem h)

theorem Party.runId_of_opens {i : ListedIntent} (h : i ∈ p.opens) : i.runId ∈ p.owns := by
  have hcall : ∀ call : IntentCall, i ∈ call.opens → i.runId = call.runId := by
    intro call hi
    cases call <;> simp_all [IntentCall.opens, IntentCall.runId]
  cases p with
  | boot | running id | collecting victims => simp [Party.opens] at h
  | calling call =>
    rw [Party.owns, List.mem_singleton]
    exact hcall call h
  | replaying call pending =>
    rw [Party.opens, List.mem_append] at h
    rw [Party.owns, List.mem_append]
    obtain h | h := h
    · obtain ⟨call, hcm, hi⟩ := List.mem_flatMap.mp h
      exact .inl (List.mem_map.mpr ⟨call, hcm, (hcall call hi).symm⟩)
    · exact .inr (List.mem_map_of_mem h)

end Effects

end Konf.Runner
