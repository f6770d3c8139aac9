import Konf.Runtime.Interaction
import Konf.Runtime.NodeOrder

/-! # What the journal tells of a run's nodes

Every lifecycle event of a run is built into an entry and appended once, or dropped when the append
fails. Read back, the row says which node of which run has done what. -/

namespace Konf.Interactions
open Konf.Substrate Konf.Executor Konf.Runtime Konf.Transition Konf.Journal
set_option autoImplicit false

/-! ## Reports -/

/-- What a row tells of an event of a node. -/
structure NodeReport where
  nodeId : String
  tool : String
  phase : String
  status : InteractionStatus
  attempt : Option ℕ
  error : Option String
deriving DecidableEq

def reportOf : ExecutorEvent → NodeReport
  | .nodeStarted nodeId tool => ⟨nodeId, tool, "start", .pending, none, none⟩
  | .nodeCompleted nodeId tool _ => ⟨nodeId, tool, "end", .ok, none, none⟩
  | .nodeFailed nodeId tool error => ⟨nodeId, tool, "failed", .failed error, none, none⟩
  | .toolRetry nodeId tool attempt error => ⟨nodeId, tool, "retry", .pending, some attempt, some error⟩

/-- The report that an interaction carries in its attributes. -/
def Interaction.report {Instant : Type} (i : Interaction Instant) : Option NodeReport := do
  let nodeId ← i.nodeId
  let tool ← (i.attributes.get "tool").bind Json.asStr
  let phase ← (i.attributes.get "phase").bind Json.asStr
  some ⟨nodeId, tool, phase, i.status, (i.attributes.get "attempt").bind Json.asU64,
    (i.attributes.get "error").bind Json.asStr⟩

section
variable {lib : Externals} {Instant : Type} {f : Formats lib Instant} {h : RuntimeHooks} {stamp : Stamp}

/-- The interaction that `build_node_interaction_entry` builds of an event, with these attributes. -/
def nodeRecord (h : RuntimeHooks) (stamp : Stamp) (t : Instant) (e : ExecutorEvent) (attributes : Json) :
    Interaction Instant where
  id := stamp.id
  parentId := none
  traceId := h.traceId
  runId := some h.runId
  nodeId := some (reportOf e).nodeId
  actor := h.actor
  namespace_ := h.namespace_
  target := "node:" ++ (reportOf e).nodeId
  kind := .nodeLifecycle
  attributes := attributes
  edgeRulesFired := []
  status := (reportOf e).status
  summary := none
  timestamp := t
  stepIndex := 0
  streamId := ""
  stateBeforeHash := none
  stateAfterHash := none
  references := []
  inReplyTo := none

/-- The payload of an event's entry is the JSON of an interaction that reports the event. -/
theorem eventEntry_eq (e : ExecutorEvent) {t : Instant}
    (ht : (h.eventEntry lib stamp e).payload.get "timestamp" = some (.str (f.formatTime t))) :
    ∃ attributes, (h.eventEntry lib stamp e).payload = (nodeRecord h stamp t e attributes).toJson f ∧
      (nodeRecord h stamp t e attributes).report = some (reportOf e) := by
  have htime : Json.str stamp.timestamp = .str (f.formatTime t) := by
    cases e <;> exact Option.some.inj ht
  refine ⟨((h.eventEntry lib stamp e).payload.get "attributes").getD .null, ?_, ?_⟩
  · cases e <;> simp only [RuntimeHooks.eventEntry, RuntimeHooks.buildNodeInteractionEntry,
      RuntimeHooks.entry, htime] <;> rfl
  · cases e <;> simp [nodeRecord, Interaction.report, reportOf, RuntimeHooks.eventEntry,
      RuntimeHooks.buildNodeInteractionEntry, RuntimeHooks.entry, Json.get, List.lookup_cons,
      Json.lookup_insertField_self, Json.lookup_insertField_ne, Json.asStr]

end

/-! ## Every event, once -/

/-- The events of a run and the rows that have been written of them. -/
structure Journaled (l : Launch) (runId : Uuid) (o : Observed) : Prop where
  balance : (o.written.filterMap Prod.snd ++ (o.spawned.map Prod.fst ++ o.dropped)).Perm o.log
  entries : ∀ p ∈ o.spawned, ∃ stamp, p.2 = (l.hooks runId).eventEntry l.sys.lib stamp p.1.event
  kept : ∀ w ∈ o.written, ∃ stored, (w.1, stored) ∈ o.journal.events.rows ∧ stored.validToMicros = none
  rows : ∀ i e, (i, some e) ∈ o.written → ∃ now stamp, (i, StoredEntry.fromEntry now
    ((l.hooks runId).eventEntry l.sys.lib stamp e.event)) ∈ o.journal.events.rows
  once : (o.written.map Prod.fst).Nodup

namespace Journaled
variable {l : Launch} {runId : Uuid} {o o' : Observed}

theorem onEvent (h : Journaled l runId o) (stamp : Stamp) (e : NodeEvent) :
    Journaled l runId (o.onEvent l runId stamp e) := by
  refine { h with balance := ?_, entries := ?_ }
  · show (o.written.filterMap Prod.snd ++ ((o.spawned ++ [_]).map Prod.fst ++ o.dropped)).Perm
      (o.log ++ [e])
    have hbalance := h.balance.append_right [e]
    rw [List.append_assoc, List.append_assoc] at hbalance
    rw [List.map_append, List.append_assoc]
    exact ((List.perm_append_comm.append_left _).append_left _).trans hbalance
  · intro p hp
    obtain hp | hp := List.mem_append.mp hp
    · exact h.entries p hp
    · rw [List.mem_singleton.mp hp]
      exact ⟨stamp, rfl⟩

theorem withRun (h : Journaled l runId o) (r' : LiveRun) : Journaled l runId { o with run := r' } :=
  ⟨h.balance, h.entries, h.kept, h.rows, h.once⟩

theorem raise (h : Journaled l runId o) (stamp : Stamp) (e : Option NodeEvent) :
    Journaled l runId (o.raise l runId stamp e) := by
  cases e with
  | none => exact h
  | some e => exact h.onEvent stamp e

/-- The journal keeps the rows of the run. -/
theorem journal (h : Journaled l runId o) {j : RedbJournal}
    (hkeeps : ∀ r ∈ o.journal.events.rows, r.2.validToMicros = none → r ∈ j.events.rows) :
    Journaled l runId { o with journal := j } := by
  refine { h with kept := ?_, rows := ?_ }
  · intro w hw
    obtain ⟨stored, hrow, hforever⟩ := h.kept w hw
    exact ⟨stored, hkeeps _ hrow hforever, hforever⟩
  · intro i e hw
    obtain ⟨now, stamp, hrow⟩ := h.rows i e hw
    exact ⟨now, stamp, hkeeps _ hrow (RuntimeHooks.eventEntry_validTo ..)⟩

/-- An append of the run, of a task that was waiting or of the watcher. -/
theorem write (h : Journaled l runId o) {spawned : List (NodeEvent × JournalEntry)} {now : Time}
    {entry : JournalEntry} {e : Option NodeEvent} {r' : LiveRun}
    (hforever : (StoredEntry.fromEntry now entry).validToMicros = none)
    (hentry : ∀ e₁, e = some e₁ → ∃ stamp, entry = (l.hooks runId).eventEntry l.sys.lib stamp e₁.event)
    (hspawned : (o.spawned.map Prod.fst).Perm (e.toList ++ spawned.map Prod.fst))
    (hsub : ∀ p ∈ spawned, p ∈ o.spawned) :
    Journaled l runId (({ o with run := r', spawned := spawned } : Observed).write now entry e) := by
  have hkeeps : ∀ r ∈ o.journal.events.rows, r ∈ (o.journal.append now entry).2.events.rows := by
    intro r hr
    rw [RedbJournal.append_rows]
    exact List.mem_append_left _ hr
  have hnew : (o.journal.nextId, StoredEntry.fromEntry now entry) ∈
      (o.journal.append now entry).2.events.rows := by
    rw [RedbJournal.append_rows]
    exact List.mem_append_right _ (List.mem_singleton_self _)
  refine ⟨?_, fun p hp => h.entries p (hsub p hp), ?_, ?_, ?_⟩
  · have hone : [(o.journal.nextId, e)].filterMap Prod.snd = e.toList := by
      cases e <;> rfl
    show ((o.written ++ [(o.journal.nextId, e)]).filterMap Prod.snd ++
      (spawned.map Prod.fst ++ o.dropped)).Perm o.log
    rw [List.filterMap_append, hone, List.append_assoc, ← List.append_assoc e.toList]
    exact ((hspawned.symm.append_right _).append_left _).trans h.balance
  · intro w hw
    obtain hw | hw := List.mem_append.mp hw
    · obtain ⟨stored, hrow, hlasts⟩ := h.kept w hw
      exact ⟨stored, hkeeps _ hrow, hlasts⟩
    · rw [List.mem_singleton.mp hw]
      exact ⟨_, hnew, hforever⟩
  · intro i e₁ hw
    obtain hw | hw := List.mem_append.mp hw
    · obtain ⟨at_, stamp, hrow⟩ := h.rows i e₁ hw
      exact ⟨at_, stamp, hkeeps _ hrow⟩
    · have hpair := Prod.mk.inj (List.mem_singleton.mp hw)
      obtain ⟨stamp, hstamp⟩ := hentry e₁ hpair.2.symm
      refine ⟨now, stamp, ?_⟩
      rw [hpair.1, ← hstamp]
      exact hnew
  · have hfresh : o.journal.nextId ∉ o.written.map Prod.fst := by
      intro hw
      obtain ⟨w, hw, hid⟩ := List.mem_map.mp hw
      obtain ⟨stored, hrow, -⟩ := h.kept w hw
      have hlt := RedbJournal.lt_nextId hrow
      have hid : w.1 = o.journal.nextId := hid
      omega
    show ((o.written ++ [(o.journal.nextId, e)]).map Prod.fst).Nodup
    rw [List.map_append]
    exact h.once.append (List.nodup_singleton _) (List.disjoint_singleton.mpr hfresh)

/-- The append of a task that was waiting fails. -/
theorem drop (h : Journaled l runId o) {k : ℕ} {e : NodeEvent} {entry : JournalEntry}
    (hk : o.spawned[k]? = some (e, entry)) :
    Journaled l runId { o with spawned := o.spawned.eraseIdx k, dropped := o.dropped ++ [e] } := by
  obtain ⟨hlt, hget⟩ := List.getElem?_eq_some_iff.mp hk
  have hperm := (List.getElem_cons_eraseIdx_perm hlt).map Prod.fst
  rw [hget] at hperm
  refine { h with balance := ?_, entries := fun p hp => h.entries p (List.mem_of_mem_eraseIdx hp) }
  have hmoved : ((o.spawned.eraseIdx k).map Prod.fst ++ (o.dropped ++ [e])).Perm
      (o.spawned.map Prod.fst ++ o.dropped) := by
    rw [← List.append_assoc]
    exact (List.perm_append_singleton ..).trans (hperm.append_right o.dropped)
  exact (hmoved.append_left _).trans h.balance

theorem step (h : Journaled l runId o) {m : ObservedMove} (hs : ObservedStep l runId o m o') :
    Journaled l runId o' := by
  cases hs with
  | work => exact (h.withRun _).raise _ _
  | retry => exact h.onEvent _ _
  | aside => exact h.withRun _
  | @append k e entry now r' hk =>
    obtain ⟨hlt, hget⟩ := List.getElem?_eq_some_iff.mp hk
    obtain ⟨stamp, hentry⟩ := h.entries (e, entry) (List.mem_of_getElem? hk)
    have hentry : entry = (l.hooks runId).eventEntry l.sys.lib stamp e.event := hentry
    refine h.write ?_ ?_ ?_ fun p => List.mem_of_mem_eraseIdx
    · rw [hentry]
      exact RuntimeHooks.eventEntry_validTo ..
    · rintro _ ⟨⟩
      exact ⟨stamp, hentry⟩
    · have hperm := (List.getElem_cons_eraseIdx_perm hlt).symm.map Prod.fst
      rw [hget] at hperm
      exact hperm
  | finish =>
    refine h.write rfl nofun ?_ fun p hp => hp
    exact .refl _
  | drop hk => exact h.drop hk
  | finishSilent => exact h.withRun _
  | others hstep => exact h.journal fun r hr hforever => hstep.keeps hr hforever

end Journaled

/-- However tasks, append tasks and the other users of the journal interleave: the events of a run are
those that have been written, those that wait for their append task and those whose append has failed,
each once; every written event has a row of its own, and read back, the row tells the event, its run, its
actor and its trace. -/
theorem node_rows_read {Instant : Type} {l : Launch} (f : Formats l.sys.lib Instant) (runId : Uuid)
    {o : Observed} (h : Reaches (ObservedStep l runId) l.ObservedStart o) :
    (o.written.filterMap Prod.snd ++ (o.spawned.map Prod.fst ++ o.dropped)).Perm o.log ∧
    (o.written.map Prod.fst).Nodup ∧
    ∀ i e, (i, some e) ∈ o.written → ∃ stored, (i, stored) ∈ o.journal.events.rows ∧
      ∀ t, stored.payload.get "timestamp" = some (.str (f.formatTime t)) →
        ∃ x, Interaction.fromJson f stored.payload = some x ∧ x.report = some (reportOf e.event) ∧
          x.runId = some runId ∧ x.actor = l.scope.actor ∧ x.namespace_ = l.scope.namespace_ ∧
          x.traceId = l.ctx.traceId := by
  have hjournaled : Journaled l runId o := by
    refine Reaches.invariant ?_ (fun _ _ _ _ hi hs => hi.step hs) h
    rintro o ⟨j, rfl⟩
    exact ⟨.refl _, nofun, nofun, nofun, List.nodup_nil⟩
  refine ⟨hjournaled.balance, hjournaled.once, ?_⟩
  intro i e hw
  obtain ⟨now, stamp, hrow⟩ := hjournaled.rows i e hw
  refine ⟨_, hrow, ?_⟩
  intro t ht
  obtain ⟨attributes, hpayload, hreport⟩ := eventEntry_eq e.event ht
  refine ⟨nodeRecord (l.hooks runId) stamp t e.event attributes, ?_, hreport, rfl, rfl, rfl, rfl⟩
  show Interaction.fromJson f ((l.hooks runId).eventEntry l.sys.lib stamp e.event).payload = _
  rw [hpayload]
  exact fromJson_toJson _

def decimalLaunch : Launch := { pairLaunch with sys := { pairLaunch.sys with lib := decimalExternals } }

/-- All events have one instant. -/
def demoFormats : Formats decimalLaunch.sys.lib Unit where
  formatTime _ := demoStamp.timestamp
  parseTime _ := some ()
  parse_formatTime _ := rfl
  parse_formatUuid := decimal_toString

/-- The rows of two steps, written out of order and around the terminal entry. -/
theorem node_rows_read_pair : ∃ o, Reaches (ObservedStep decimalLaunch 7) decimalLaunch.ObservedStart o ∧
    (o.written.filterMap Prod.snd).length = 4 ∧ ∀ i e, (i, some e) ∈ o.written →
      ∃ stored, (i, stored) ∈ o.journal.events.rows ∧ ∃ x,
        Interaction.fromJson demoFormats stored.payload = some x ∧ x.report = some (reportOf e.event) ∧
          x.runId = some 7 := by
  have hrun : (decimalLaunch.observe 7 (fun _ _ => True) (pairMoves ++
      ([.append 1 0, .append 1 0, .finish 0, .append 0 0, .append 0 0] : List ObservedMove))).any
      (fun o => decide ((o.written.filterMap Prod.snd).length = 4 ∧ ∀ w ∈ o.written, w.2.isSome = true →
        ∀ r ∈ o.journal.events.rows, r.1 = w.1 →
          (r.2.payload.get "timestamp").bind Json.asStr = some demoStamp.timestamp)) = true := by
    decide +kernel
  obtain ⟨o, hobserve, ho⟩ := (Option.any_eq_true ..).mp hrun
  obtain ⟨hlength, hstamps⟩ := of_decide_eq_true ho
  have hreach := Launch.observe_reaches hobserve
  refine ⟨o, hreach, hlength, ?_⟩
  intro i e hw
  obtain ⟨stored, hrow, hread⟩ := (node_rows_read demoFormats 7 hreach).2.2 i e hw
  have hstamp := hstamps _ hw rfl _ hrow rfl
  obtain ⟨v, hv, htext⟩ := Option.bind_eq_some_iff.mp hstamp
  cases v with
  | str text =>
    have htext : text = demoStamp.timestamp := Option.some.inj htext
    rw [htext] at hv
    obtain ⟨x, hx, hreport, hid, -⟩ := hread () hv
    exact ⟨stored, hrow, x, hx, hreport, hid⟩
  | _ => cases htext

end Konf.Interactions
