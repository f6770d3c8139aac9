import Konf.Runner.IntentWriters
import Konf.Runner.Replay

/-! # The invariants of the intent store

Every run id keeps the namespace it was drawn for, so the index by namespace is exact whatever the
writers do. That an intent stays terminal once it is rests on the runs: as long as no two writers are at
work on one run, who writes an intent without a terminal status finds it without one. The boot replay
breaks this where it lists a run that its own process has spawned. -/

namespace Konf.Runner
open Konf.Substrate Konf.Runtime Konf.Journal Konf.Transition
set_option autoImplicit false

section Runs
variable {s s' : IntentSystem} {a : IntentMove}

/-- Whatever is stored or in hand has an id that was drawn, under the namespace it was drawn for. -/
structure Keyed (s : IntentSystem) : Prop where
  drawn : (s.drawn.map Prod.fst).Nodup
  fits : s.tables.Fits s.drawn
  held : ∀ k ∈ s.parties.flatMap Party.keys, k ∈ s.drawn
  owned : ∀ id ∈ s.parties.flatMap Party.owns, id ∈ s.drawn.map Prod.fst

theorem keyed_booted (h : s.Booted) : Keyed s := by
  rw [IntentSystem.Booted] at h
  subst h
  refine ⟨List.nodup_nil, ⟨?_, Multimap.Indexes.empty⟩, ?_, ?_⟩
  · intro r hr
    simp [IntentTables.empty, RunnerIntentStore.empty, Table.empty] at hr
  · simp [Party.keys]
  · simp [Party.owns]

theorem mem_flatMap_act {α : Type} {f : Party → List α} {pre ps post : List Party} {x : α} :
    x ∈ (pre ++ ps ++ post).flatMap f ↔ x ∈ pre.flatMap f ∨ x ∈ ps.flatMap f ∨ x ∈ post.flatMap f := by
  simp only [List.flatMap_append, List.mem_append, or_assoc]

theorem mem_flatMap_before {α : Type} {f : Party → List α} {pre post : List Party} {p : Party} {x : α}
    (h : s.parties = pre ++ p :: post) :
    x ∈ s.parties.flatMap f ↔ x ∈ pre.flatMap f ∨ x ∈ f p ∨ x ∈ post.flatMap f := by
  rw [h, List.flatMap_append, List.flatMap_cons, List.mem_append, List.mem_append]

/-- A party lists, or it proceeds with the runs it is at work on. -/
theorem PartyStep.kind {t t' : IntentTables} {p : Party} {ps : List Party} (h : PartyStep t p a t' ps) :
    (p = .boot ∧ a = .list ∧ t' = t ∧ ps = [.replaying none t.listUnterminated]) ∨ a = .proceed := by
  cases h with
  | list => exact .inl ⟨rfl, rfl, rfl, rfl⟩
  | next i pending | replay pending hc | call hc | finish id status | collect victims | drop =>
    exact .inr rfl

theorem Keyed.step (h : Keyed s) (hs : IntentStep s a s') : Keyed s' := by
  cases hs with
  | restart => exact ⟨h.drawn, h.fits, by simp [Party.keys], by simp [Party.owns]⟩
  | spawn spec id now hfresh =>
    refine ⟨List.nodup_cons.mpr ⟨hfresh, h.drawn⟩, h.fits.mono _, ?_, ?_⟩
    · intro k hk
      rw [List.flatMap_cons, Party.keys, IntentCall.keys, List.singleton_append, List.mem_cons] at hk
      obtain rfl | hk := hk
      · exact List.mem_cons_self
      · exact List.mem_cons_of_mem _ (h.held k hk)
    · intro id' hid
      rw [List.flatMap_cons, Party.owns, List.singleton_append, List.mem_cons] at hid
      obtain rfl | hid := hid
      · exact List.mem_cons_self
      · exact List.mem_cons_of_mem _ (h.owned id' hid)
  | gc olderThan =>
    refine ⟨h.drawn, h.fits, ?_, h.owned⟩
    intro k hk
    rw [List.flatMap_cons, Party.keys, List.mem_append] at hk
    obtain hk | hk := hk
    · obtain ⟨r, hr, rfl, -⟩ := IntentTables.mem_victims hk
      exact h.fits.rows r hr
    · exact h.held k hk
  | @act p _ t' ps pre post hparties hp =>
    have hheld := fun k hk => h.held k ((mem_flatMap_before hparties).mpr hk)
    have howned := fun id hid => h.owned id ((mem_flatMap_before hparties).mpr hid)
    have hkeys : ∀ k ∈ p.keys, k ∈ s.drawn := fun k hk => hheld k (.inr (.inl hk))
    have hpskeys := hp.keys h.fits hkeys
    refine ⟨h.drawn, ?_, ?_, ?_⟩
    · obtain rfl | ⟨i, hi, rfl⟩ | ⟨i, status, rfl, hi, -⟩ | ⟨victims, rfl, rfl⟩ := hp.tables
      · exact h.fits
      · exact h.fits.insert h.drawn (hkeys _ (Party.key_of_opens hi))
      · exact h.fits.insert h.drawn (hkeys _ hi)
      · exact h.fits.removeAll h.drawn hkeys
    · intro k hk
      obtain hk | hk | hk := mem_flatMap_act.mp hk
      · exact hheld k (.inl hk)
      · exact hpskeys k hk
      · exact hheld k (.inr (.inr hk))
    · intro id hid
      obtain hid | hnew | hid := mem_flatMap_act.mp hid
      · exact howned id (.inl hid)
      · obtain ⟨rfl, -, rfl, rfl⟩ | rfl := hp.kind
        · -- the listed intents are stored, hence drawn
          rw [List.flatMap_singleton, Party.owns, Option.toList_none, List.map_nil, List.nil_append,
            List.mem_map] at hnew
          obtain ⟨i, hi, rfl⟩ := hnew
          exact List.mem_map_of_mem (h.fits.key_of_get (IntentTables.mem_listUnterminated hi).2.2)
        · exact howned id (.inr (.inl (hp.owns.subset hnew)))
      · exact howned id (.inr (.inr hid))

theorem keyed (h : Reaches IntentStep IntentSystem.Booted s) : Keyed s :=
  h.invariant (fun _ => keyed_booted) fun _ _ _ _ hk hs => hk.step hs

theorem Keyed.drawn_of_status (h : Keyed s) {id : Uuid} (hid : s.tables.status id ≠ none) :
    id ∈ s.drawn.map Prod.fst := by
  cases hget : s.tables.get id with
  | none =>
    rw [IntentTables.status, hget] at hid
    exact absurd rfl hid
  | some i =>
    rw [← IntentTables.runId_of_get hget]
    exact List.mem_map_of_mem (h.fits.key_of_get hget)

/-! ## A terminal status is kept -/

/-- The boot lists no intent that its own process is at work on. -/
def ListsForsaken (s : IntentSystem) (a : IntentMove) : Prop :=
  a = .list → ∀ i ∈ s.tables.listUnterminated, i.runId ∉ s.parties.flatMap Party.owns

/-- The intent is terminal or gone, and nobody is about to write it without a terminal status. -/
structure Sealed (s : IntentSystem) (id : Uuid) : Prop where
  terminal : s.tables.status id ≠ some none
  unopened : ∀ i ∈ s.parties.flatMap Party.opens, i.runId ≠ id
  drawn : id ∈ s.drawn.map Prod.fst

/-- No two parties are at work on one run, who may write an intent without a terminal status finds it
without one, and what `gc` has selected is sealed. -/
structure Guarded (s : IntentSystem) : Prop where
  nodup : (s.parties.flatMap Party.owns).Nodup
  opens : ∀ i ∈ s.parties.flatMap Party.opens,
    i.terminal = none ∧ ∀ status, s.tables.status i.runId ≠ some (some status)
  collected : ∀ victims, .collecting victims ∈ s.parties → ∀ v ∈ victims, Sealed s v.1

theorem Sealed.step {id : Uuid} (h : Sealed s id) (hs : IntentStep s a s') : Sealed s' id := by
  cases hs with
  | restart => exact ⟨h.terminal, by simp [Party.opens], h.drawn⟩
  | spawn spec id' now hfresh =>
    refine ⟨h.terminal, ?_, List.mem_cons_of_mem _ h.drawn⟩
    intro i hi
    rw [List.flatMap_cons, Party.opens, IntentCall.opens, List.singleton_append, List.mem_cons] at hi
    obtain rfl | hi := hi
    · rintro rfl
      exact hfresh h.drawn
    · exact h.unopened i hi
  | gc olderThan => exact ⟨h.terminal, h.unopened, h.drawn⟩
  | @act p _ t' ps pre post hparties hp =>
    have hopens := fun i hi => h.unopened i ((mem_flatMap_before hparties).mpr hi)
    refine ⟨?_, ?_, h.drawn⟩
    · obtain rfl | ⟨i, hi, rfl⟩ | ⟨i, status, rfl, -⟩ | ⟨victims, -, rfl⟩ := hp.tables
      · exact h.terminal
      · have hne := hopens i (.inr (.inl hi))
        simp only [IntentTables.status_insert, Ne.symm hne, if_false]
        exact h.terminal
      · simp only [IntentTables.status_insert]
        split_ifs
        · simp [ListedIntent.markTerminal]
        · exact h.terminal
      · simp only [IntentTables.status_removeAll]
        split_ifs
        · simp
        · exact h.terminal
    · intro i hi
      obtain hi | hnew | hi := mem_flatMap_act.mp hi
      · exact hopens i (.inl hi)
      · obtain ⟨rfl, -, rfl, rfl⟩ | rfl := hp.kind
        · rw [List.flatMap_singleton, Party.opens, Option.toList_none, List.flatMap_nil,
            List.nil_append] at hnew
          rintro rfl
          exact h.terminal (IntentTables.mem_listUnterminated hnew).2.1
        · obtain ⟨j, hj, hid, -⟩ := hp.follows i hnew
          rw [hid]
          exact hopens j (.inr (.inl hj))
      · exact hopens i (.inr (.inr hi))

theorem Guarded.sealed (hg : Guarded s) (hk : Keyed s) {id : Uuid} {status : TerminalStatus}
    (h : s.tables.status id = some (some status)) : Sealed s id := by
  refine ⟨by simp [h], ?_, hk.drawn_of_status (by simp [h])⟩
  rintro i hi rfl
  exact (hg.opens i hi).2 status h

theorem guarded_booted (h : s.Booted) : Guarded s := by
  rw [IntentSystem.Booted] at h
  subst h
  refine ⟨by simp [Party.owns], by simp [Party.opens], ?_⟩
  intro victims hv
  simp at hv

/-- The ids a party is at work on after it has proceeded do not clash with those of the others. -/
theorem Guarded.nodup_act (hg : Guarded s) {pre post : List Party} {p : Party} {ids : List Uuid}
    (hparties : s.parties = pre ++ p :: post) (hids : ids.Sublist p.owns) :
    (pre.flatMap Party.owns ++ (ids ++ post.flatMap Party.owns)).Nodup := by
  have hnodup := hg.nodup
  rw [hparties, List.flatMap_append, List.flatMap_cons] at hnodup
  exact hnodup.sublist ((List.Sublist.refl _).append (hids.append (List.Sublist.refl _)))

theorem Guarded.nodup_list (hg : Guarded s) {pre post : List Party}
    (hparties : s.parties = pre ++ .boot :: post) (hok : ListsForsaken s .list) :
    (pre.flatMap Party.owns ++ (s.tables.listUnterminated.map (fun i => i.runId) ++
      post.flatMap Party.owns)).Nodup := by
  have hnodup := hg.nodup_act hparties (List.nil_sublist _)
  rw [List.nil_append, List.nodup_append'] at hnodup
  obtain ⟨hpre, hpost, hdisj⟩ := hnodup
  have hnew : ∀ id ∈ s.tables.listUnterminated.map (fun i => i.runId),
      id ∉ pre.flatMap Party.owns ∧ id ∉ post.flatMap Party.owns := by
    intro id hid
    obtain ⟨i, hi, rfl⟩ := List.mem_map.mp hid
    have hnone := hok rfl i hi
    rw [mem_flatMap_before hparties] at hnone
    exact ⟨fun h => hnone (.inl h), fun h => hnone (.inr (.inr h))⟩
  rw [List.nodup_append', List.nodup_append']
  refine ⟨hpre, ⟨s.tables.listUnterminated_nodup, hpost, ?_⟩, ?_⟩
  · intro id hid hid'
    exact (hnew id hid).2 hid'
  · intro id hid hid'
    obtain hid' | hid' := List.mem_append.mp hid'
    · exact (hnew id hid').1 hid
    · exact hdisj hid hid'

/-- Whether the party has listed or proceeded, no two parties are at work on one run. -/
theorem Guarded.nodup_after (hg : Guarded s) (hok : ListsForsaken s a) {pre post ps : List Party}
    {p : Party} {t' : IntentTables} (hparties : s.parties = pre ++ p :: post)
    (hp : PartyStep s.tables p a t' ps) :
    (pre.flatMap Party.owns ++ (ps.flatMap Party.owns ++ post.flatMap Party.owns)).Nodup := by
  obtain ⟨rfl, rfl, rfl, rfl⟩ | rfl := hp.kind
  · simpa [Party.owns] using hg.nodup_list hparties hok
  · exact hg.nodup_act hparties hp.owns

/-- Who may write an intent without a terminal status after a step has found it without one before. -/
theorem Guarded.opens_act (hg : Guarded s) {pre post ps : List Party} {p : Party} {t' : IntentTables}
    (hparties : s.parties = pre ++ p :: post) (hp : PartyStep s.tables p a t' ps) {i : ListedIntent}
    (hi : i ∈ (pre ++ ps ++ post).flatMap Party.opens) :
    i.terminal = none ∧ ∀ status, s.tables.status i.runId ≠ some (some status) := by
  have hopens := fun i hi => hg.opens i ((mem_flatMap_before hparties).mpr hi)
  obtain hi | hnew | hi := mem_flatMap_act.mp hi
  · exact hopens i (.inl hi)
  · obtain ⟨rfl, -, rfl, rfl⟩ | rfl := hp.kind
    · rw [List.flatMap_singleton, Party.opens, Option.toList_none, List.flatMap_nil,
        List.nil_append] at hnew
      obtain ⟨hterminal, hstatus, -⟩ := IntentTables.mem_listUnterminated hnew
      exact ⟨hterminal, by simp [hstatus]⟩
    · obtain ⟨j, hj, hid, hterminal⟩ := hp.follows i hnew
      have hjopen := hopens j (.inr (.inl hj))
      exact ⟨hterminal hjopen.1, hid ▸ hjopen.2⟩
  · exact hopens i (.inr (.inr hi))

theorem Party.runId_of_flatMap {parties : List Party} {i : ListedIntent}
    (h : i ∈ parties.flatMap Party.opens) : i.runId ∈ parties.flatMap Party.owns := by
  obtain ⟨p, hp, hi⟩ := List.mem_flatMap.mp h
  exact List.mem_flatMap.mpr ⟨p, hp, Party.runId_of_opens hi⟩

/-- It finds it without one also after the step: the step may have ended another run, not this one. -/
theorem Guarded.opens_after (hg : Guarded s) {pre post ps : List Party} {p : Party} {t' : IntentTables}
    (hparties : s.parties = pre ++ p :: post) (hp : PartyStep s.tables p a t' ps) {i : ListedIntent}
    (hi : i ∈ (pre ++ ps ++ post).flatMap Party.opens) :
    i.terminal = none ∧ ∀ status, t'.status i.runId ≠ some (some status) := by
  obtain ⟨hterminal, hopen⟩ := hg.opens_act hparties hp hi
  refine ⟨hterminal, ?_⟩
  intro status
  obtain rfl | ⟨j, hj, rfl⟩ | ⟨j, status', rfl, -, howns⟩ | ⟨victims, -, rfl⟩ := hp.tables
  · exact hopen status
  · have hjopen := (hg.opens j ((mem_flatMap_before hparties).mpr (.inr (.inl hj)))).1
    simp only [IntentTables.status_insert, hjopen]
    split_ifs
    · simp
    · exact hopen status
  · -- the run of this write is no longer owned
    have hne : i.runId ≠ j.runId := by
      intro heq
      have hnodup := hg.nodup_act hparties howns
      have hmem := Party.runId_of_flatMap hi
      rw [mem_flatMap_act, heq] at hmem
      rw [List.cons_append, List.nodup_middle, List.nodup_cons, List.mem_append,
        List.mem_append] at hnodup
      exact hnodup.1 hmem
    simp only [IntentTables.status_insert, ListedIntent.markTerminal_runId, hne, if_false]
    exact hopen status
  · simp only [IntentTables.status_removeAll]
    split_ifs
    · simp
    · exact hopen status

theorem Guarded.step (hg : Guarded s) (hk : Keyed s) (hok : ListsForsaken s a) (hs : IntentStep s a s') :
    Guarded s' := by
  have hs' := hs
  cases hs with
  | restart =>
    refine ⟨by simp [Party.owns], by simp [Party.opens], ?_⟩
    intro victims hv
    simp at hv
  | spawn spec id now hfresh =>
    refine ⟨?_, ?_, ?_⟩
    · rw [List.flatMap_cons, Party.owns, List.singleton_append, List.nodup_cons]
      exact ⟨fun hid => hfresh (hk.owned _ hid), hg.nodup⟩
    · intro i hi
      rw [List.flatMap_cons, Party.opens, IntentCall.opens, List.singleton_append, List.mem_cons] at hi
      obtain rfl | hi := hi
      · refine ⟨rfl, ?_⟩
        intro status hstatus
        have hnew : s.tables.status id = some (some status) := hstatus
        exact hfresh (hk.drawn_of_status (by simp [hnew]))
      · exact hg.opens i hi
    · intro victims hv v hmem
      have hv : .collecting victims ∈ s.parties := by simpa using hv
      exact (hg.collected victims hv v hmem).step hs'
  | gc olderThan =>
    refine ⟨hg.nodup, hg.opens, ?_⟩
    intro victims hv v hmem
    obtain heq | hv := List.mem_cons.mp hv
    · cases heq
      obtain ⟨r, hr, rfl, hterminal⟩ := IntentTables.mem_victims hmem
      obtain ⟨status, hstatus⟩ := Option.isSome_iff_exists.mp hterminal
      have hsealed : Sealed s r.1 := hg.sealed hk (hstatus ▸ IntentTables.status_of_row hr)
      exact hsealed.step hs'
    · exact (hg.collected victims hv v hmem).step hs'
  | @act p _ t' ps pre post hparties hp =>
    refine ⟨?_, fun i hi => hg.opens_after hparties hp hi, ?_⟩
    · rw [List.append_assoc, List.flatMap_append, List.flatMap_append]
      exact hg.nodup_after hok hparties hp
    · intro victims hv v hmem
      have hold : .collecting victims ∈ s.parties := by
        rw [List.append_assoc, List.mem_append, List.mem_append] at hv
        rw [hparties, List.mem_append, List.mem_cons]
        obtain hv | hv | hv := hv
        · exact .inl hv
        · exact absurd hv (hp.not_collecting victims)
        · exact .inr (.inr hv)
      exact (hg.collected victims hold v hmem).step hs'

theorem guarded (h : ReachesBy IntentStep ListsForsaken IntentSystem.Booted s) : Guarded s := by
  refine h.invariant (fun _ => guarded_booted) ?_
  intro s a s' hreach hg hok hs
  exact hg.step (keyed hreach.reaches) hok hs

theorem Sealed.run {id : Uuid} (h : Sealed s id)
    (hrun : ReachesBy IntentStep ListsForsaken (fun x => x = s) s') : Sealed s' id :=
  hrun.invariant (fun _ heq => heq ▸ h) fun _ _ _ _ hc _ hs => hc.step hs

/-- No step removes an intent without a terminal status. -/
theorem Guarded.kept (hg : Guarded s) (hs : IntentStep s a s') {id : Uuid}
    (h : s.tables.status id = some none) : s'.tables.status id ≠ none := by
  cases hs with
  | restart | spawn spec id' now hfresh | gc olderThan => simp [h]
  | @act p _ t' ps pre post hparties hp =>
    obtain rfl | ⟨i, -, rfl⟩ | ⟨i, status, rfl, -⟩ | ⟨victims, rfl, rfl⟩ := hp.tables
    · simp [h]
    · simp only [IntentTables.status_insert]
      split_ifs <;> simp [h]
    · simp only [IntentTables.status_insert]
      split_ifs <;> simp [h]
    · have hnot : id ∉ victims.map Prod.fst := by
        intro hmem
        obtain ⟨v, hv, rfl⟩ := List.mem_map.mp hmem
        have hheld : Party.collecting victims ∈ s.parties := by simp [hparties]
        exact (hg.collected victims hheld v hv).terminal h
      simp [IntentTables.status_removeAll, hnot, h]

/-- In every run the index has exactly the pairs of the stored intents. In every run in which the boot
lists no intent that its own process is at work on, an intent that has become terminal is never again
without a terminal status, and no step removes one that is without. -/
theorem intents_durable_monotone (s : IntentSystem) :
    (Reaches IntentStep IntentSystem.Booted s → s.tables.Indexed) ∧
    (ReachesBy IntentStep ListsForsaken IntentSystem.Booted s →
      (∀ id status, s.tables.status id = some (some status) →
        ∀ s', ReachesBy IntentStep ListsForsaken (fun x => x = s) s' → s'.tables.status id ≠ some none) ∧
      ∀ a s', IntentStep s a s' → ∀ id, s.tables.status id = some none → s'.tables.status id ≠ none) := by
  refine ⟨fun h => (keyed h).fits.indexed, ?_⟩
  intro h
  have hg := guarded h
  refine ⟨?_, fun a s' hs id => hg.kept hs⟩
  intro id status hstatus s' hrun
  exact ((hg.sealed (keyed h.reaches) hstatus).run hrun).terminal

end Runs

/-- The boot lists a run that was spawned before. The run ends, and is replayed after: its intent is
terminal no more. And `gc`, which had selected it in between, removes it then. -/
theorem listed_run_reopened : ∃ s s' s'', Reaches IntentStep IntentSystem.Booted s ∧
    s.tables.status 0 = some (some .succeeded) ∧
    ReachesBy IntentStep (fun _ _ => True) (fun x => x = s) s' ∧ s'.tables.status 0 = some none ∧
    IntentStep s' .proceed s'' ∧ s''.tables.status 0 = none := by
  let i : ListedIntent := .new innerSpec 0 0
  let ended : IntentTables := (IntentTables.empty.insert i).insert (i.markTerminal .succeeded)
  let s : IntentSystem := ⟨ended, [.replaying none [i]], [(0, innerSpec.parentScope.namespace_)]⟩
  have hboot : Reaches IntentStep IntentSystem.Booted ⟨.empty, [.boot], []⟩ := .start rfl
  have hspawned := hboot.tail trivial (.spawn innerSpec 0 0 (by simp))
  have hpersisted := hspawned.tail trivial (.act [] [.boot] rfl (.call (.persist i)))
  have hlisted := hpersisted.tail trivial (.act [.running 0] [] rfl .list)
  have hfinished := hlisted.tail trivial (.act [] [.replaying none [i]] rfl (.finish 0 .succeeded))
  have hread := hfinished.tail trivial
    (.act [] [.replaying none [i]] rfl (.call (.read .succeeded (i := i) rfl)))
  have hended : Reaches IntentStep IntentSystem.Booted s :=
    hread.tail trivial (.act [] [.replaying none [i]] rfl (.call (.write i .succeeded)))
  have hsame : ReachesBy IntentStep (fun _ _ => True) (fun x => x = s) s := .start rfl
  have hselected := hsame.tail trivial (.gc 1000)
  have hnext := hselected.tail trivial (.act [.collecting (ended.victims 1000)] [] rfl (.next i []))
  have hcounted := hnext.tail trivial
    (.act [.collecting (ended.victims 1000)] [] rfl (.replay [] (.count { i with replayCount := 1 })))
  refine ⟨s, _, _, hended, ?_, hcounted, ?_, .act [] _ rfl (.collect (ended.victims 1000)), ?_⟩
  · rfl
  · rfl
  · rfl

end Konf.Runner
