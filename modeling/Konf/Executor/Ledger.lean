import Konf.Foundations.Indexed
import Konf.Executor.Moves

/-! # The ledger of tasks and messages

What each task has sent, what the main loop has received, and what is still queued, in every state
of every run: each task sends its `SpawnNext` messages and then one `Node`, and the channel holds
exactly what was sent and not yet received. -/

namespace Konf.Executor
open Konf.Substrate Konf.Transition
set_option autoImplicit false

/-! ## Messages by sender -/

def Event.sentFrom (i : ℕ) : Event → Option FinishedInfo
  | .sent j m => if j = i then some m else none
  | _ => none

def Event.receivedFrom (i : ℕ) : Event → Option FinishedInfo
  | .received j m => if j = i then some m else none
  | _ => none

def sentBy (trace : List Event) (i : ℕ) : List FinishedInfo := trace.filterMap (Event.sentFrom i)

def receivedBy (trace : List Event) (i : ℕ) : List FinishedInfo :=
  trace.filterMap (Event.receivedFrom i)

def queuedBy (channel : List (ℕ × FinishedInfo)) (i : ℕ) : List FinishedInfo :=
  (channel.filter fun p => p.1 = i).map Prod.snd

/-- The tasks whose `Node` message the main loop has received. -/
def nodeSenders (trace : List Event) : List ℕ :=
  trace.filterMap fun
    | .received i (.node _) => some i
    | _ => none

/-- What a task has sent when it returns: `SpawnNext` messages and then one `Node`. -/
def Farewell (msgs : List FinishedInfo) : Prop :=
  ∃ (targets : List StepId) (n : StepId), msgs = targets.map .spawnNext ++ [.node n]

theorem farewell_node (n : StepId) : Farewell [.node n] := ⟨[], n, rfl⟩

theorem farewell_targets (targets : List EdgeTarget) (n : StepId) :
    Farewell (targets.filterMap spawnMessage ++ [.node n]) := by
  obtain ⟨ids, hids⟩ : ∃ ids : List StepId, targets.filterMap spawnMessage = ids.map .spawnNext := by
    induction targets with
    | nil => exact ⟨[], rfl⟩
    | cons target targets ih =>
      obtain ⟨ids, hids⟩ := ih
      cases target with
      | step x => exact ⟨x :: ids, by simp [spawnMessage, hids]⟩
      | ret => exact ⟨ids, hids⟩
  exact ⟨ids, n, by rw [hids]⟩

theorem Farewell.ne_nil {msgs : List FinishedInfo} (h : Farewell msgs) : msgs ≠ [] := by
  obtain ⟨targets, n, rfl⟩ := h
  simp

/-- Nothing follows a `Node` message. -/
theorem Farewell.node_last {pre post : List FinishedInfo} {n : StepId}
    (h : ∃ rest, Farewell ((pre ++ .node n :: post) ++ rest)) : post = [] := by
  obtain ⟨rest, targets, n', heq⟩ := h
  rw [List.append_assoc, List.cons_append] at heq
  have hmem : FinishedInfo.node n ∉ targets.map FinishedInfo.spawnNext := by simp
  obtain ⟨mid, htargets, htail⟩ | ⟨mid, hpre, htail⟩ := List.append_eq_append_iff.mp heq
  · cases mid with
    | nil =>
      have hnil : post ++ rest = [] := by simpa using (List.cons.inj htail).2
      exact (List.append_eq_nil_iff.mp hnil).1
    | cons m mid =>
      have hm : m = .node n := (List.cons.inj htail).1.symm
      rw [htargets, hm] at hmem
      simp at hmem
  · cases mid with
    | nil =>
      have hnil : post ++ rest = [] := by simpa using (List.cons.inj htail).2.symm
      exact (List.append_eq_nil_iff.mp hnil).1
    | cons m mid =>
      have hlen := congrArg List.length htail
      simp at hlen

/-! ## The ledger -/

section Append
variable (l l' : List Event) (c c' : List (ℕ × FinishedInfo)) (i : ℕ)

@[simp] theorem sentBy_append : sentBy (l ++ l') i = sentBy l i ++ sentBy l' i :=
  List.filterMap_append

@[simp] theorem receivedBy_append : receivedBy (l ++ l') i = receivedBy l i ++ receivedBy l' i :=
  List.filterMap_append

@[simp] theorem nodeSenders_append : nodeSenders (l ++ l') = nodeSenders l ++ nodeSenders l' :=
  List.filterMap_append

@[simp] theorem queuedBy_append : queuedBy (c ++ c') i = queuedBy c i ++ queuedBy c' i := by
  rw [queuedBy, List.filter_append, List.map_append]
  rfl

@[simp] theorem queuedBy_cons (p : ℕ × FinishedInfo) :
    queuedBy (p :: c) i = if p.1 = i then p.2 :: queuedBy c i else queuedBy c i := by
  by_cases h : p.1 = i <;> simp [queuedBy, h]

end Append

/-- Events that are no concern of the main loop's accounting. -/
def Event.Local : Event → Prop
  | .sent _ _ | .received _ _ | .joined _ _ _ | .spawned _ _ => False
  | _ => True

/-- A task in its loop has sent nothing; one that leaves it has its messages to send. -/
def Owes (trace : List Event) (t : Task) : Prop :=
  match t.pc with
  | .sending msgs _ => Farewell (sentBy trace t.id ++ msgs)
  | _ => sentBy trace t.id = []

theorem owes_open {trace : List Event} {t : Task} (h : t.pc.Open) :
    Owes trace t ↔ sentBy trace t.id = [] := by
  unfold Owes
  split
  · rename_i hpc
    exact absurd hpc (h _ _)
  · exact Iff.rfl

theorem owes_sending {trace : List Event} {t : Task} {msgs : List FinishedInfo} {r : TaskResult}
    (h : t.pc = .sending msgs r) : Owes trace t ↔ Farewell (sentBy trace t.id ++ msgs) := by
  unfold Owes
  rw [h]

theorem owes_congr {trace trace' : List Event} {t : Task}
    (h : sentBy trace' t.id = sentBy trace t.id) : Owes trace' t ↔ Owes trace t := by
  unfold Owes
  rw [h]

/-- A move of a task changes nothing of the accounting, or leaves the loop with a complete list of
messages, or sends the next of them. -/
theorem Task.Move.account {env : ExecutorEnv} {s : State} {t t' : Task} {e : Option Event}
    (h : Task.Move env s t t' e) :
    t'.id = t.id ∧
      ((t.pc.Open ∧ (∀ ev ∈ e, ev.Local) ∧
          (t'.pc.Open ∨ ∃ msgs r, t'.pc = .sending msgs r ∧ Farewell msgs)) ∨
        ∃ m msgs r, t.pc = .sending (m :: msgs) r ∧ t'.pc = .sending msgs r ∧
          e = some (.sent t.id m)) := by
  have hopen : ∀ {pc : TaskPc}, t.pc = pc → (∀ msgs r, pc ≠ .sending msgs r) → t.pc.Open := by
    intro pc hpc hne
    rw [hpc]
    exact hne
  cases h with
  | abandon hpc =>
    exact ⟨rfl, .inl ⟨hpc, by simp, .inr ⟨_, _, rfl, farewell_node _⟩⟩⟩
  | fail hpc | skip hpc | fallback hpc =>
    refine ⟨rfl, .inl ⟨hopen hpc (by simp), ?_, .inr ⟨_, _, rfl, farewell_node _⟩⟩⟩
    simp [Event.Local]
  | fanOut hpc =>
    exact ⟨rfl, .inl ⟨hopen hpc (by simp), by simp, .inr ⟨_, _, rfl, farewell_targets _ _⟩⟩⟩
  | send hpc => exact ⟨rfl, .inr ⟨_, _, _, hpc, rfl, rfl⟩⟩
  | start hpc _ hto =>
    refine ⟨rfl, .inl ⟨hopen hpc (by simp), by simp, .inl ?_⟩⟩
    rcases hto with rfl | ⟨var, rfl, -⟩ <;> simp [TaskPc.Open]
  | record hpc hto =>
    refine ⟨rfl, .inl ⟨hopen hpc (by simp), by simp [Event.Local], .inl ?_⟩⟩
    rcases hto with rfl | rfl <;> simp [TaskPc.Open]
  | @answer seen a hpc =>
    unfold Task.answered
    cases env.executeStep a t.current seen <;>
      exact ⟨rfl, .inl ⟨hopen hpc (by simp), by simp, .inl (by simp [TaskPc.Open])⟩⟩
  | again hpc | leaveRepeat hpc | setVar hpc | enter hpc | read hpc | follow hpc | goto hpc =>
    refine ⟨rfl, .inl ⟨hopen hpc (by simp), ?_, .inl ?_⟩⟩
    · simp [Event.Local, Task.continueAt]
    · simp [TaskPc.Open, Task.continueAt]

/-- The accounting that holds in every state, whatever the main loop is doing. -/
structure Ledger (s : State) : Prop where
  ids : (s.tasks.map Task.id).Nodup
  ids_lt : ∀ t ∈ s.tasks, t.id < s.totalSpawned
  owes : ∀ t ∈ s.tasks, Owes s.trace t
  joined : ∀ i x r, Event.joined i x r ∈ s.trace →
    Farewell (sentBy s.trace i) ∧ i ∉ s.tasks.map Task.id
  unspawned : ∀ i, s.totalSpawned ≤ i → sentBy s.trace i = []
  unsent : ∀ i, ∃ rest, Farewell (sentBy s.trace i ++ rest)
  fifo : ∀ i, sentBy s.trace i = receivedBy s.trace i ++ queuedBy s.channel i
  finished : s.totalFinished = (nodeSenders s.trace).length
  senders : (nodeSenders s.trace).Nodup

section LedgerSteps
variable {env : ExecutorEnv} {s : State}

theorem local_silent {e : Option Event} (h : ∀ ev ∈ e, ev.Local) :
    (∀ i, sentBy e.toList i = []) ∧ (∀ i, receivedBy e.toList i = []) ∧
      nodeSenders e.toList = [] ∧ (∀ i x r, Event.joined i x r ∉ e.toList) ∧
      ∀ c, (e.map fun ev => ev.onChannel c).getD c = c := by
  cases e with
  | none => simp [sentBy, receivedBy, nodeSenders]
  | some ev =>
    have hev := h ev rfl
    cases ev <;> simp_all [Event.Local, sentBy, receivedBy, nodeSenders, Event.sentFrom,
      Event.receivedFrom, Event.onChannel]

theorem Ledger.ids_move (h : Ledger s) {k : ℕ} {t t' : Task} (hk : s.tasks[k]? = some t)
    (hid : t'.id = t.id) : ∀ u ∈ s.tasks.set k t', u.id < s.totalSpawned := by
  intro u hu
  obtain rfl | ⟨hu, -⟩ := (Indexed.mem_set h.ids hk).mp hu
  · rw [hid]
    exact h.ids_lt t (List.mem_of_getElem? hk)
  · exact h.ids_lt u hu

/-- Moves inside the loop, and the move that leaves it. -/
theorem Ledger.local_move (h : Ledger s) {k : ℕ} {t t' : Task} {e : Option Event}
    (hk : s.tasks[k]? = some t) (hid : t'.id = t.id) (hopen : t.pc.Open)
    (hlocal : ∀ ev ∈ e, ev.Local)
    (hto : t'.pc.Open ∨ ∃ msgs r, t'.pc = .sending msgs r ∧ Farewell msgs) :
    Ledger (s.move k t' e) := by
  obtain ⟨hsent, hrecv, hnode, hjoin, hchan⟩ := local_silent hlocal
  have hids : (s.tasks.set k t').map Task.id = s.tasks.map Task.id := Indexed.map_set hk hid
  have hnone := (owes_open hopen).mp (h.owes t (List.mem_of_getElem? hk))
  have hsame : ∀ i, sentBy (s.trace ++ e.toList) i = sentBy s.trace i := by
    intro i
    rw [sentBy_append, hsent, List.append_nil]
  constructor
  · simpa [hids] using h.ids
  · simpa using h.ids_move hk hid
  · intro u hu
    rw [State.move_tasks] at hu
    rw [State.move_trace, owes_congr (hsame u.id)]
    obtain rfl | ⟨hu, -⟩ := (Indexed.mem_set h.ids hk).mp hu
    · obtain hopen' | ⟨msgs, r, hpc', hbye⟩ := hto
      · rw [owes_open hopen', hid, hnone]
      · rw [owes_sending hpc', hid, hnone]
        exact hbye
    · exact h.owes u hu
  · intro i x r hmem
    rw [State.move_trace, List.mem_append] at hmem
    rw [State.move_trace, hsame, State.move_tasks, hids]
    exact h.joined i x r (hmem.resolve_right (hjoin i x r))
  · intro i hi
    rw [State.move_trace, hsame]
    exact h.unspawned i (by simpa using hi)
  · intro i
    rw [State.move_trace, hsame]
    exact h.unsent i
  · intro i
    rw [State.move_trace, hsame, receivedBy_append, hrecv, List.append_nil, State.move_channel,
      hchan]
    exact h.fifo i
  · simpa [hnode] using h.finished
  · simpa [hnode] using h.senders

theorem Ledger.send (h : Ledger s) {k : ℕ} {t t' : Task} {m : FinishedInfo}
    {msgs : List FinishedInfo} {r : TaskResult} (hk : s.tasks[k]? = some t) (hid : t'.id = t.id)
    (hpc : t.pc = .sending (m :: msgs) r) (hpc' : t'.pc = .sending msgs r) :
    Ledger (s.move k t' (some (.sent t.id m))) := by
  have ht := List.mem_of_getElem? hk
  have hids : (s.tasks.set k t').map Task.id = s.tasks.map Task.id := Indexed.map_set hk hid
  have hbye := (owes_sending hpc).mp (h.owes t ht)
  have hself : sentBy (s.trace ++ [.sent t.id m]) t.id = sentBy s.trace t.id ++ [m] := by
    simp [sentBy, Event.sentFrom]
  have hother : ∀ i, i ≠ t.id → sentBy (s.trace ++ [.sent t.id m]) i = sentBy s.trace i := by
    intro i hi
    simp [sentBy, Event.sentFrom, hi.symm]
  constructor
  · simpa [hids] using h.ids
  · simpa using h.ids_move hk hid
  · intro u hu
    rw [State.move_tasks] at hu
    rw [State.move_trace, Option.toList_some]
    obtain rfl | ⟨hu, hne⟩ := (Indexed.mem_set h.ids hk).mp hu
    · rw [owes_sending hpc', hid, hself, List.append_assoc]
      exact hbye
    · rw [owes_congr (hother u.id hne)]
      exact h.owes u hu
  · intro i x r' hmem
    rw [State.move_trace, Option.toList_some, List.mem_append] at hmem
    obtain ⟨hdone, hgone⟩ := h.joined i x r' (hmem.resolve_right (by simp))
    have hne : i ≠ t.id := fun heq => hgone (heq ▸ List.mem_map_of_mem ht)
    rw [State.move_trace, Option.toList_some, hother i hne, State.move_tasks, hids]
    exact ⟨hdone, hgone⟩
  · intro i hi
    rw [State.move_totalSpawned] at hi
    have hlt := h.ids_lt t ht
    rw [State.move_trace, Option.toList_some, hother i (by omega)]
    exact h.unspawned i hi
  · intro i
    rw [State.move_trace, Option.toList_some]
    by_cases hi : i = t.id
    · refine ⟨msgs, ?_⟩
      rw [hi, hself, List.append_assoc]
      exact hbye
    · rw [hother i hi]
      exact h.unsent i
  · intro i
    have hf := h.fifo i
    rw [State.move_trace, Option.toList_some, State.move_channel]
    by_cases hi : i = t.id
    · subst hi
      rw [hself, hf]
      simp [receivedBy, Event.receivedFrom, Event.onChannel, queuedBy]
    · have hi' : ¬ t.id = i := fun heq => hi heq.symm
      rw [hother i hi, hf]
      simp [receivedBy, Event.receivedFrom, Event.onChannel, queuedBy, hi']
  · simpa [nodeSenders] using h.finished
  · simpa [nodeSenders] using h.senders

theorem mem_nodeSenders {trace : List Event} {i : ℕ} (h : i ∈ nodeSenders trace) :
    ∃ n, FinishedInfo.node n ∈ receivedBy trace i := by
  obtain ⟨ev, hev, hi⟩ := List.mem_filterMap.mp h
  split at hi
  · rename_i j n
    cases hi
    exact ⟨n, List.mem_filterMap.mpr ⟨_, hev, if_pos rfl⟩⟩
  · cases hi

theorem nodeSenders_of_received {trace : List Event} {i : ℕ} {n : StepId}
    (h : FinishedInfo.node n ∈ receivedBy trace i) : i ∈ nodeSenders trace := by
  obtain ⟨ev, hev, hm⟩ := List.mem_filterMap.mp h
  refine List.mem_filterMap.mpr ⟨ev, hev, ?_⟩
  cases ev with
  | received j m =>
    rw [Event.receivedFrom] at hm
    split_ifs at hm with hj
    cases hm
    rw [hj]
  | _ => cases hm

theorem Ledger.queued_nil (h : Ledger s) {i : ℕ} (hi : i ∈ nodeSenders s.trace) :
    queuedBy s.channel i = [] := by
  obtain ⟨n, hn⟩ := mem_nodeSenders hi
  obtain ⟨pre, post, hsplit⟩ := List.append_of_mem hn
  obtain ⟨rest, hrest⟩ := h.unsent i
  rw [h.fifo i, hsplit] at hrest
  have hlast : post ++ queuedBy s.channel i = [] :=
    Farewell.node_last ⟨rest, by simpa [List.append_assoc] using hrest⟩
  exact (List.append_eq_nil_iff.mp hlast).2

theorem Ledger.receive (h : Ledger s) {k i : ℕ} {m : FinishedInfo} (order : List StepId)
    (hk : s.channel[k]? = some (i, m)) (hfifo : ∀ p ∈ s.channel.take k, p.1 ≠ i) :
    Ledger (s.receive k i m order) := by
  obtain ⟨c₁, c₂, hchan, htake, herase, -⟩ := Indexed.exists_split hk
  rw [← htake] at hfifo
  have hnone : queuedBy c₁ i = [] := by
    rw [queuedBy, List.filter_eq_nil_iff.mpr (by simpa using hfifo), List.map_nil]
  have hsent : ∀ j, sentBy (s.receive k i m order).trace j = sentBy s.trace j := by
    intro j
    simp [State.receive, sentBy, Event.sentFrom]
  -- `m` is still queued, so `i` has not sent its `Node` before
  have hnew : i ∉ nodeSenders s.trace := by
    intro hi
    have hq := h.queued_nil hi
    rw [hchan] at hq
    simp at hq
  refine ⟨h.ids, h.ids_lt, ?_, ?_, ?_, ?_, ?_, ?_, ?_⟩
  · intro u hu
    rw [owes_congr (hsent u.id)]
    exact h.owes u hu
  · intro j x r hmem
    rw [hsent]
    exact h.joined j x r (by simpa [State.receive] using hmem)
  · intro j hj
    rw [hsent]
    exact h.unspawned j hj
  · intro j
    rw [hsent]
    exact h.unsent j
  · intro j
    have hf := h.fifo j
    rw [hchan] at hf
    rw [hsent, hf]
    simp only [State.receive, receivedBy_append, herase, queuedBy_append]
    by_cases hj : i = j
    · subst hj
      simp [receivedBy, Event.receivedFrom, hnone]
    · simp [receivedBy, Event.receivedFrom, hj]
  · cases m with
    | node n => simpa [State.receive, nodeSenders] using h.finished
    | spawnNext x => simpa [State.receive, nodeSenders] using h.finished
  · cases m with
    | node n =>
      have hnd := h.senders.concat hnew
      simpa [State.receive, nodeSenders] using hnd
    | spawnNext x => simpa [State.receive, nodeSenders] using h.senders

theorem Ledger.join (h : Ledger s) {k : ℕ} {t : Task} {r : TaskResult}
    (hk : s.tasks[k]? = some t) (hpc : t.pc = .sending [] r) : Ledger (s.join env k t r) := by
  have hbye := (owes_sending hpc).mp (h.owes t (List.mem_of_getElem? hk))
  rw [List.append_nil] at hbye
  have hsent : ∀ j, sentBy (s.join env k t r).trace j = sentBy s.trace j := by
    intro j
    simp [State.join, sentBy, Event.sentFrom]
  refine ⟨Indexed.nodup_map_eraseIdx h.ids, ?_, ?_, ?_, ?_, ?_, ?_, ?_, ?_⟩
  · intro u hu
    exact h.ids_lt u ((Indexed.mem_eraseIdx h.ids hk).mp hu).1
  · intro u hu
    rw [owes_congr (hsent u.id)]
    exact h.owes u ((Indexed.mem_eraseIdx h.ids hk).mp hu).1
  · intro i x r' hmem
    have hgone : ∀ j, (j ∉ s.tasks.map Task.id ∨ j = t.id) →
        j ∉ (s.join env k t r).tasks.map Task.id := by
      intro j hj hmem
      obtain ⟨u, hu, rfl⟩ := List.mem_map.mp hmem
      obtain ⟨hu, hne⟩ := (Indexed.mem_eraseIdx h.ids hk).mp hu
      exact hj.elim (fun hj => hj (List.mem_map_of_mem hu)) hne
    rw [hsent]
    obtain hmem | hmem := List.mem_append.mp hmem
    · obtain ⟨hdone, hnot⟩ := h.joined i x r' hmem
      exact ⟨hdone, hgone i (.inl hnot)⟩
    · obtain ⟨rfl, -, -⟩ := Event.joined.inj (List.mem_singleton.mp hmem)
      exact ⟨hbye, hgone t.id (.inr rfl)⟩
  · intro i hi
    rw [hsent]
    exact h.unspawned i hi
  · intro i
    rw [hsent]
    exact h.unsent i
  · intro i
    rw [hsent, h.fifo i]
    simp [State.join, receivedBy, Event.receivedFrom]
  · simpa [State.join, nodeSenders] using h.finished
  · simpa [State.join, nodeSenders] using h.senders

theorem Ledger.spawn (h : Ledger s) (step : Step) (pc : MainPc) :
    Ledger { s.spawn step with main := pc } := by
  have hsent : ∀ j, sentBy (s.spawn step).trace j = sentBy s.trace j := by
    intro j
    simp [State.spawn, sentBy, Event.sentFrom]
  refine ⟨?_, ?_, ?_, ?_, ?_, ?_, ?_, ?_, ?_⟩
  · have hnew : s.totalSpawned ∉ s.tasks.map Task.id := by
      intro hmem
      obtain ⟨u, hu, heq⟩ := List.mem_map.mp hmem
      have hlt := h.ids_lt u hu
      omega
    have hnd := h.ids.concat hnew
    simpa [State.spawn, Task.spawned] using hnd
  · intro u hu
    obtain hu | hu := List.mem_append.mp hu
    · exact Nat.lt_succ_of_lt (h.ids_lt u hu)
    · rw [List.mem_singleton.mp hu]
      exact Nat.lt_succ_self _
  · intro u hu
    rw [owes_congr (hsent u.id)]
    obtain hu | hu := List.mem_append.mp hu
    · exact h.owes u hu
    · rw [List.mem_singleton.mp hu]
      exact h.unspawned _ (Nat.le_refl _)
  · intro i x r hmem
    obtain ⟨hdone, hgone⟩ := h.joined i x r (by simpa [State.spawn] using hmem)
    rw [hsent]
    refine ⟨hdone, ?_⟩
    have hlt : i < s.totalSpawned := by
      by_contra hge
      exact hdone.ne_nil (h.unspawned i (by omega))
    have hne : i ≠ s.totalSpawned := by omega
    simpa [State.spawn, Task.spawned, hne] using hgone
  · intro i hi
    rw [hsent]
    exact h.unspawned i (Nat.le_of_succ_le hi)
  · intro i
    rw [hsent]
    exact h.unsent i
  · intro i
    rw [hsent, h.fifo i]
    simp [State.spawn, receivedBy, Event.receivedFrom]
  · simpa [State.spawn, nodeSenders] using h.finished
  · simpa [State.spawn, nodeSenders] using h.senders

theorem Ledger.abort (h : Ledger s) (k : ℕ) :
    Ledger { s with tasks := s.tasks.eraseIdx k } := by
  refine ⟨Indexed.nodup_map_eraseIdx h.ids, ?_, ?_, ?_, h.unspawned, h.unsent, h.fifo, h.finished,
    h.senders⟩
  · intro u hu
    exact h.ids_lt u (List.mem_of_mem_eraseIdx hu)
  · intro u hu
    exact h.owes u (List.mem_of_mem_eraseIdx hu)
  · intro i x r hmem
    obtain ⟨hdone, hgone⟩ := h.joined i x r hmem
    refine ⟨hdone, fun hmem => hgone ?_⟩
    exact List.map_subset Task.id (List.eraseIdx_sublist _ _).subset hmem

theorem ledger_fresh (input : Json) (reachable : List StepId) (pc : MainPc) :
    Ledger (State.fresh input reachable pc) := by
  have hbye : ∃ rest, Farewell rest := ⟨_, farewell_node ""⟩
  constructor <;> simp [State.fresh, sentBy, receivedBy, queuedBy, nodeSenders, hbye]

theorem ledger_start (env : ExecutorEnv) (input : Json) : Ledger (start env input) := by
  unfold start
  split
  · exact (ledger_fresh _ _ _).spawn _ .select
  · exact ledger_fresh _ _ _

theorem Ledger.step {s' : State} {c : Choice env.Answer} (h : Ledger s) (hs : Trans env s c s') :
    Ledger s' := by
  cases hs.kind with
  | silent pc b =>
    exact ⟨h.ids, h.ids_lt, h.owes, h.joined, h.unspawned, h.unsent, h.fifo, h.finished,
      h.senders⟩
  | task _ hk hmove =>
    obtain ⟨hid, ⟨hopen, hlocal, hto⟩ | ⟨m, msgs, r, hpc, hpc', rfl⟩⟩ := hmove.account
    · exact h.local_move hk hid hopen hlocal hto
    · exact h.send hk hid hpc hpc'
  | join hk hpc => exact h.join hk hpc
  | recv hk hfifo => exact h.receive _ hk hfifo
  | spawn _ _ => exact h.spawn _ _
  | abort _ => exact h.abort _

theorem Reachable.ledger (h : Reachable env s) : Ledger s := by
  refine Reaches.invariant ?_ (fun s a s' _ hi hs => hi.step hs) h
  rintro s ⟨-, input, rfl⟩
  exact ledger_start env input

end LedgerSteps

end Konf.Executor
