import Mathlib.Data.List.Basic
import Konf.Foundations.Table
import Konf.Foundations.Transition

/-! # Broadcast channels

A ring that keeps the last `capacity` values, which any number of receivers read at their own pace. A
receiver that has fallen out of the ring is told how many values it has missed and goes on with the
oldest one that is kept. The abstract counterpart is a mailbox: everything that was sent since the
receiver subscribed and that it has not read, as if nobody else used the channel. -/

namespace Konf.Broadcast
open Konf.Transition
set_option autoImplicit false

variable {α : Type}

inductive Reception (α : Type)
  | value (a : α)
  | lagged (missed : ℕ)
deriving DecidableEq

/-! ## The ring -/

/-- How many values were sent, and the last `capacity` of them. -/
structure Ring (α : Type) where
  capacity : ℕ
  tail : ℕ
  kept : List α
  kept_length : kept.length = min tail capacity

def Ring.empty (capacity : ℕ) : Ring α := ⟨capacity, 0, [], (Nat.zero_min capacity).symm⟩

def Ring.send (r : Ring α) (a : α) : Ring α where
  capacity := r.capacity
  tail := r.tail + 1
  kept := (r.kept ++ [a]).drop (r.kept.length + 1 - r.capacity)
  kept_length := by
    have h := r.kept_length
    simp only [List.length_drop, List.length_append, List.length_singleton]
    omega

/-- What a receiver at the position `next` reads, and its position afterwards. -/
def Ring.recv (r : Ring α) (next : ℕ) : Option (Reception α × ℕ) :=
  if r.tail ≤ next then none
  else if next + r.capacity < r.tail then
    some (.lagged (r.tail - r.capacity - next), r.tail - r.capacity)
  else (r.kept[next + r.kept.length - r.tail]?).map fun a => (.value a, next + 1)

/-- The ring is what is left of this list of all values that were sent. -/
structure Ring.Holds (r : Ring α) (log : List α) : Prop where
  tail : r.tail = log.length
  kept : r.kept = log.drop (log.length - r.capacity)

theorem Ring.Holds.empty (capacity : ℕ) : (Ring.empty capacity : Ring α).Holds [] :=
  ⟨rfl, List.drop_nil.symm⟩

theorem Ring.Holds.send {r : Ring α} {log : List α} (h : r.Holds log) (a : α) :
    (r.send a).Holds (log ++ [a]) := by
  have htail := h.tail
  have hlength := r.kept_length
  constructor
  · show r.tail + 1 = (log ++ [a]).length
    rw [List.length_append, List.length_singleton, htail]
  · show (r.kept ++ [a]).drop (r.kept.length + 1 - r.capacity) =
      (log ++ [a]).drop ((log ++ [a]).length - r.capacity)
    have hsplit : r.kept ++ [a] = (log ++ [a]).drop (log.length - r.capacity) := by
      rw [h.kept, List.drop_append_of_le_length (Nat.sub_le ..)]
    rw [hsplit, List.drop_drop, List.length_append, List.length_singleton]
    congr 1
    omega

/-! ## Mailboxes -/

/-- What a receiver reads of the values that it has not read yet, and what is left. -/
def serve (capacity : ℕ) : List α → Option (Reception α × List α)
  | [] => none
  | a :: rest =>
    let behind := rest.length + 1
    if capacity < behind then some (.lagged (behind - capacity), (a :: rest).drop (behind - capacity))
    else some (.value a, rest)

/-- The shared ring serves each receiver from the values that it has not read yet. -/
theorem Ring.Holds.recv_eq {r : Ring α} {log : List α} (h : r.Holds log) {next : ℕ}
    (hnext : next ≤ log.length) :
    (r.recv next).map (fun p => (p.1, log.drop p.2)) = serve r.capacity (log.drop next) := by
  have htail := h.tail
  obtain hend | hlt := Nat.eq_or_lt_of_le hnext
  · rw [Ring.recv, if_pos (by omega), hend, List.drop_length]
    rfl
  · have hdrop : log.drop next = log[next] :: log.drop (next + 1) := List.drop_eq_getElem_cons hlt
    have hbehind : (log.drop (next + 1)).length + 1 = log.length - next := by
      rw [List.length_drop]
      omega
    rw [Ring.recv, if_neg (by omega), hdrop, serve, hbehind]
    by_cases hlag : next + r.capacity < r.tail
    · rw [if_pos hlag, if_pos (by omega), Option.map_some, ← hdrop, List.drop_drop]
      have hmissed : r.tail - r.capacity - next = log.length - next - r.capacity := by omega
      have hposition : r.tail - r.capacity = next + (log.length - next - r.capacity) := by omega
      rw [hmissed, hposition]
    · rw [if_neg hlag, if_neg (by omega)]
      have hget : r.kept[next + r.kept.length - r.tail]? = some log[next] := by
        have hlength := r.kept_length
        have hindex : log.length - r.capacity + (next + r.kept.length - r.tail) = next := by omega
        rw [h.kept, List.getElem?_drop, ← h.kept, hindex, List.getElem?_eq_getElem hlt]
      rw [hget]
      rfl

theorem serve_eq_none {capacity : ℕ} {unread : List α} : serve capacity unread = none ↔ unread = [] := by
  cases unread with
  | nil => simp [serve]
  | cons a rest =>
    simp only [serve]
    split <;> simp

/-- A receiver reads a value if it is not behind by more than the capacity. -/
theorem serve_value {capacity : ℕ} {unread rest : List α} {x : Reception α}
    (h : serve capacity unread = some (x, rest)) (hbehind : unread.length ≤ capacity) :
    ∃ a, x = .value a ∧ unread = a :: rest := by
  cases unread with
  | nil => simp [serve] at h
  | cons a unread =>
    rw [List.length_cons] at hbehind
    simp only [serve, if_neg (Nat.not_lt.mpr hbehind), Option.some.injEq, Prod.mk.injEq] at h
    exact ⟨a, h.1.symm, by rw [h.2]⟩

/-- It is told of exactly as many missed values as it is behind by too much. -/
theorem serve_lagged {capacity : ℕ} {unread rest : List α} {x : Reception α}
    (h : serve capacity unread = some (x, rest)) (hbehind : capacity < unread.length) :
    x = .lagged (unread.length - capacity) ∧ rest = unread.drop (unread.length - capacity) := by
  cases unread with
  | nil => simp [serve] at h
  | cons a unread =>
    rw [List.length_cons] at hbehind ⊢
    simp only [serve, if_pos hbehind, Option.some.injEq, Prod.mk.injEq] at h
    exact ⟨h.1.symm, h.2.symm⟩

/-- A receiver with a channel of its own. -/
structure Mailbox (α : Type) where
  unread : List α
  got : List (Reception α)

inductive Mail (α : Type)
  | push (a : α)
  | pull

def Mailbox.apply (capacity : ℕ) (b : Mailbox α) : Mail α → Option (Mailbox α)
  | .push a => some { b with unread := b.unread ++ [a] }
  | .pull => (serve capacity b.unread).map fun p => ⟨p.2, b.got ++ [p.1]⟩

/-! ## Accounting -/

/-- The values that a reception stands for. -/
def Reception.Covers (x : Reception α) (values : List α) : Prop :=
  match x with
  | .value a => values = [a]
  | .lagged missed => values.length = missed ∧ values ≠ []

theorem serve_covers {capacity : ℕ} {unread rest : List α} {x : Reception α}
    (h : serve capacity unread = some (x, rest)) : ∃ values, x.Covers values ∧ unread = values ++ rest := by
  obtain hlt | hle := Nat.lt_or_ge capacity unread.length
  · obtain ⟨rfl, rfl⟩ := serve_lagged h hlt
    refine ⟨unread.take (unread.length - capacity), ⟨?_, ?_⟩, (List.take_append_drop ..).symm⟩
    · rw [List.length_take]
      omega
    · apply List.ne_nil_of_length_pos
      rw [List.length_take]
      omega
  · obtain ⟨a, rfl, rfl⟩ := serve_value h hle
    exact ⟨[a], rfl, rfl⟩

/-- The receptions account for all of the values: each value was read, or is one of those that a
notice counts, and the order is kept. -/
inductive Accounts : List (Reception α) → List α → Prop
  | nil : Accounts [] []
  | receive {got : List (Reception α)} {x : Reception α} {values more : List α}
      (h : Accounts got values) (hx : x.Covers more) : Accounts (got ++ [x]) (values ++ more)

section Accounts
variable {got : List (Reception α)} {values : List α}

/-- Without a notice everything was read. -/
theorem Accounts.complete (h : Accounts got values) (hno : ∀ n, .lagged n ∉ got) :
    got = values.map .value := by
  induction h with
  | nil => rfl
  | @receive got x values more h hx ih =>
    rw [ih (fun n hn => hno n (List.mem_append_left _ hn)), List.map_append]
    cases x with
    | value a => rw [show more = [a] from hx]; rfl
    | lagged n => exact absurd (List.mem_append_right _ (List.mem_singleton_self _)) (hno n)

end Accounts

/-! ## Receivers -/

/-- A receiver's position. The rest only records: what was sent since it subscribed, and what it has
received. -/
structure Receiver (α : Type) where
  next : ℕ
  offered : List α
  got : List (Reception α)

def Receiver.recv (ring : Ring α) (v : Receiver α) : Option (Reception α × Receiver α) :=
  (ring.recv v.next).map fun p => (p.1, { v with next := p.2, got := v.got ++ [p.1] })

def Receiver.offer (v : Receiver α) (a : α) : Receiver α := { v with offered := v.offered ++ [a] }

/-- What was sent since the receiver subscribed and it has not read yet. -/
def Receiver.unread (v : Receiver α) (ring : Ring α) : List α :=
  v.offered.drop (v.offered.length - (ring.tail - v.next))

structure Receiver.Follows (v : Receiver α) (log : List α) : Prop where
  next : v.next ≤ log.length
  accounts : ∃ consumed, v.offered = consumed ++ log.drop v.next ∧ Accounts v.got consumed

section Receivers
variable {v v' : Receiver α} {x : Reception α} {ring : Ring α} {log : List α}

theorem Receiver.Follows.unread_eq (hv : v.Follows log) (hring : ring.Holds log) :
    v.unread ring = log.drop v.next := by
  obtain ⟨consumed, hoffered, -⟩ := hv.accounts
  have hnext := hv.next
  have hlength : v.offered.length - (ring.tail - v.next) = consumed.length := by
    rw [hring.tail, hoffered, List.length_append, List.length_drop]
    omega
  rw [Receiver.unread, hlength, hoffered, List.drop_left]

theorem Receiver.Follows.subscribe (log : List α) : (⟨log.length, [], []⟩ : Receiver α).Follows log := by
  refine ⟨Nat.le_refl _, [], ?_, .nil⟩
  rw [List.drop_length]
  rfl

theorem Receiver.Follows.offer (h : v.Follows log) (a : α) : (v.offer a).Follows (log ++ [a]) := by
  obtain ⟨consumed, hoffered, haccounts⟩ := h.accounts
  refine ⟨?_, consumed, ?_, haccounts⟩
  · show v.next ≤ (log ++ [a]).length
    rw [List.length_append]
    exact Nat.le_add_right_of_le h.next
  · show v.offered ++ [a] = consumed ++ (log ++ [a]).drop v.next
    rw [List.drop_append_of_le_length h.next, hoffered, List.append_assoc]

/-- A receiver of the ring reads what its mailbox serves. -/
theorem Receiver.recv_serve (hring : ring.Holds log) (hnext : v.next ≤ log.length)
    (h : v.recv ring = some (x, v')) : v'.offered = v.offered ∧ v'.got = v.got ++ [x] ∧
      serve ring.capacity (log.drop v.next) = some (x, log.drop v'.next) := by
  obtain ⟨p, hp, heq⟩ := Option.map_eq_some_iff.mp h
  obtain ⟨rfl, rfl⟩ := Prod.mk.inj heq
  refine ⟨rfl, rfl, ?_⟩
  rw [← hring.recv_eq hnext, hp]
  rfl

theorem Receiver.recv_eq_none (hv : v.Follows log) (hring : ring.Holds log) :
    v.recv ring = none ↔ v.unread ring = [] := by
  rw [hv.unread_eq hring, Receiver.recv, Option.map_eq_none_iff, ← serve_eq_none,
    ← hring.recv_eq hv.next, Option.map_eq_none_iff]

theorem Ring.recv_le {next : ℕ} {p : Reception α × ℕ} (h : ring.recv next = some p) :
    p.2 ≤ ring.tail := by
  simp only [Ring.recv] at h
  split at h
  · cases h
  · split at h
    · rw [← Option.some.inj h]
      exact Nat.sub_le ..
    · obtain ⟨a, -, rfl⟩ := Option.map_eq_some_iff.mp h
      show next + 1 ≤ ring.tail
      omega

theorem Receiver.Follows.recv (hv : v.Follows log) (hring : ring.Holds log)
    (h : v.recv ring = some (x, v')) : v'.Follows log := by
  obtain ⟨hoffered, hgot, hserve⟩ := Receiver.recv_serve hring hv.next h
  obtain ⟨values, hcovers, hunread⟩ := serve_covers hserve
  obtain ⟨consumed, hconsumed, haccounts⟩ := hv.accounts
  refine ⟨?_, consumed ++ values, ?_, ?_⟩
  · obtain ⟨p, hp, heq⟩ := Option.map_eq_some_iff.mp h
    obtain ⟨rfl, rfl⟩ := Prod.mk.inj heq
    exact hring.tail ▸ Ring.recv_le hp
  · rw [hoffered, hconsumed, hunread, List.append_assoc]
  · exact hgot ▸ haccounts.receive hcovers

end Receivers

/-! ## Channels -/

structure Channel (α : Type) where
  ring : Ring α
  receivers : Table ℕ (Receiver α)
  nextReceiver : ℕ
  closed : Bool

inductive Move (α : Type)
  | send (a : α)
  | subscribe
  | recv (k : ℕ)
  | drop (k : ℕ)
  | close

/-- The receiver that a move is about. -/
def Move.uses : Move α → Option ℕ
  | .recv k | .drop k => some k
  | .send _ | .subscribe | .close => none

def Move.sent : Move α → List α
  | .send a => [a]
  | .subscribe | .recv _ | .drop _ | .close => []

namespace Channel

def new (capacity : ℕ) : Channel α := ⟨Ring.empty capacity, Table.empty, 0, false⟩

/-- A value that nobody waits for is not kept. -/
def send (c : Channel α) (a : α) : Channel α :=
  if c.receivers.rows.isEmpty then c
  else { c with ring := c.ring.send a, receivers := c.receivers.mapValues (·.offer a) }

def subscribe (c : Channel α) : Channel α :=
  { c with
    receivers := c.receivers.insert c.nextReceiver ⟨c.ring.tail, [], []⟩
    nextReceiver := c.nextReceiver + 1 }

/-- A receiver that finds nothing waits. -/
def recv (c : Channel α) (k : ℕ) : Option (Reception α × Channel α) :=
  ((c.receivers.get k).bind (·.recv c.ring)).map fun p =>
    (p.1, { c with receivers := c.receivers.insert k p.2 })

/-- Without a sender there is nothing to send or to subscribe to. -/
def apply (c : Channel α) : Move α → Option (Channel α)
  | .send a => if c.closed then none else some (c.send a)
  | .subscribe => if c.closed then none else some c.subscribe
  | .recv k => (c.recv k).map Prod.snd
  | .drop k => (c.receivers.get k).map fun _ => { c with receivers := c.receivers.remove k }
  | .close => if c.closed then none else some { c with closed := true }

/-- The ring holds the log, and every receiver follows it. -/
structure Sound (c : Channel α) (log : List α) : Prop where
  ring : c.ring.Holds log
  follows : ∀ k v, c.receivers.get k = some v → v.Follows log
  fresh : ∀ k v, c.receivers.get k = some v → k < c.nextReceiver

section Channels
variable {c c' : Channel α} {log : List α} {k : ℕ} {v : Receiver α} {m : Move α}

theorem Sound.new (capacity : ℕ) : (Channel.new capacity : Channel α).Sound [] := by
  refine ⟨.empty capacity, ?_, ?_⟩
  · intro k v h
    cases h
  · intro k v h
    cases h

/-- A channel without receivers drops what is sent. -/
theorem Sound.send (h : c.Sound log) (a : α) : ∃ log', (c.send a).Sound log' := by
  rw [Channel.send]
  split
  · exact ⟨log, h⟩
  · refine ⟨log ++ [a], h.ring.send a, ?_, ?_⟩
    · intro k v hk
      rw [Table.get_mapValues] at hk
      obtain ⟨v, hv, rfl⟩ := Option.map_eq_some_iff.mp hk
      exact (h.follows k v hv).offer a
    · intro k v hk
      rw [Table.get_mapValues] at hk
      obtain ⟨v, hv, -⟩ := Option.map_eq_some_iff.mp hk
      exact h.fresh k v hv

theorem Sound.subscribe (h : c.Sound log) : c.subscribe.Sound log := by
  refine ⟨h.ring, ?_, ?_⟩
  · intro k v hk
    by_cases hnew : k = c.nextReceiver
    · rw [hnew, Channel.subscribe, Table.get_insert_self, Option.some.injEq] at hk
      rw [← hk, h.ring.tail]
      exact .subscribe log
    · rw [Channel.subscribe, Table.get_insert_ne hnew] at hk
      exact h.follows k v hk
  · intro k v hk
    show k < c.nextReceiver + 1
    by_cases hnew : k = c.nextReceiver
    · omega
    · rw [Channel.subscribe, Table.get_insert_ne hnew] at hk
      exact Nat.lt_succ_of_lt (h.fresh k v hk)

theorem recv_eq_some {x : Reception α} (h : c.recv k = some (x, c')) :
    ∃ v v', c.receivers.get k = some v ∧ v.recv c.ring = some (x, v') ∧
      c' = { c with receivers := c.receivers.insert k v' } := by
  obtain ⟨p, hp, heq⟩ := Option.map_eq_some_iff.mp h
  obtain ⟨v, hv, hrecv⟩ := Option.bind_eq_some_iff.mp hp
  obtain ⟨rfl, rfl⟩ := Prod.mk.inj heq
  exact ⟨v, p.2, hv, hrecv, rfl⟩

theorem Sound.recv {x : Reception α} (h : c.Sound log) (hc : c.recv k = some (x, c')) :
    c'.Sound log := by
  obtain ⟨v, v', hv, hrecv, rfl⟩ := recv_eq_some hc
  refine ⟨h.ring, ?_, ?_⟩
  · intro j w hj
    by_cases hjk : j = k
    · rw [hjk, Table.get_insert_self, Option.some.injEq] at hj
      exact hj ▸ (h.follows k v hv).recv h.ring hrecv
    · rw [Table.get_insert_ne hjk] at hj
      exact h.follows j w hj
  · intro j w hj
    by_cases hjk : j = k
    · exact hjk ▸ h.fresh k v hv
    · rw [Table.get_insert_ne hjk] at hj
      exact h.fresh j w hj

theorem Sound.drop (h : c.Sound log) (k : ℕ) :
    ({ c with receivers := c.receivers.remove k } : Channel α).Sound log := by
  refine ⟨h.ring, ?_, ?_⟩
  · intro j w hj
    have hmem := (Table.mem_remove.mp (Table.get_eq_some_iff.mp hj)).2
    exact h.follows j w (Table.get_eq_some_iff.mpr hmem)
  · intro j w hj
    have hmem := (Table.mem_remove.mp (Table.get_eq_some_iff.mp hj)).2
    exact h.fresh j w (Table.get_eq_some_iff.mpr hmem)

theorem Sound.apply (h : c.Sound log) (hc : c.apply m = some c') : ∃ log', c'.Sound log' := by
  cases m with
  | send a =>
    rw [Channel.apply, Option.ite_none_left_eq_some, Option.some.injEq] at hc
    exact hc.2 ▸ h.send a
  | subscribe =>
    rw [Channel.apply, Option.ite_none_left_eq_some, Option.some.injEq] at hc
    exact ⟨log, hc.2 ▸ h.subscribe⟩
  | recv k =>
    obtain ⟨p, hp, rfl⟩ := Option.map_eq_some_iff.mp hc
    exact ⟨log, h.recv hp⟩
  | drop k =>
    obtain ⟨v, -, rfl⟩ := Option.map_eq_some_iff.mp hc
    exact ⟨log, h.drop k⟩
  | close =>
    rw [Channel.apply, Option.ite_none_left_eq_some, Option.some.injEq] at hc
    exact ⟨log, hc.2 ▸ ⟨h.ring, h.follows, h.fresh⟩⟩

/-- The channels that runs from an empty one reach. -/
def Reached (capacity : ℕ) : Channel α → Prop :=
  Reaches (fun c m c' => c.apply m = some c') (· = Channel.new capacity)

theorem Reached.sound {capacity : ℕ} (h : Reached capacity c) : ∃ log, c.Sound log := by
  have hinit : ∀ c : Channel α, c = Channel.new capacity → ∃ log, c.Sound log := by
    intro c hc
    exact ⟨[], hc ▸ .new capacity⟩
  have hstep : ∀ (c : Channel α) (m : Move α) (c' : Channel α), Reached capacity c →
      (∃ log, c.Sound log) → c.apply m = some c' → ∃ log, c'.Sound log := by
    intro c m c' _ hsound hc
    obtain ⟨log, hlog⟩ := hsound
    exact hlog.apply hc
  exact Reaches.invariant hinit hstep h

theorem apply_capacity (hc : c.apply m = some c') : c'.ring.capacity = c.ring.capacity := by
  cases m with
  | send a =>
    rw [Channel.apply, Option.ite_none_left_eq_some, Option.some.injEq, Channel.send] at hc
    obtain ⟨-, rfl⟩ := hc
    split <;> rfl
  | subscribe =>
    rw [Channel.apply, Option.ite_none_left_eq_some, Option.some.injEq] at hc
    exact hc.2 ▸ rfl
  | recv j =>
    obtain ⟨p, hp, rfl⟩ := Option.map_eq_some_iff.mp hc
    obtain ⟨w, w', -, -, hc'⟩ := recv_eq_some hp
    exact hc' ▸ rfl
  | drop j =>
    obtain ⟨w, -, rfl⟩ := Option.map_eq_some_iff.mp hc
    rfl
  | close =>
    rw [Channel.apply, Option.ite_none_left_eq_some, Option.some.injEq] at hc
    exact hc.2 ▸ rfl

theorem Reached.capacity {capacity : ℕ} (h : Reached capacity c) : c.ring.capacity = capacity := by
  have hinit : ∀ c : Channel α, c = Channel.new capacity → c.ring.capacity = capacity := by
    intro c hc
    exact hc ▸ rfl
  have hstep : ∀ (c : Channel α) (m : Move α) (c' : Channel α), Reached capacity c →
      c.ring.capacity = capacity → c.apply m = some c' → c'.ring.capacity = capacity := by
    intro c m c' _ hcapacity hc
    exact (apply_capacity hc).trans hcapacity
  exact Reaches.invariant hinit hstep h

end Channels

/-! ## One receiver at a time -/

def mailbox (c : Channel α) (v : Receiver α) : Mailbox α := ⟨v.unread c.ring, v.got⟩

/-- The channel, for one of its receivers. -/
def Owns (c : Channel α) (capacity k : ℕ) (b : Mailbox α) : Prop :=
  c.ring.capacity = capacity ∧ (∃ log, c.Sound log) ∧
    ∃ v, c.receivers.get k = some v ∧ b = c.mailbox v

section Mailboxes
variable {c c' : Channel α} {log : List α} {capacity k : ℕ} {v : Receiver α} {m : Move α}
  {b : Mailbox α}

theorem send_of_get (hk : c.receivers.get k = some v) (a : α) :
    c.send a = { c with ring := c.ring.send a, receivers := c.receivers.mapValues (·.offer a) } := by
  rw [Channel.send, if_neg]
  rw [List.isEmpty_iff]
  exact List.ne_nil_of_mem (Table.get_eq_some_iff.mp hk)

theorem Owns.fresh (h : c.Owns capacity k b) : k < c.nextReceiver := by
  obtain ⟨-, ⟨log, hlog⟩, v, hv, -⟩ := h
  exact hlog.fresh k v hv

theorem Owns.exists_get (h : c.Owns capacity k b) : ∃ v, c.receivers.get k = some v := by
  obtain ⟨-, -, v, hv, -⟩ := h
  exact ⟨v, hv⟩

/-- A move of somebody else does to a receiver what it does to its mailbox. -/
theorem Owns.others (h : c.Owns capacity k b) (hm : m.uses ≠ some k) (hc : c.apply m = some c') :
    c'.Owns capacity k { b with unread := b.unread ++ m.sent } := by
  obtain ⟨rfl, ⟨log, hlog⟩, v, hk, rfl⟩ := h
  have hv := hlog.follows k v hk
  have hsound := hlog.apply hc
  cases m with
  | send a =>
    rw [Channel.apply, Option.ite_none_left_eq_some, Option.some.injEq, send_of_get hk a] at hc
    obtain ⟨-, rfl⟩ := hc
    refine ⟨rfl, hsound, v.offer a, ?_, ?_⟩
    · rw [Table.get_mapValues, hk]
      rfl
    · have hunread : (v.offer a).unread (c.ring.send a) = v.unread c.ring ++ [a] := by
        rw [(hv.offer a).unread_eq (hlog.ring.send a), hv.unread_eq hlog.ring]
        exact List.drop_append_of_le_length hv.next
      show (⟨v.unread c.ring ++ [a], v.got⟩ : Mailbox α) =
        ⟨(v.offer a).unread (c.ring.send a), v.got⟩
      rw [hunread]
  | subscribe =>
    rw [Channel.apply, Option.ite_none_left_eq_some, Option.some.injEq] at hc
    obtain ⟨-, rfl⟩ := hc
    have hne : k ≠ c.nextReceiver := Nat.ne_of_lt (hlog.fresh k v hk)
    rw [Move.sent, List.append_nil]
    exact ⟨rfl, hsound, v, (Table.get_insert_ne hne).trans hk, rfl⟩
  | recv j =>
    obtain ⟨p, hp, rfl⟩ := Option.map_eq_some_iff.mp hc
    obtain ⟨w, w', -, -, hc'⟩ := recv_eq_some hp
    have hne : k ≠ j := fun heq => hm (heq ▸ rfl)
    rw [hc'] at hsound ⊢
    rw [Move.sent, List.append_nil]
    exact ⟨rfl, hsound, v, (Table.get_insert_ne hne).trans hk, rfl⟩
  | drop j =>
    obtain ⟨w, -, rfl⟩ := Option.map_eq_some_iff.mp hc
    have hne : k ≠ j := fun heq => hm (heq ▸ rfl)
    rw [Move.sent, List.append_nil]
    exact ⟨rfl, hsound, v, (Table.get_remove_ne hne).trans hk, rfl⟩
  | close =>
    rw [Channel.apply, Option.ite_none_left_eq_some, Option.some.injEq] at hc
    obtain ⟨-, rfl⟩ := hc
    rw [Move.sent, List.append_nil]
    exact ⟨rfl, hsound, v, hk, rfl⟩

/-- Nothing comes in after the end. -/
theorem apply_closed (hclosed : c.closed = true) (hc : c.apply m = some c') :
    c'.closed = true ∧ m.sent = [] := by
  cases m with
  | send a => simp [Channel.apply, hclosed] at hc
  | subscribe => simp [Channel.apply, hclosed] at hc
  | recv j =>
    obtain ⟨p, hp, rfl⟩ := Option.map_eq_some_iff.mp hc
    obtain ⟨w, w', -, -, hc'⟩ := recv_eq_some hp
    exact ⟨hc' ▸ hclosed, rfl⟩
  | drop j =>
    obtain ⟨w, -, rfl⟩ := Option.map_eq_some_iff.mp hc
    exact ⟨hclosed, rfl⟩
  | close => simp [Channel.apply, hclosed] at hc

/-- A receiver reads from its mailbox. -/
theorem Owns.recv {x : Reception α} (h : c.Owns capacity k b) (hc : c.recv k = some (x, c')) :
    c'.closed = c.closed ∧ ∃ rest, serve capacity b.unread = some (x, rest) ∧
      c'.Owns capacity k ⟨rest, b.got ++ [x]⟩ := by
  obtain ⟨rfl, ⟨log, hlog⟩, v, hk, rfl⟩ := h
  have hsound := hlog.recv hc
  obtain ⟨w, w', hw, hrecv, rfl⟩ := recv_eq_some hc
  rw [hk, Option.some.injEq] at hw
  subst hw
  have hv := hlog.follows k v hk
  obtain ⟨-, hgot, hserve⟩ := Receiver.recv_serve hlog.ring hv.next hrecv
  have hleft : w'.unread c.ring = log.drop w'.next := (hv.recv hlog.ring hrecv).unread_eq hlog.ring
  refine ⟨rfl, log.drop w'.next, ?_, rfl, ⟨log, hsound⟩, w', Table.get_insert_self, ?_⟩
  · rw [Channel.mailbox, hv.unread_eq hlog.ring]
    exact hserve
  · rw [Channel.mailbox, ← hgot, ← hleft]
    rfl

theorem Owns.recv_eq_none (h : c.Owns capacity k b) : c.recv k = none ↔ b.unread = [] := by
  obtain ⟨rfl, ⟨log, hlog⟩, v, hk, rfl⟩ := h
  rw [Channel.recv, Option.map_eq_none_iff, hk, Option.bind_some]
  exact Receiver.recv_eq_none (hlog.follows k v hk) hlog.ring

/-- A new receiver has an empty mailbox. -/
theorem Owns.subscribe (h : c.Sound log) :
    c.subscribe.Owns c.ring.capacity c.nextReceiver ⟨[], []⟩ := by
  refine ⟨rfl, ⟨log, h.subscribe⟩, ⟨c.ring.tail, [], []⟩, Table.get_insert_self, ?_⟩
  rw [Channel.mailbox, Receiver.unread, List.drop_nil]

/-- What has been received and what is unread account for what was sent since the receiver came. -/
theorem Owns.accounts (h : c.Owns capacity k b) (hv : c.receivers.get k = some v) :
    ∃ consumed, v.offered = consumed ++ b.unread ∧ Accounts b.got consumed := by
  obtain ⟨-, ⟨log, hlog⟩, w, hw, rfl⟩ := h
  rw [hv, Option.some.injEq] at hw
  subst hw
  have hfollows := hlog.follows k v hv
  obtain ⟨consumed, hoffered, haccounts⟩ := hfollows.accounts
  refine ⟨consumed, ?_, haccounts⟩
  rw [hoffered, Channel.mailbox, hfollows.unread_eq hlog.ring]

end Mailboxes
end Channel
end Konf.Broadcast
