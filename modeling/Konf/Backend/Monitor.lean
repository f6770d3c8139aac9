import Konf.Runtime.EventBus

/-! # The monitor stream

Model of `stream` in `konf-backend/src/api/monitor.rs`. The handler subscribes to the event bus and turns
what it receives into frames; clients come and go, the runtime emits, and other components read from the
same bus. How a payload is written as text is a parameter. -/

namespace Konf.Backend
open Konf.Substrate Konf.Text Konf.Transition Konf.Broadcast Konf.EventBus
set_option autoImplicit false

/-! ## Frames -/

structure Frame where
  event : String
  data : String
deriving DecidableEq

/-- What `serde_json` and `uuid` write. -/
structure Writers where
  formatUuid : Uuid → String
  object : List (String × Json) → String

def helloFrame : Frame := ⟨"hello", "\x7b\"status\":\"connected\"\x7d"⟩

def laggedFrame (missed : ℕ) : Frame := ⟨"lagged", toString missed⟩

def eventFrame (w : Writers) (e : RunEvent) : Frame := ⟨e.kind, w.object (e.fields w.formatUuid)⟩

/-- The filter on the namespace lets every event without one through. -/
def visible (filter : Option String) (e : RunEvent) : Bool :=
  match filter with
  | none => true
  | some namePrefix => e.namespace_ = "" || startsWith e.namespace_ namePrefix

/-- The frame that the body of the loop yields. -/
def frameOf (w : Writers) (filter : Option String) : Reception RunEvent → Option Frame
  | .value e => if visible filter e then some (eventFrame w e) else none
  | .lagged missed => some (laggedFrame missed)

/-! ## Streams -/

structure MonitorStream where
  filter : Option String
  frames : List Frame
  ended : Bool

def MonitorStream.opened (filter : Option String) : MonitorStream := ⟨filter, [helloFrame], false⟩

def MonitorStream.absorb (w : Writers) (s : MonitorStream) (x : Reception RunEvent) : MonitorStream :=
  { s with frames := s.frames ++ (frameOf w s.filter x).toList }

/-- The bus and the open streams, each under its receiver. -/
structure Monitor where
  bus : RunEventBus
  streams : Table ℕ MonitorStream

/-- `bus` is a move of the rest of the program; `poll` has received something, `finish` that the bus is
closed, and with `hangUp` the client has gone. -/
inductive MonitorMove
  | bus (m : Move RunEvent)
  | connect (filter : Option String)
  | poll (k : ℕ)
  | finish (k : ℕ)
  | hangUp (k : ℕ)

def Monitor.apply (w : Writers) (s : Monitor) : MonitorMove → Option Monitor
  | .bus m =>
    if m.uses.any fun k => (s.streams.get k).isSome then none
    else (s.bus.apply m).map fun bus => { s with bus := bus }
  | .connect filter =>
    (s.bus.apply .subscribe).map fun bus =>
      ⟨bus, s.streams.insert s.bus.nextReceiver (.opened filter)⟩
  | .poll k =>
    (s.streams.get k).bind fun stream =>
      if stream.ended then none
      else (s.bus.recv k).map fun p => ⟨p.2, s.streams.insert k (stream.absorb w p.1)⟩
  | .finish k =>
    (s.streams.get k).bind fun stream =>
      if !stream.ended && s.bus.closed && (s.bus.recv k).isNone then
        some { s with streams := s.streams.insert k { stream with ended := true } }
      else none
  | .hangUp k =>
    (s.streams.get k).bind fun _ =>
      (s.bus.apply (.drop k)).map fun bus => ⟨bus, s.streams.remove k⟩

/-- The monitor of a runtime whose bus has just been made. -/
def Monitor.Reached (w : Writers) (roundUp : ℕ → ℕ) (capacity : ℕ) : Monitor → Prop :=
  Reaches (fun s m s' => s.apply w m = some s') fun s =>
    RunEventBus.withCapacity roundUp capacity = some s.bus ∧ s.streams = Table.empty

/-! ## What a stream shows -/

section Shows
variable {w : Writers} {s s' : Monitor} {m : MonitorMove} {k : ℕ} {stream : MonitorStream}
  {capacity : ℕ} {b : Mailbox RunEvent}

/-- The frames are those of what was received, and an ended stream has received everything. -/
structure MonitorStream.Shows (w : Writers) (stream : MonitorStream) (b : Mailbox RunEvent)
    (closed : Bool) : Prop where
  frames : stream.frames = helloFrame :: b.got.filterMap (frameOf w stream.filter)
  ended : stream.ended = true → closed = true ∧ b.unread = []

/-- The monitor, for one of its streams. -/
def Monitor.Serves (w : Writers) (s : Monitor) (capacity k : ℕ) (stream : MonitorStream)
    (b : Mailbox RunEvent) : Prop :=
  s.streams.get k = some stream ∧ s.bus.Owns capacity k b ∧ stream.Shows w b s.bus.closed

theorem MonitorStream.Shows.absorb {closed : Bool} (h : stream.Shows w b closed)
    (hended : stream.ended = false) (x : Reception RunEvent) (unread : List RunEvent) :
    (stream.absorb w x).Shows w ⟨unread, b.got ++ [x]⟩ closed := by
  constructor
  · rw [MonitorStream.absorb, h.frames, List.filterMap_append]
    cases hx : frameOf w stream.filter x <;> simp [hx]
  · intro hends
    exact absurd hends (by rw [MonitorStream.absorb, hended]; exact Bool.false_ne_true)

/-- What a stream notices of a move. -/
def MonitorMove.mail (k : ℕ) : MonitorMove → Option (Mail RunEvent)
  | .bus (.send e) => some (.push e)
  | .poll j => if j = k then some .pull else none
  | .bus _ | .connect _ | .finish _ | .hangUp _ => none

/-- The step lemma: what others do to the monitor is to a stream what they send. -/
theorem Monitor.Serves.step (h : s.Serves w capacity k stream b) (hm : m ≠ .hangUp k)
    (hs : s.apply w m = some s') : ∃ stream' b', stream'.filter = stream.filter ∧
      exec (Mailbox.apply capacity) b (m.mail k).toList = some b' ∧
      s'.Serves w capacity k stream' b' := by
  obtain ⟨hstream, howns, hshows⟩ := h
  cases m with
  | bus m =>
    rw [Monitor.apply, Option.ite_none_left_eq_some] at hs
    obtain ⟨huses, hs⟩ := hs
    obtain ⟨bus, hbus, rfl⟩ := Option.map_eq_some_iff.mp hs
    have hother : m.uses ≠ some k := by
      intro heq
      apply huses
      rw [heq, Option.any_some, hstream]
      rfl
    refine ⟨stream, _, rfl, ?_, hstream, howns.others hother hbus, hshows.frames, ?_⟩
    · cases m <;> simp [MonitorMove.mail, Move.sent, exec, Mailbox.apply]
    · intro hended
      obtain ⟨hclosed, hunread⟩ := hshows.ended hended
      obtain ⟨hclosed', hsent⟩ := Channel.apply_closed hclosed hbus
      exact ⟨hclosed', by rw [hsent, List.append_nil, hunread]⟩
  | connect filter =>
    obtain ⟨bus, hbus, rfl⟩ := Option.map_eq_some_iff.mp hs
    have howns' := howns.others (m := .subscribe) (by simp [Move.uses]) hbus
    rw [Move.sent, List.append_nil] at howns'
    refine ⟨stream, b, rfl, rfl, ?_, howns', hshows.frames, ?_⟩
    · exact (Table.get_insert_ne (Nat.ne_of_lt howns.fresh)).trans hstream
    · intro hended
      rw [Channel.apply, Option.ite_none_left_eq_some] at hbus
      exact absurd (hshows.ended hended).1 hbus.1
  | poll j =>
    obtain ⟨polled, hpolled, hs⟩ := Option.bind_eq_some_iff.mp hs
    rw [Option.ite_none_left_eq_some] at hs
    obtain ⟨hrunning, hs⟩ := hs
    obtain ⟨⟨x, bus⟩, hrecv, rfl⟩ := Option.map_eq_some_iff.mp hs
    by_cases hj : j = k
    · subst hj
      rw [hstream, Option.some.injEq] at hpolled
      subst hpolled
      obtain ⟨hclosed, rest, hserve, howns'⟩ := howns.recv hrecv
      refine ⟨stream.absorb w x, _, rfl, ?_, Table.get_insert_self, howns', ?_⟩
      · rw [MonitorMove.mail, if_pos rfl, Option.toList_some, exec, Mailbox.apply, hserve]
        rfl
      · exact hclosed ▸ hshows.absorb (Bool.eq_false_iff.mpr hrunning) x rest
    · have hmail : MonitorMove.mail k (.poll j) = none := if_neg hj
      have hbus : s.bus.apply (.recv j) = some bus := by
        rw [Channel.apply, hrecv]
        rfl
      have hother : (Move.recv j : Move RunEvent).uses ≠ some k := by simp [Move.uses, hj]
      have howns' := howns.others hother hbus
      rw [Move.sent, List.append_nil] at howns'
      refine ⟨stream, b, rfl, by rw [hmail]; rfl, ?_, howns', ?_⟩
      · exact (Table.get_insert_ne (Ne.symm hj)).trans hstream
      · obtain ⟨v, v', -, -, hbus'⟩ := Channel.recv_eq_some hrecv
        rw [hbus']
        exact hshows
  | finish j =>
    obtain ⟨done, hdone, hs⟩ := Option.bind_eq_some_iff.mp hs
    rw [Option.ite_none_right_eq_some, Option.some.injEq] at hs
    obtain ⟨hguard, rfl⟩ := hs
    by_cases hj : j = k
    · subst hj
      rw [hstream, Option.some.injEq] at hdone
      subst hdone
      rw [Bool.and_eq_true, Bool.and_eq_true, Option.isNone_iff_eq_none] at hguard
      refine ⟨{ stream with ended := true }, b, rfl, rfl, Table.get_insert_self, howns, hshows.frames, ?_⟩
      intro _
      exact ⟨hguard.1.2, howns.recv_eq_none.mp hguard.2⟩
    · refine ⟨stream, b, rfl, rfl, ?_, howns, hshows⟩
      exact (Table.get_insert_ne (Ne.symm hj)).trans hstream
  | hangUp j =>
    obtain ⟨gone, -, hs⟩ := Option.bind_eq_some_iff.mp hs
    obtain ⟨bus, hbus, rfl⟩ := Option.map_eq_some_iff.mp hs
    have hj : k ≠ j := fun heq => hm (heq ▸ rfl)
    have hother : (Move.drop j : Move RunEvent).uses ≠ some k := by simp [Move.uses, Ne.symm hj]
    have howns' := howns.others hother hbus
    rw [Move.sent, List.append_nil] at howns'
    obtain ⟨_, -, rfl⟩ := Option.map_eq_some_iff.mp hbus
    exact ⟨stream, b, rfl, rfl, (Table.get_remove_ne hj).trans hstream, howns', hshows⟩

/-- Only a new client brings a stream that was not there. -/
theorem Monitor.stream_new (hs : s.apply w m = some s') (hnone : s.streams.get k = none)
    (hstream : s'.streams.get k = some stream) :
    ∃ filter, m = .connect filter ∧ k = s.bus.nextReceiver ∧ stream = .opened filter := by
  cases m with
  | bus m =>
    rw [Monitor.apply, Option.ite_none_left_eq_some] at hs
    obtain ⟨bus, -, rfl⟩ := Option.map_eq_some_iff.mp hs.2
    cases hnone.symm.trans hstream
  | connect filter =>
    obtain ⟨bus, -, rfl⟩ := Option.map_eq_some_iff.mp hs
    by_cases hk : k = s.bus.nextReceiver
    · rw [hk, Table.get_insert_self, Option.some.injEq] at hstream
      exact ⟨filter, rfl, hk, hstream.symm⟩
    · rw [Table.get_insert_ne hk, hnone] at hstream
      cases hstream
  | poll j =>
    obtain ⟨polled, hpolled, hs⟩ := Option.bind_eq_some_iff.mp hs
    rw [Option.ite_none_left_eq_some] at hs
    obtain ⟨p, -, rfl⟩ := Option.map_eq_some_iff.mp hs.2
    have hk : k ≠ j := by
      rintro rfl
      cases hnone.symm.trans hpolled
    rw [Table.get_insert_ne hk, hnone] at hstream
    cases hstream
  | finish j =>
    obtain ⟨done, hdone, hs⟩ := Option.bind_eq_some_iff.mp hs
    rw [Option.ite_none_right_eq_some, Option.some.injEq] at hs
    obtain ⟨-, rfl⟩ := hs
    have hk : k ≠ j := by
      rintro rfl
      cases hnone.symm.trans hdone
    rw [Table.get_insert_ne hk, hnone] at hstream
    cases hstream
  | hangUp j =>
    obtain ⟨gone, hgone, hs⟩ := Option.bind_eq_some_iff.mp hs
    obtain ⟨bus, -, rfl⟩ := Option.map_eq_some_iff.mp hs
    have hk : k ≠ j := by
      rintro rfl
      cases hnone.symm.trans hgone
    rw [Table.get_remove_ne hk, hnone] at hstream
    cases hstream

theorem Monitor.hangUp_gone (hs : s.apply w (.hangUp k) = some s') : s'.streams.get k = none := by
  obtain ⟨gone, -, hs⟩ := Option.bind_eq_some_iff.mp hs
  obtain ⟨bus, -, rfl⟩ := Option.map_eq_some_iff.mp hs
  exact Table.get_remove_self

/-- A step is a step of the bus, or leaves the bus. -/
theorem Monitor.apply_bus (hs : s.apply w m = some s') :
    s'.bus = s.bus ∨ ∃ move, s.bus.apply move = some s'.bus := by
  cases m with
  | bus m =>
    rw [Monitor.apply, Option.ite_none_left_eq_some] at hs
    obtain ⟨bus, hbus, rfl⟩ := Option.map_eq_some_iff.mp hs.2
    exact .inr ⟨m, hbus⟩
  | connect filter =>
    obtain ⟨bus, hbus, rfl⟩ := Option.map_eq_some_iff.mp hs
    exact .inr ⟨.subscribe, hbus⟩
  | poll j =>
    obtain ⟨polled, -, hs⟩ := Option.bind_eq_some_iff.mp hs
    rw [Option.ite_none_left_eq_some] at hs
    obtain ⟨p, hp, rfl⟩ := Option.map_eq_some_iff.mp hs.2
    exact .inr ⟨.recv j, by rw [Channel.apply, hp]; rfl⟩
  | finish j =>
    obtain ⟨done, -, hs⟩ := Option.bind_eq_some_iff.mp hs
    rw [Option.ite_none_right_eq_some, Option.some.injEq] at hs
    exact .inl (hs.2 ▸ rfl)
  | hangUp j =>
    obtain ⟨gone, -, hs⟩ := Option.bind_eq_some_iff.mp hs
    obtain ⟨bus, hbus, rfl⟩ := Option.map_eq_some_iff.mp hs
    exact .inr ⟨.drop j, hbus⟩

theorem Monitor.Reached.bus {roundUp : ℕ → ℕ} (h : s.Reached w roundUp capacity) :
    Channel.Reached (roundUp capacity) s.bus := by
  have hinit : ∀ s : Monitor, RunEventBus.withCapacity roundUp capacity = some s.bus ∧
      s.streams = Table.empty → Channel.Reached (roundUp capacity) s.bus := by
    intro s hs
    have hnew := hs.1
    rw [RunEventBus.withCapacity, Option.ite_none_left_eq_some, Option.some.injEq] at hnew
    exact .start hnew.2.symm
  have hstep : ∀ (s : Monitor) (m : MonitorMove) (s' : Monitor), s.Reached w roundUp capacity →
      Channel.Reached (roundUp capacity) s.bus → s.apply w m = some s' →
      Channel.Reached (roundUp capacity) s'.bus := by
    intro s m s' _ hbus hs
    obtain heq | ⟨move, hmove⟩ := Monitor.apply_bus hs
    · exact heq ▸ hbus
    · exact hbus.tail trivial hmove
  exact Reaches.invariant hinit hstep h

theorem Monitor.Reached.connect {roundUp : ℕ → ℕ} {filter : Option String}
    (h : s.Reached w roundUp capacity) (hs : s.apply w (.connect filter) = some s') :
    s'.Serves w (roundUp capacity) s.bus.nextReceiver (.opened filter) ⟨[], []⟩ := by
  obtain ⟨bus, hbus, rfl⟩ := Option.map_eq_some_iff.mp hs
  rw [Channel.apply, Option.ite_none_left_eq_some, Option.some.injEq] at hbus
  obtain ⟨-, rfl⟩ := hbus
  obtain ⟨log, hlog⟩ := h.bus.sound
  refine ⟨Table.get_insert_self, ?_, rfl, fun hended => Bool.noConfusion hended⟩
  rw [← h.bus.capacity]
  exact .subscribe hlog

/-- The run lemma: every stream shows what its mailbox has given out. -/
theorem Monitor.Reached.serves {roundUp : ℕ → ℕ} (h : s.Reached w roundUp capacity) :
    ∀ k stream, s.streams.get k = some stream → ∃ b, s.Serves w (roundUp capacity) k stream b := by
  have hinit : ∀ s : Monitor, RunEventBus.withCapacity roundUp capacity = some s.bus ∧
      s.streams = Table.empty → ∀ k stream, s.streams.get k = some stream →
        ∃ b, s.Serves w (roundUp capacity) k stream b := by
    intro s hs k stream hstream
    rw [hs.2] at hstream
    cases hstream
  have hstep : ∀ (s : Monitor) (m : MonitorMove) (s' : Monitor), s.Reached w roundUp capacity →
      (∀ k stream, s.streams.get k = some stream → ∃ b, s.Serves w (roundUp capacity) k stream b) →
      s.apply w m = some s' → ∀ k stream, s'.streams.get k = some stream →
        ∃ b, s'.Serves w (roundUp capacity) k stream b := by
    intro s m s' hs ih hm k stream' hstream'
    by_cases hgone : m = .hangUp k
    · rw [hgone] at hm
      cases (Monitor.hangUp_gone hm).symm.trans hstream'
    · cases hk : s.streams.get k with
      | some stream =>
        obtain ⟨b, hb⟩ := ih k stream hk
        obtain ⟨stream₁, b₁, -, -, hserves⟩ := hb.step hgone hm
        have hsame : stream₁ = stream' := Option.some.inj (hserves.1.symm.trans hstream')
        exact ⟨b₁, hsame ▸ hserves⟩
      | none =>
        obtain ⟨filter, rfl, hnew, rfl⟩ := Monitor.stream_new hm hk hstream'
        exact ⟨⟨[], []⟩, hnew ▸ hs.connect hm⟩
  exact Reaches.invariant hinit hstep h

/-- Without a notice the frames are those of all the events that the filter lets through. -/
theorem Monitor.Serves.complete {consumed : List RunEvent} (h : s.Serves w capacity k stream b)
    (haccounts : Accounts b.got consumed) (hno : ∀ f ∈ stream.frames, f.event ≠ "lagged") :
    stream.frames =
      helloFrame :: (consumed.filter (visible stream.filter)).map (eventFrame w) := by
  have hframes := h.2.2.frames
  have hvalues : b.got = consumed.map .value := by
    apply haccounts.complete
    intro n hn
    have hmem : laggedFrame n ∈ stream.frames := by
      rw [hframes]
      exact List.mem_cons_of_mem _ (List.mem_filterMap.mpr ⟨_, hn, rfl⟩)
    exact hno _ hmem rfl
  rw [hframes, hvalues, List.filterMap_map]
  congr 1
  rw [← List.filterMap_eq_map, List.filterMap_filter]
  rfl

end Shows

section Streams
variable {w : Writers} {roundUp : ℕ → ℕ} {capacity : ℕ} {filter : Option String}

/-- A stream accounts for every event that was emitted since the client connected: in order, each was
received, or is counted by a notice, or waits; an ended stream leaves none waiting. A notice comes only
if more events wait than the bus keeps. -/
theorem Monitor.stream_accounts {s : Monitor} {k : ℕ} {stream : MonitorStream}
    (h : s.Reached w roundUp capacity) (hk : s.streams.get k = some stream) :
    ∃ v got consumed unread, s.bus.receivers.get k = some v ∧ v.offered = consumed ++ unread ∧
      Accounts got consumed ∧
      stream.frames = helloFrame :: got.filterMap (frameOf w stream.filter) ∧
      (stream.ended = true → unread = []) ∧
      ((∀ f ∈ stream.frames, f.event ≠ "lagged") → stream.frames =
        helloFrame :: (consumed.filter (visible stream.filter)).map (eventFrame w)) ∧
      ∀ s', s.apply w (.poll k) = some s' → ∃ x rest,
        serve (roundUp capacity) unread = some (x, rest) ∧
          s'.streams.get k = some (stream.absorb w x) := by
  obtain ⟨b, hb⟩ := h.serves k stream hk
  have howns := hb.2.1
  have hshows := hb.2.2
  obtain ⟨v, hv⟩ := howns.exists_get
  obtain ⟨consumed, hoffered, haccounts⟩ := howns.accounts hv
  refine ⟨v, b.got, consumed, b.unread, hv, hoffered, haccounts, hshows.frames,
    fun hended => (hshows.ended hended).2, hb.complete haccounts, ?_⟩
  intro s' hs
  obtain ⟨polled, hpolled, hs⟩ := Option.bind_eq_some_iff.mp hs
  rw [hk, Option.some.injEq] at hpolled
  subst hpolled
  rw [Option.ite_none_left_eq_some] at hs
  obtain ⟨⟨x, bus⟩, hrecv, rfl⟩ := Option.map_eq_some_iff.mp hs.2
  obtain ⟨-, rest, hserve, -⟩ := howns.recv hrecv
  exact ⟨x, rest, hserve, Table.get_insert_self⟩

/-- The text of a value that needs no escapes. -/
def plainValue : Json → String
  | .str text => "\"" ++ text ++ "\""
  | .bool b => if b then "true" else "false"
  | .num (.int i) => toString i
  | .null | .num _ | .arr _ | .obj _ => "null"

def plainObject (fields : List (String × Json)) : String :=
  "\x7b" ++ ",".intercalate (fields.map fun f => "\"" ++ f.1 ++ "\":" ++ plainValue f.2) ++ "\x7d"

def plainWriters : Writers := ⟨fun _ => "00000000-0000-0000-0000-000000000000", plainObject⟩

def pairMonitor : Monitor := ⟨Channel.new 2, Table.empty⟩

def pinged (namespace_ : String) : MonitorMove :=
  .bus (.send (.toolInvoked "ping" namespace_ "2026-01-01T00:00:00Z" true))

theorem pairMonitor_reached : pairMonitor.Reached plainWriters id 2 := .start ⟨rfl, rfl⟩

/-- A client that has fallen behind by one event. -/
theorem Monitor.stream_accounts_behind : ∃ s stream,
    exec (Monitor.apply plainWriters) pairMonitor
      [.connect (some "konf:a"), pinged "konf:a", pinged "konf:b", pinged "konf:a", .poll 0, .poll 0] =
        some s ∧ s.streams.get 0 = some stream ∧
    ∃ v got consumed unread, s.bus.receivers.get 0 = some v ∧ v.offered = consumed ++ unread ∧
      Accounts got consumed ∧
      stream.frames = helloFrame :: got.filterMap (frameOf plainWriters stream.filter) ∧
      (stream.ended = true → unread = []) ∧
      ((∀ f ∈ stream.frames, f.event ≠ "lagged") → stream.frames =
        helloFrame :: (consumed.filter (visible stream.filter)).map (eventFrame plainWriters)) ∧
      ∀ s', s.apply plainWriters (.poll 0) = some s' → ∃ x rest, serve 2 unread = some (x, rest) ∧
        s'.streams.get 0 = some (stream.absorb plainWriters x) := by
  have hstream : ((exec (Monitor.apply plainWriters) pairMonitor
      [.connect (some "konf:a"), pinged "konf:a", pinged "konf:b", pinged "konf:a", .poll 0, .poll 0]).bind
        fun s => s.streams.get 0).isSome = true := by decide +kernel
  obtain ⟨stream, hget⟩ := Option.isSome_iff_exists.mp hstream
  obtain ⟨s, hs, hget⟩ := Option.bind_eq_some_iff.mp hget
  have hreached : s.Reached plainWriters id 2 := exec_reaches (fun _ _ _ ha => ha) pairMonitor_reached hs
  exact ⟨s, stream, hs, hget, Monitor.stream_accounts hreached hget⟩

/-- The run of a stream is a run of its mailbox. -/
theorem Monitor.Reached.stream_run {s t : Monitor} {ms : List MonitorMove}
    (h : s.Reached w roundUp capacity)
    (hrun : exec (Monitor.apply w) s (.connect filter :: ms) = some t)
    (hstays : .hangUp s.bus.nextReceiver ∉ ms) : ∃ stream b, stream.filter = filter ∧
      exec (Mailbox.apply (roundUp capacity)) ⟨[], []⟩
        (ms.filterMap (MonitorMove.mail s.bus.nextReceiver)) = some b ∧
      t.Serves w (roundUp capacity) s.bus.nextReceiver stream b := by
  rw [exec, Option.bind_eq_some_iff] at hrun
  obtain ⟨s₁, hconnect, hrest⟩ := hrun
  have hok : ∀ m ∈ ms, m ≠ .hangUp s.bus.nextReceiver := by
    intro m hm heq
    exact hstays (heq ▸ hm)
  have hstep : ∀ (r : Monitor) (m : MonitorMove) (r' : Monitor) (b : Mailbox RunEvent),
      (∃ stream, stream.filter = filter ∧
        r.Serves w (roundUp capacity) s.bus.nextReceiver stream b) →
      m ≠ .hangUp s.bus.nextReceiver → r.apply w m = some r' →
      ∃ b', exec (Mailbox.apply (roundUp capacity)) b (m.mail s.bus.nextReceiver).toList = some b' ∧
        ∃ stream, stream.filter = filter ∧
          r'.Serves w (roundUp capacity) s.bus.nextReceiver stream b' := by
    intro r m r' b hserves hm hr
    obtain ⟨stream, hfilter, hserves⟩ := hserves
    obtain ⟨stream', b', hfilter', hexec, hserves'⟩ := hserves.step hm hr
    exact ⟨b', hexec, stream', hfilter'.trans hfilter, hserves'⟩
  obtain ⟨b, hexec, stream, hfilter, hserves⟩ :=
    exec_project hstep hok ⟨_, rfl, h.connect hconnect⟩ hrest
  exact ⟨stream, b, hfilter, hexec, hserves⟩

/-- What a client sees depends on the events and on when it reads, and on nothing else: not on the
events before it came, and not on the other clients and the other readers of the bus. -/
theorem Monitor.streams_alike {s₁ s₂ t₁ t₂ : Monitor} {ms₁ ms₂ : List MonitorMove}
    (h₁ : s₁.Reached w roundUp capacity) (h₂ : s₂.Reached w roundUp capacity)
    (hrun₁ : exec (Monitor.apply w) s₁ (.connect filter :: ms₁) = some t₁)
    (hrun₂ : exec (Monitor.apply w) s₂ (.connect filter :: ms₂) = some t₂)
    (hstays₁ : .hangUp s₁.bus.nextReceiver ∉ ms₁) (hstays₂ : .hangUp s₂.bus.nextReceiver ∉ ms₂)
    (hsame : ms₁.filterMap (MonitorMove.mail s₁.bus.nextReceiver) =
      ms₂.filterMap (MonitorMove.mail s₂.bus.nextReceiver)) :
    ∃ stream₁ stream₂, t₁.streams.get s₁.bus.nextReceiver = some stream₁ ∧
      t₂.streams.get s₂.bus.nextReceiver = some stream₂ ∧ stream₁.frames = stream₂.frames := by
  obtain ⟨stream₁, b₁, hfilter₁, hexec₁, hget₁, -, hshows₁⟩ := h₁.stream_run hrun₁ hstays₁
  obtain ⟨stream₂, b₂, hfilter₂, hexec₂, hget₂, -, hshows₂⟩ := h₂.stream_run hrun₂ hstays₂
  have hb : b₁ = b₂ := by
    rw [hsame, hexec₂, Option.some.injEq] at hexec₁
    exact hexec₁.symm
  refine ⟨stream₁, stream₂, hget₁, hget₂, ?_⟩
  rw [hshows₁.frames, hshows₂.frames, hfilter₁, hfilter₂, hb]

/-- A client that is alone, and one that comes later and is not. -/
theorem Monitor.streams_alike_crowded : ∃ s₂ t₁ t₂,
    exec (Monitor.apply plainWriters) pairMonitor [.connect none, pinged "konf:b", .poll 0] = some s₂ ∧
    exec (Monitor.apply plainWriters) pairMonitor [.connect none, pinged "konf:a", .poll 0] = some t₁ ∧
    exec (Monitor.apply plainWriters) s₂
      [.connect none, .hangUp 0, pinged "konf:a", .bus .subscribe, .poll 1] = some t₂ ∧
    ∃ stream₁ stream₂, t₁.streams.get pairMonitor.bus.nextReceiver = some stream₁ ∧
      t₂.streams.get s₂.bus.nextReceiver = some stream₂ ∧ stream₁.frames = stream₂.frames := by
  have hfirst : ((exec (Monitor.apply plainWriters) pairMonitor
      [.connect none, pinged "konf:b", .poll 0]).map fun s => s.bus.nextReceiver) = some 1 := by
    decide +kernel
  have hsecond : (exec (Monitor.apply plainWriters) pairMonitor
      [.connect none, pinged "konf:a", .poll 0]).isSome = true := by decide +kernel
  have hthird : ((exec (Monitor.apply plainWriters) pairMonitor
      [.connect none, pinged "konf:b", .poll 0]).bind fun s => exec (Monitor.apply plainWriters) s
        [.connect none, .hangUp 0, pinged "konf:a", .bus .subscribe, .poll 1]).isSome = true := by
    decide +kernel
  obtain ⟨s₂, hs₂, hnext⟩ := Option.map_eq_some_iff.mp hfirst
  obtain ⟨t₁, ht₁⟩ := Option.isSome_iff_exists.mp hsecond
  rw [hs₂, Option.bind_some] at hthird
  obtain ⟨t₂, ht₂⟩ := Option.isSome_iff_exists.mp hthird
  have hreached : s₂.Reached plainWriters id 2 :=
    exec_reaches (fun _ _ _ ha => ha) pairMonitor_reached hs₂
  refine ⟨s₂, t₁, t₂, hs₂, ht₁, ht₂,
    Monitor.streams_alike pairMonitor_reached hreached ht₁ ht₂ ?_ ?_ ?_⟩
  · simp [pinged]
  · rw [hnext]
    simp [pinged]
  · rw [hnext]
    rfl

end Streams
end Konf.Backend
