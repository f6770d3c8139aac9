import Konf.Backend.Monitor
import Konf.Runtime.Outcome

/-! # The chat stream

Model of the response body of `chat` (`konf-backend/src/api/chat.rs`) over a streaming run. The forwarding
task of the run passes events into the channel of its caller while there is room, and the body takes out
one at each poll and turns it into a frame, up to the first terminal one. -/

namespace Konf.Backend
open Konf.Substrate Konf.Runtime Konf.Transition
set_option autoImplicit false

/-! ## Frames -/

def progressName : ProgressType → String
  | .textDelta => "text_delta"
  | .toolStart => "tool_start"
  | .toolEnd => "tool_end"
  | .status => "status"

def startFrame (w : Writers) (runId : Uuid) : Frame :=
  ⟨"start", w.object [("run_id", .str (w.formatUuid runId))]⟩

def chatFrame (w : Writers) (runId : Uuid) : StreamEvent → Frame
  | .start workflowId => ⟨"workflow_start", w.object [("workflow_id", .str workflowId)]⟩
  | .progress nodeId eventType data =>
    ⟨progressName eventType, w.object [("data", data), ("node_id", .str nodeId)]⟩
  | .done output => ⟨"done", w.object [("output", output), ("run_id", .str (w.formatUuid runId))]⟩
  | .error code message retryable =>
    ⟨"error", w.object [("code", .str code), ("message", .str message), ("retryable", .bool retryable)]⟩

/-! ## The body of the response -/

/-- The body before its first poll, in its loop, and after it. -/
inductive ChatPhase
  | unopened
  | streaming
  | ended
deriving DecidableEq

structure ChatStream where
  run : LiveRun
  -- what the forwarding task has passed on and the body has not taken
  channel : List StreamEvent
  frames : List Frame
  phase : ChatPhase

/-- The run moves, its forwarding task passes an event on; the body is polled, or finds the channel
closed; the client hangs up. -/
inductive ChatMove
  | run (m : LifeMove)
  | pass
  | poll
  | finish
  | hangUp

/-- The moves that involve the caller. -/
def involvesCaller : LifeMove → Bool
  | .pass | .leave => true
  | _ => false

section Steps
variable (w : Writers) (runId : Uuid) (l : Launch)

def ChatStream.take (c : ChatStream) (e : StreamEvent) (rest : List StreamEvent) : ChatStream :=
  { c with
    channel := rest
    frames := c.frames ++ [chatFrame w runId e]
    phase := if e.isTerminal then .ended else .streaming }

inductive ChatStep (c : ChatStream) : ChatMove → ChatStream → Prop
  | run {m : LifeMove} {r' : LiveRun} (hm : involvesCaller m = false) (h : LifeStep l c.run m r') :
      ChatStep c (.run m) { c with run := r' }
  | pass {e : StreamEvent} {r' : LiveRun} (hw : c.run.watcher = .forwarding (some e))
      (hstays : c.run.callerGone = false) (hroom : c.channel.length < l.env.config.streamBuffer)
      (h : LifeStep l c.run .pass r') :
      ChatStep c .pass { c with run := r', channel := c.channel ++ [e] }
  | passGone {r' : LiveRun} (hgone : c.run.callerGone = true) (h : LifeStep l c.run .pass r') :
      ChatStep c .pass { c with run := r' }
  | opening (hphase : c.phase = .unopened) :
      ChatStep c .poll { c with frames := [startFrame w runId], phase := .streaming }
  | poll {e : StreamEvent} {rest : List StreamEvent} (hphase : c.phase = .streaming)
      (hchannel : c.channel = e :: rest) : ChatStep c .poll (c.take w runId e rest)
  | finish (hphase : c.phase = .streaming) (hchannel : c.channel = [])
      (hclosed : c.run.watcher = .ended) : ChatStep c .finish { c with phase := .ended }
  | hangUp {r' : LiveRun} (h : LifeStep l c.run .leave r') :
      ChatStep c .hangUp { c with run := r', channel := [], phase := .ended }

/-- `start_streaming` has given the handler the receiver of a run. -/
def ChatStream.Opened (c : ChatStream) : Prop :=
  c = ⟨l.start, [], [], .unopened⟩ ∧ l.start.watcher = .forwarding none

def ChatStream.opening (c : ChatStream) : List Frame :=
  if c.phase = .unopened then [] else [startFrame w runId]

end Steps

/-- A step, when it is possible. -/
def ChatStream.apply (w : Writers) (runId : Uuid) (l : Launch) (c : ChatStream) :
    ChatMove → Option ChatStream
  | .run m =>
    if involvesCaller m then none else (c.run.apply l m).map fun r => { c with run := r }
  | .pass => match c.run.watcher with
    | .forwarding (some e) =>
      if c.run.callerGone then (c.run.apply l .pass).map fun r => { c with run := r }
      else if c.channel.length < l.env.config.streamBuffer then
        (c.run.apply l .pass).map fun r => { c with run := r, channel := c.channel ++ [e] }
      else none
    | _ => none
  | .poll => match c.phase, c.channel with
    | .unopened, _ => some { c with frames := [startFrame w runId], phase := .streaming }
    | .streaming, e :: rest => some (c.take w runId e rest)
    | _, _ => none
  | .finish =>
    if c.phase = .streaming ∧ c.channel = [] ∧ c.run.watcher.hasEnded = true then
      some { c with phase := .ended }
    else none
  | .hangUp => (c.run.apply l .leave).map fun r => { c with run := r, channel := [], phase := .ended }

theorem ChatStream.apply_sound {w : Writers} {runId : Uuid} {l : Launch} {c c' : ChatStream}
    {m : ChatMove} (h : c.apply w runId l m = some c') : ChatStep w runId l c m c' := by
  cases m with
  | run m =>
    simp only [ChatStream.apply] at h
    split_ifs at h with hm
    obtain ⟨r, hr, rfl⟩ := Option.map_eq_some_iff.mp h
    exact .run (Bool.not_eq_true _ ▸ hm) (LiveRun.apply_sound hr)
  | pass =>
    simp only [ChatStream.apply] at h
    split at h
    · rename_i e hw
      split_ifs at h with hgone hroom
      · obtain ⟨r, hr, rfl⟩ := Option.map_eq_some_iff.mp h
        exact .passGone hgone (LiveRun.apply_sound hr)
      · obtain ⟨r, hr, rfl⟩ := Option.map_eq_some_iff.mp h
        exact .pass hw (Bool.not_eq_true _ ▸ hgone) hroom (LiveRun.apply_sound hr)
    · cases h
  | poll =>
    simp only [ChatStream.apply] at h
    split at h
    · rename_i hphase
      cases h
      exact .opening hphase
    · rename_i hphase hchannel
      cases h
      exact .poll hphase hchannel
    · cases h
  | finish =>
    simp only [ChatStream.apply] at h
    split_ifs at h with hdone
    cases h
    exact .finish hdone.1 hdone.2.1 (Watcher.ended_of hdone.2.2)
  | hangUp =>
    simp only [ChatStream.apply] at h
    obtain ⟨r, hr, rfl⟩ := Option.map_eq_some_iff.mp h
    exact .hangUp (LiveRun.apply_sound hr)

/-! ## What has been passed on -/

def verdictOf (delivered : List StreamEvent) : Option FinalStatus :=
  delivered.getLast?.bind streamFinal

theorem streamFinal_eq_none {e : StreamEvent} (h : e.isTerminal = false) : streamFinal e = none := by
  cases e with
  | done | error => cases h
  | start | progress => rfl

theorem verdictOf_of_none {delivered : List StreamEvent} (h : ∀ e ∈ delivered, e.isTerminal = false) :
    verdictOf delivered = none := by
  unfold verdictOf
  cases hlast : delivered.getLast? with
  | none => rfl
  | some e => exact streamFinal_eq_none (h e (List.mem_of_getLast? hlast))

/-- The forwarding task has passed these events on, and its records go by the last of them. -/
def Delivered (r : LiveRun) (delivered : List StreamEvent) : Prop :=
  match r.watcher with
  | .forwarding held => (∀ e ∈ delivered, e.isTerminal = false) ∧
      delivered ++ (held.toList ++ r.queue) = r.stream ∧ r.status.isTerminal = false
  | .over final => delivered <+: r.stream ∧ (∀ e ∈ delivered.dropLast, e.isTerminal = false) ∧
      final = verdictOf delivered ∧ r.status.isTerminal = false
  | .overRecorded final => delivered <+: r.stream ∧
      (∀ e ∈ delivered.dropLast, e.isTerminal = false) ∧ final = verdictOf delivered ∧
      r.status = streamStatus final
  | .ended => delivered <+: r.stream ∧ (∀ e ∈ delivered.dropLast, e.isTerminal = false) ∧
      r.status = streamStatus (verdictOf delivered)
  | .absent | .collecting _ | .finished _ | .recorded _ => False

section Delivered
variable {l : Launch} {r r' : LiveRun} {m : LifeMove} {delivered : List StreamEvent}

theorem aside_delivered (ha : Aside r r') (h : delivered <+: r.stream) : delivered <+: r'.stream := by
  obtain ⟨hstream, -⟩ | ⟨e, hstream, -⟩ := ha.stream
  · rw [hstream]
    exact h
  · rw [hstream]
    exact h.trans (List.prefix_append _ _)

theorem Delivered.aside (h : Delivered r delivered) (ha : Aside r r') : Delivered r' delivered := by
  unfold Delivered at h ⊢
  rw [ha.watcher, ha.status]
  split at h
  · rename_i held hw
    obtain ⟨hmore, hall, hstatus⟩ := h
    refine ⟨hmore, ?_, hstatus⟩
    obtain ⟨hstream, hqueue⟩ | ⟨e, hstream, hqueue⟩ := ha.stream
    · rw [hstream, hqueue]
      exact hall
    · rw [hstream, hqueue, LiveRun.queued, if_pos (by rw [hw]; rfl), ← hall]
      simp only [List.append_assoc]
  · exact ⟨aside_delivered ha h.1, h.2⟩
  · exact ⟨aside_delivered ha h.1, h.2⟩
  · exact ⟨aside_delivered ha h.1, h.2⟩
  all_goals exact h

/-- The step lemma: what the run does besides passing an event on. -/
theorem Delivered.step (h : Delivered r delivered) (hc : r.Closing l) (hm : involvesCaller m = false)
    (hs : LifeStep l r m r') : Delivered r' delivered := by
  cases hby : m.byWatcher with
  | false => exact h.aside (hs.aside hc hby)
  | true =>
    unfold Delivered at h
    cases hs with
    | take hw hq =>
      rw [hw] at h
      obtain ⟨hmore, hall, hstatus⟩ := h
      refine ⟨hmore, ?_, hstatus⟩
      rw [hq] at hall
      exact hall
    | closed hw hq hgone =>
      rw [hw] at h
      obtain ⟨hmore, hall, hstatus⟩ := h
      rw [hq, Option.toList_none, List.append_nil, List.append_nil] at hall
      refine ⟨?_, ?_, (verdictOf_of_none hmore).symm, hstatus⟩
      · rw [hall]
        exact List.prefix_rfl
      · intro e he
        exact hmore e (List.dropLast_subset _ he)
    | streamRecord hw =>
      rw [hw] at h
      obtain ⟨hfirst, hlast, hfinal, -⟩ := h
      exact ⟨hfirst, hlast, hfinal, rfl⟩
    | streamAppend hw =>
      rw [hw] at h
      obtain ⟨hfirst, hlast, hfinal, hstatus⟩ := h
      exact ⟨hfirst, hlast, hfinal ▸ hstatus⟩
    | pass | passLast => cases hm
    | collect hw | drained hw | joinFailed hw | timeout hw | record hw | append hw =>
      rw [hw] at h
      exact h.elim
    | _ => cases hby

/-- And passing one on. -/
theorem Delivered.pass (h : Delivered r delivered) {e : StreamEvent}
    (hw : r.watcher = .forwarding (some e)) (hs : LifeStep l r .pass r') : Delivered r' (delivered ++ [e]) := by
  unfold Delivered at h
  rw [hw] at h
  obtain ⟨hmore, hall, hstatus⟩ := h
  cases hs with
  | pass hw' hgo hmore' =>
    cases hw.symm.trans hw'
    refine ⟨?_, ?_, hstatus⟩
    · intro e' he'
      obtain he' | he' := List.mem_append.mp he'
      · exact hmore e' he'
      · rw [List.mem_singleton.mp he']
        exact hmore'
    · rw [List.append_assoc]
      exact hall
  | passLast hw' hlast =>
    cases hw.symm.trans hw'
    refine ⟨⟨r.queue, ?_⟩, ?_, ?_, hstatus⟩
    · rw [List.append_assoc]
      exact hall
    · rw [List.dropLast_concat]
      exact hmore
    · rw [verdictOf, List.getLast?_concat]
      rfl

end Delivered

/-! ## What the client is shown -/

theorem LifeStep_callerGone {l : Launch} {r r' : LiveRun} {m : LifeMove} (h : LifeStep l r m r')
    (hm : m ≠ .leave) : r'.callerGone = r.callerGone := by
  cases h with
  | leave => exact absurd rfl hm
  | _ => rfl

section Shown
variable {w : Writers} {runId : Uuid} {l : Launch} {c c' : ChatStream} {m : ChatMove}

/-- The frames show these events, the next ones are in the channel, and the body ends with a terminal
event or with the run. -/
structure ChatStream.Shows (w : Writers) (runId : Uuid) (c : ChatStream) (shown : List StreamEvent) :
    Prop where
  frames : c.frames = c.opening w runId ++ shown.map (chatFrame w runId)
  delivered : Delivered c.run (shown ++ c.channel)
  unopened : c.phase = .unopened → shown = []
  streaming : c.phase = .streaming → ∀ e ∈ shown, e.isTerminal = false
  ended : c.phase = .ended → c.channel = [] ∧ ((∃ e ∈ shown, e.isTerminal = true) ∨ c.run.watcher = .ended)

theorem Delivered.dropLast {r : LiveRun} {delivered : List StreamEvent} (h : Delivered r delivered) :
    delivered <+: r.stream ∧ ∀ e ∈ delivered.dropLast, e.isTerminal = false := by
  unfold Delivered at h
  split at h
  · obtain ⟨hmore, hall, -⟩ := h
    exact ⟨⟨_, hall⟩, fun e he => hmore e (List.dropLast_subset _ he)⟩
  · exact ⟨h.1, h.2.1⟩
  · exact ⟨h.1, h.2.1⟩
  · exact ⟨h.1, h.2.1⟩
  all_goals exact h.elim

/-- A terminal event is the last that is delivered. -/
theorem Delivered.channel_nil {r : LiveRun} {shown channel : List StreamEvent} {e : StreamEvent}
    (h : Delivered r (shown ++ [e] ++ channel)) (he : e.isTerminal = true) : channel = [] := by
  cases channel with
  | nil => rfl
  | cons x channel =>
    have hlast := h.dropLast.2 e
    rw [List.dropLast_append_of_ne_nil (by simp)] at hlast
    have hfalse := hlast (by simp)
    rw [he] at hfalse
    cases hfalse

theorem ended_stays {r r' : LiveRun} {m : LifeMove} (h : LifeStep l r m r') (hw : r.watcher = .ended) :
    r'.watcher = .ended := by
  cases h with
  | work | emit | announce | hangUp | interaction | leave => exact hw
  | collect hw' | take hw' | pass hw' | passLast hw' | drained hw' | joinFailed hw' | closed hw'
  | timeout hw' | record hw' | streamRecord hw' | append hw' | streamAppend hw' =>
    cases hw.symm.trans hw'

/-- The step lemma, for a client who stays. -/
theorem ChatStream.Shows.step {shown : List StreamEvent} (h : c.Shows w runId shown)
    (hc : c.run.Closing l) (hs : ChatStep w runId l c m c') (hstays : c'.run.callerGone = false) :
    ∃ shown', c'.Shows w runId shown' := by
  cases hs with
  | run hm hlife =>
    refine ⟨shown, h.frames, h.delivered.step hc hm hlife, h.unopened, h.streaming, ?_⟩
    intro hended
    obtain ⟨hchannel, hlast⟩ := h.ended hended
    exact ⟨hchannel, hlast.imp id (ended_stays hlife)⟩
  | pass hw _ hroom hlife =>
    have hdelivered := h.delivered.pass hw hlife
    rw [List.append_assoc] at hdelivered
    refine ⟨shown, h.frames, hdelivered, h.unopened, h.streaming, ?_⟩
    intro hended
    have hforwarding := h.delivered
    unfold Delivered at hforwarding
    rw [hw] at hforwarding
    obtain ⟨-, ⟨e', he', hterminal⟩ | hover⟩ := h.ended hended
    · rw [hforwarding.1 e' (List.mem_append_left _ he')] at hterminal
      cases hterminal
    · cases hw.symm.trans hover
  | passGone hgone hlife =>
    rw [LifeStep_callerGone hlife (by simp), hgone] at hstays
    cases hstays
  | opening hphase =>
    have hframes := h.frames
    have hnone := h.unopened hphase
    subst hnone
    refine ⟨[], ?_, h.delivered, fun _ => rfl, nofun, nofun⟩
    rfl
  | @poll e rest hphase hchannel =>
    have hdelivered : Delivered c.run (shown ++ [e] ++ rest) := by
      rw [List.append_assoc]
      have hbefore := h.delivered
      rw [hchannel] at hbefore
      exact hbefore
    refine ⟨shown ++ [e], ?_, hdelivered, ?_, ?_, ?_⟩
    · have hopening : (c.take w runId e rest).opening w runId = c.opening w runId := by
        unfold ChatStream.opening ChatStream.take
        rw [hphase]
        cases e.isTerminal <;> rfl
      rw [hopening, List.map_append, ← List.append_assoc, ← h.frames]
      rfl
    · intro hunopened
      unfold ChatStream.take at hunopened
      cases hterminal : e.isTerminal <;> simp [hterminal] at hunopened
    · intro hstreaming e' he'
      cases hterminal : e.isTerminal with
      | true => simp [ChatStream.take, hterminal] at hstreaming
      | false =>
        obtain he' | he' := List.mem_append.mp he'
        · exact h.streaming hphase e' he'
        · rw [List.mem_singleton.mp he']
          exact hterminal
    · intro hended
      cases hterminal : e.isTerminal with
      | false => simp [ChatStream.take, hterminal] at hended
      | true => exact ⟨hdelivered.channel_nil hterminal, .inl ⟨e, by simp, hterminal⟩⟩
  | finish hphase hchannel hclosed =>
    refine ⟨shown, ?_, h.delivered, nofun, nofun, fun _ => ⟨hchannel, .inr hclosed⟩⟩
    have hframes := h.frames
    rw [ChatStream.opening, hphase] at hframes
    exact hframes
  | hangUp hlife =>
    cases hlife
    cases hstays

theorem ChatStep.closing (hs : ChatStep w runId l c m c') (hc : c.run.Closing l) : c'.run.Closing l := by
  cases hs with
  | run _ hlife | pass _ _ _ hlife | passGone _ hlife | hangUp hlife => exact hc.step hlife
  | opening | poll | finish => exact hc

theorem ChatStep.stayed (hs : ChatStep w runId l c m c') (hstays : c'.run.callerGone = false) :
    c.run.callerGone = false := by
  cases hs with
  | run hm hlife =>
    rw [LifeStep_callerGone hlife (by rintro rfl; cases hm)] at hstays
    exact hstays
  | pass _ hthere => exact hthere
  | passGone hgone hlife =>
    rw [LifeStep_callerGone hlife (by simp)] at hstays
    exact hstays
  | hangUp hlife =>
    cases hlife
    cases hstays
  | opening | poll | finish => exact hstays

theorem ChatStream.reaches_shows (h : Reaches (ChatStep w runId l) (ChatStream.Opened l) c) :
    c.run.Closing l ∧ (c.run.callerGone = false → ∃ shown, c.Shows w runId shown) := by
  induction h with
  | start h =>
    obtain ⟨rfl, hw⟩ := h
    refine ⟨l.start_closing, fun _ => ⟨[], rfl, ?_, fun _ => rfl, nofun, nofun⟩⟩
    have hstart := l.start_cases
    unfold Delivered
    rw [hw]
    obtain hs | ⟨e, -, hs⟩ | ⟨-, hs⟩ | ⟨-, hs⟩ := hstart
    all_goals
      rw [hs] at hw ⊢
      simp [LiveRun.stream, Launch.inserted, RunStatus.isTerminal]
  | tail _ _ hs ih =>
    refine ⟨hs.closing ih.1, ?_⟩
    intro hstays
    obtain ⟨shown, hshown⟩ := ih.2 (hs.stayed hstays)
    exact hshown.step ih.1 hs hstays

end Shown

theorem Delivered.status {r : LiveRun} {delivered : List StreamEvent} (h : Delivered r delivered)
    (hstatus : r.status.isTerminal = true) : r.status = streamStatus (verdictOf delivered) := by
  unfold Delivered at h
  split at h
  · rw [h.2.2] at hstatus
    cases hstatus
  · rw [h.2.2.2] at hstatus
    cases hstatus
  · rw [h.2.2.2, h.2.2.1]
  · exact h.2.2
  all_goals exact h.elim

/-- In every reachable state of a chat whose client stays: the frames are the start frame and one frame
for each of the first events that the run has sent, in order, and only the last of them can be terminal.
The body ends with a terminal event or with the run, and then the status on record is that of the last
event shown. If no tool sends a terminal event of its own, the terminal frame tells what `execute` has
returned. -/
theorem chat_faithful (w : Writers) (runId : Uuid) (l : Launch) {c : ChatStream}
    (h : Reaches (ChatStep w runId l) (ChatStream.Opened l) c) (hstays : c.run.callerGone = false) :
    ∃ shown, c.frames = c.opening w runId ++ shown.map (chatFrame w runId) ∧ shown <+: c.run.stream ∧
      (∀ e ∈ shown.dropLast, e.isTerminal = false) ∧
      (c.phase = .ended → (∃ e ∈ shown, e.isTerminal = true) ∨ c.run.watcher = .ended) ∧
      (c.phase = .ended → c.run.status.isTerminal = true → c.run.status = streamStatus (verdictOf shown)) ∧
      ((∀ e ∈ c.run.early ++ c.run.late, e.isTerminal = false) → ∀ e ∈ shown, e.isTerminal = true →
        ∃ result, c.run.worker.result = some result ∧ l.farewell result = some e) := by
  obtain ⟨hclosing, hall⟩ := ChatStream.reaches_shows h
  obtain ⟨shown, hshown⟩ := hall hstays
  obtain ⟨hfirst, hlast⟩ := hshown.delivered.dropLast
  have hshownPrefix : shown <+: c.run.stream := (List.prefix_append _ _).trans hfirst
  refine ⟨shown, hshown.frames, hshownPrefix, ?_, fun hended => (hshown.ended hended).2, ?_, ?_⟩
  · intro e he
    apply hlast
    cases hchannel : c.channel with
    | nil =>
      rw [List.append_nil]
      exact he
    | cons x rest =>
      rw [List.dropLast_append_of_ne_nil (by simp)]
      exact List.mem_append_left _ (List.dropLast_subset _ he)
  · intro hended hstatus
    have hdelivered := hshown.delivered
    rw [(hshown.ended hended).1, List.append_nil] at hdelivered
    exact hdelivered.status hstatus
  · intro htools e he hterminal
    have hsent := hshownPrefix.subset he
    rw [LiveRun.stream, List.mem_append, List.mem_append] at hsent
    have hsaid : e ∈ c.run.said.toList := by
      obtain (hearly | hsaid) | hlate := hsent
      · rw [htools e (List.mem_append_left _ hearly)] at hterminal
        cases hterminal
      · exact hsaid
      · rw [htools e (List.mem_append_right _ hlate)] at hterminal
        cases hterminal
    exact Option.bind_eq_some_iff.mp (hclosing.said e (Option.mem_toList.mp hsaid))

def openedChat : ChatStream := ⟨pairStreaming.start, [], [], .unopened⟩

/-- A tool reports progress, the run completes, and the client reads to the end. -/
def readMoves : List ChatMove :=
  [.poll, .run (.emit (.progress "a" .status (.str "working")))] ++ (pairScript .null).map .run ++
    [.run .recv, .pass, .poll, .run .recv, .pass, .run .record, .poll, .run .append]

def readChat : Option ChatStream := exec (ChatStream.apply plainWriters 7 pairStreaming) openedChat readMoves

theorem chat_faithful_read : ∃ c, readChat = some c ∧ c.phase = .ended ∧ c.run.status.isTerminal = true ∧
    c.frames.map Frame.event = ["start", "status", "done"] ∧ ∃ shown,
      c.frames = c.opening plainWriters 7 ++ shown.map (chatFrame plainWriters 7) ∧
      shown <+: c.run.stream ∧ c.run.status = streamStatus (verdictOf shown) := by
  have hends : readChat.isSome = true := by decide +kernel
  obtain ⟨c, hc⟩ := Option.isSome_iff_exists.mp hends
  have hfacts : ∀ c ∈ readChat, c.phase = .ended ∧ c.run.status.isTerminal = true ∧
      c.frames.map Frame.event = ["start", "status", "done"] ∧ c.run.callerGone = false := by
    decide +kernel
  obtain ⟨hended, hstatus, hframes, hstays⟩ := hfacts c hc
  have hopened : ChatStream.Opened pairStreaming openedChat := ⟨rfl, rfl⟩
  have hsound : ∀ c m c', ChatStream.apply plainWriters 7 pairStreaming c m = some c' →
      ChatStep plainWriters 7 pairStreaming c m c' := by
    intro c m c' h
    exact ChatStream.apply_sound h
  have hreached := exec_reaches hsound (.start hopened) hc
  obtain ⟨shown, hshown, hfirst, -, -, hrecord, -⟩ :=
    chat_faithful plainWriters 7 pairStreaming hreached hstays
  exact ⟨c, hc, hended, hstatus, hframes, shown, hshown, hfirst, hrecord hended hstatus⟩

end Konf.Backend
