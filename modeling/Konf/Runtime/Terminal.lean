import Konf.Runtime.Authority
import Konf.Runtime.Lifecycle

/-! # After the end of a run

A terminal status is written by the watcher, the steps are taken by the worker, and nothing stops the
worker when the watcher stops early. There are three ways for that: the workflow timeout, a caller who
has gone when an event is passed on, and a tool that sends a terminal event on the stream. Without
them a terminal status means that `execute` has returned. -/

namespace Konf.Runtime
open Konf.Substrate Konf.Executor Konf.Transition
set_option autoImplicit false

/-- The events of the stream that the watcher has not dealt with. -/
def LiveRun.pending (r : LiveRun) : List StreamEvent :=
  match r.watcher with
  | .forwarding (some e) => e :: r.queue
  | _ => r.queue

/-- The forwarding task is about to pass on a terminal event. -/
def Watcher.holdsLast : Watcher → Bool
  | .forwarding (some e) => e.isTerminal
  | _ => false

/-- The watcher does not stop before `execute` has returned: the timeout fires afterwards only, a
caller is gone only when the event is the last one or `execute` has returned, and no tool ends a
forwarded stream. -/
def StaysOn (l : Launch) (r : LiveRun) : LifeMove → Prop
  | .timeout => r.worker.settled = true
  | .pass => r.callerGone = true → r.worker.settled = true ∨ r.watcher.holdsLast = true
  | .emit e => l.streaming = true → e.isTerminal = true → r.worker.settled = true
  | _ => True

instance (l : Launch) (r : LiveRun) : (m : LifeMove) → Decidable (StaysOn l r m)
  | .timeout => inferInstanceAs (Decidable (r.worker.settled = true))
  | .pass => inferInstanceAs
    (Decidable (r.callerGone = true → r.worker.settled = true ∨ r.watcher.holdsLast = true))
  | .emit e => inferInstanceAs
    (Decidable (l.streaming = true → e.isTerminal = true → r.worker.settled = true))
  | .work _ | .announce | .hangUp | .interaction _ | .leave | .recv | .drained _ | .record
  | .append => inferInstanceAs (Decidable True)

/-- A run whose worker has not settled is still watched. -/
structure LiveRun.Watched (l : Launch) (r : LiveRun) : Prop where
  senders : r.sendersGone = false
  receiving : r.watcher.receiving = true
  forwards : ∀ held, r.watcher = .forwarding held → l.streaming = true
  pending : l.streaming = true → ∀ e ∈ r.pending, e.isTerminal = false
  status : r.status.isTerminal = false

section Step
variable {l : Launch} {r r' : LiveRun} {m : LifeMove}

theorem LiveRun.pending_send {r : LiveRun} (hrec : r.watcher.receiving = true) (e : StreamEvent) :
    (r.send e).pending = r.pending ++ [e] := by
  simp only [LiveRun.pending, LiveRun.send, LiveRun.queued, if_pos hrec]
  split <;> simp

/-- Without an early stop, a watched run stays watched until its worker settles. -/
theorem LiveRun.Watched.step (hi : r.Watched l) (hset : r.worker.settled = false)
    (hok : StaysOn l r m) (h : LifeStep l r m r') : r'.Watched l := by
  have hrec := hi.receiving
  cases h with
  | work hw _ => exact ⟨hi.senders, hi.receiving, hi.forwards, hi.pending, hi.status⟩
  | @emit e hopen htool hroom =>
    refine ⟨hi.senders, hi.receiving, hi.forwards, ?_, hi.status⟩
    intro hstream e' he'
    rw [LiveRun.pending_send hrec, List.mem_append, List.mem_singleton] at he'
    obtain he' | rfl := he'
    · exact hi.pending hstream e' he'
    · by_contra hterm
      rw [hok hstream (Bool.not_eq_false _ ▸ hterm)] at hset
      cases hset
  | announce hres => rw [Worker.settled_of_result hres] at hset; cases hset
  | hangUp hs => rw [hs] at hset; cases hset
  | interaction | leave => exact ⟨hi.senders, hi.receiving, hi.forwards, hi.pending, hi.status⟩
  | @collect c e rest hw hq =>
    refine ⟨hi.senders, rfl, nofun, ?_, hi.status⟩
    intro hstream e' he'
    refine hi.pending hstream e' ?_
    simp only [LiveRun.pending, hw, hq]
    exact List.mem_cons_of_mem _ he'
  | @take e rest hw hq =>
    refine ⟨hi.senders, rfl, fun _ _ => hi.forwards _ hw, ?_, hi.status⟩
    intro hstream e' he'
    refine hi.pending hstream e' ?_
    simp only [LiveRun.pending, hw, hq]
    exact he'
  | @pass e hw _ _ =>
    refine ⟨hi.senders, rfl, fun _ _ => hi.forwards _ hw, ?_, hi.status⟩
    intro hstream e' he'
    refine hi.pending hstream e' ?_
    simp only [LiveRun.pending, hw]
    exact List.mem_cons_of_mem _ he'
  | @passLast e hw hlast =>
    have hmore : e.isTerminal = false := by
      refine hi.pending (hi.forwards _ hw) e ?_
      simp only [LiveRun.pending, hw]
      exact List.mem_cons_self ..
    have hgone : r.callerGone = true := hlast.resolve_right (by rw [hmore]; exact Bool.false_ne_true)
    obtain hsettled | hterm := hok hgone
    · rw [hsettled] at hset
      cases hset
    · rw [hw] at hterm
      cases hmore.symm.trans hterm
  | drained hw _ hgone | joinFailed hw _ hgone | closed hw _ hgone =>
    rw [hi.senders] at hgone
    cases hgone
  | timeout hw =>
    rw [show r.worker.settled = true from hok] at hset
    cases hset
  | record hw | streamRecord hw | append hw | streamAppend hw =>
    rw [hw] at hrec
    cases hrec

end Step

/-- Whether the watcher has stopped early is decided by the moves: the worker has settled, or the run
is watched. -/
theorem settled_or_watched {l : Launch} {r : LiveRun}
    (h : ReachesBy (LifeStep l) (StaysOn l) l.Started r) :
    r.worker.Sound l ∧ (r.worker.settled = true ∨ r.Watched l) := by
  induction h with
  | start h =>
    cases h
    refine ⟨l.start_sound, ?_⟩
    obtain hs | ⟨e, -, hs⟩ | ⟨-, hs⟩ | ⟨-, hs⟩ := l.start_cases
    · rw [hs]
      exact .inl rfl
    · rw [hs]
      exact .inl rfl
    · rw [hs]
      exact .inl rfl
    · rw [hs]
      refine .inr ⟨rfl, ?_, ?_, ?_, rfl⟩
      all_goals
        unfold Launch.watcher
        cases l.streaming with
        | true => simp [Watcher.receiving, LiveRun.pending, Launch.inserted]
        | false => simp [Watcher.receiving, LiveRun.pending, Launch.inserted]
  | @tail r r' m _ hok hstep ih =>
    obtain ⟨hsound, hi⟩ := ih
    refine ⟨hstep.sound hsound, ?_⟩
    cases hset : r.worker.settled with
    | true => exact .inl (hstep.settled hsound hset)
    | false =>
      obtain hsettled | hwatched := hi
      · rw [hsettled] at hset
        cases hset
      · exact .inr (hwatched.step hset hok hstep)

/-- In a run whose watcher does not stop early, a terminal status is final: from there on no step
begins, no tool is called and no task of the run's executor is left. -/
theorem terminal_run_rests (l : Launch) (r r' : LiveRun)
    (h : ReachesBy (LifeStep l) (StaysOn l) l.Started r) (hterm : r.status.isTerminal = true)
    (hlater : Reaches (LifeStep l) (· = r) r') :
    r'.worker.trace = r.worker.trace ∧ r'.worker.tasks = [] := by
  obtain ⟨hsound, hi⟩ := settled_or_watched h
  have hset : r.worker.settled = true := by
    obtain hset | hwatched := hi
    · exact hset
    · rw [hwatched.status] at hterm
      cases hterm
  obtain ⟨hsound', hset', htrace⟩ := settled_forever hsound hset hlater
  exact ⟨htrace, hsound'.tasks_nil hset'⟩

/-! ## A run of two steps -/

def pairWf : Workflow :=
  { Workflow.new "pair" "pair" "a" with
    steps := [{ Step.new "a" "echo" with edges := [⟨.step "b", none, 0⟩] }, Step.new "b" "echo"] }

def pairLaunch : Launch where
  sys := demoSystem
  scope := callerScope
  ctx := demoContext
  workflow := pairWf
  input := .null
  streaming := false

/-- One step of a task, from the top of its loop to its next step or to its first message. -/
def stepScript (output : Json) : List LifeMove :=
  [.work (.task 0), .work (.task 0), .work (.task 0), .work (.answer 0 (answers output)),
    .work (.task 0), .work (.task 0)]

/-- The two steps with the same output, the return of `execute`, its farewell and its end. -/
def pairScript (output : Json) : List LifeMove :=
  stepScript output ++ stepScript output ++
    ([.work (.task 0), .work (.recv 0 ["a"]), .work .main, .work .main, .work .main,
      .work (.join 0), .work .main, .announce, .hangUp] : List LifeMove)

/-- The run completes, and nothing moves afterwards. -/
theorem pair_rests : ∃ r r', ReachesBy (LifeStep pairLaunch) (StaysOn pairLaunch) pairLaunch.Started r ∧
    r.status.isTerminal = true ∧ Reaches (LifeStep pairLaunch) (· = r) r' ∧
      r'.worker.trace = r.worker.trace ∧ r'.worker.tasks = [] := by
  have hrun : (pairLaunch.life (StaysOn pairLaunch)
      (pairScript .null ++ [.recv, .drained "", .record])).any (fun r => r.status.isTerminal &&
        (exec (LiveRun.apply pairLaunch) r [.append, .work .cancel]).isSome) = true := by
    decide +kernel
  obtain ⟨r, hlife, hr⟩ := (Option.any_eq_true ..).mp hrun
  rw [Bool.and_eq_true] at hr
  obtain ⟨r', hexec⟩ := Option.isSome_iff_exists.mp hr.2
  have hreach := Launch.life_reaches hlife
  have hlater : Reaches (LifeStep pairLaunch) (· = r) r' :=
    exec_reaches (fun _ _ _ => LiveRun.apply_sound) (.start rfl) hexec
  exact ⟨r, r', hreach, hr.1, hlater, terminal_run_rests pairLaunch r r' hreach hr.1 hlater⟩

/-- The workflow timeout fires in the first step: the run is recorded as failed, and its second step
begins. -/
theorem step_begins_after_timeout : ∃ l r r', Reaches (LifeStep l) l.Started r ∧
    r.status.isTerminal = true ∧ Reaches (LifeStep l) (· = r) r' ∧
    r.worker.begun = ["a"] ∧ r'.worker.begun = ["a", "b"] := by
  have hrun : (pairLaunch.life (fun _ _ => True)
      [.work (.task 0), .work (.task 0), .timeout, .record]).any (fun r =>
        r.status.isTerminal && decide (r.worker.begun = ["a"]) &&
          (exec (LiveRun.apply pairLaunch) r
            [.work (.task 0), .work (.answer 0 (answers .null)), .work (.task 0), .work (.task 0),
              .work (.task 0), .work (.task 0)]).any
            fun r' => decide (r'.worker.begun = ["a", "b"])) = true := by
    decide +kernel
  obtain ⟨r, hlife, hr⟩ := (Option.any_eq_true ..).mp hrun
  rw [Bool.and_eq_true, Bool.and_eq_true] at hr
  obtain ⟨r', hexec, hr'⟩ := (Option.any_eq_true ..).mp hr.2
  have hlater : Reaches (LifeStep pairLaunch) (· = r) r' :=
    exec_reaches (fun _ _ _ => LiveRun.apply_sound) (.start rfl) hexec
  exact ⟨pairLaunch, r, r', Launch.life_reaches hlife, hr.1.1, hlater, of_decide_eq_true hr.1.2,
    of_decide_eq_true hr'⟩

end Konf.Runtime
