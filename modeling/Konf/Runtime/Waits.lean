import Konf.Runtime.Fleet

/-! # Waiting for a run

`Runtime::wait` polls the process table, and a garbage collection may remove the run that it waits for
once the run is over. `Runtime::run` starts the run and waits for it. A caller of `run` looks again
within some delay, a watcher writes its status within some delay of the instant it has read for it, and
what a garbage collection removes has some age: when the age is no less than both delays together, the
result of a run that `run` has started is not lost. -/

namespace Konf.Runtime
open Konf.Substrate Konf.Executor Konf.Transition Konf.EventBus
set_option autoImplicit false

/-- What `run` makes of the result of `Engine::run`. -/
def waitResult : Except KonfluxError Json → Except WaitError Json
  | .ok output => .ok output
  | .error e =>
    if e.isCancelled then .error (.engine (.execution (.cancelled e.display)))
    else .error (.engine (.execution (.nodeFailed "runtime" "wait" e.display)))

theorem waitAnswer_startStatus (result : Except KonfluxError Json) :
    waitAnswer (startStatus result) = some (waitResult result) := by
  cases result with
  | ok output => rfl
  | error e =>
    cases hcancel : e.isCancelled with
    | true => simp [startStatus, waitResult, waitAnswer, hcancel]
    | false => simp [startStatus, waitResult, waitAnswer, hcancel]

theorem waitAnswer_eq_none {status : RunStatus} (h : waitAnswer status = none) :
    status.isTerminal = false := by
  cases status <;> first | rfl | cases h

theorem isTerminal_of_waitAnswer {status : RunStatus} {answer : Except WaitError Json}
    (h : waitAnswer status = some answer) : status.isTerminal = true := by
  cases status <;> first | rfl | cases h

/-! ## Callers and runs -/

variable (delay writeDelay age : ℤ)

/-- Callers of `run` and watchers are prompt, and garbage collections spare what is young. -/
def Fleet.Prompt (s : Fleet) : FleetMove → Prop
  | .tick t =>
    (∀ w ∈ s.waiters, w.started = true → w.answer.isNone = true → t ≤ w.polledAt + delay) ∧
      ∀ r ∈ s.runs, ∀ c ∈ r.stamp, r.live.watcher.hasRecorded = false → t ≤ c.at_ + writeDelay
  | .condemn _ cutoff => cutoff + age ≤ s.now
  | _ => True

instance (s : Fleet) : (m : FleetMove) → Decidable (s.Prompt delay writeDelay age m)
  | .tick t => inferInstanceAs (Decidable (
    (∀ w ∈ s.waiters, w.started = true → w.answer.isNone = true → t ≤ w.polledAt + delay) ∧
      ∀ r ∈ s.runs, ∀ c ∈ r.stamp, r.live.watcher.hasRecorded = false → t ≤ c.at_ + writeDelay))
  | .condemn _ cutoff => inferInstanceAs (Decidable (cutoff + age ≤ s.now))
  | .start _ | .run _ | .life _ _ | .stamp _ | .record _ | .count _ | .announce _ | .append _
  | .others _ | .evict _ | .wait _ | .poll _ => inferInstanceAs (Decidable True)

/-- A caller of `run` that has no answer yet: the run is in the table, and if it is over it was not yet
when the caller has last looked. -/
structure Waiter.Pending (s : Fleet) (w : Waiter) (r : FleetRun) : Prop where
  spared : w.run ∉ s.condemned
  listed : r.listed = true
  looked : w.polledAt ≤ s.now
  prompt : s.now ≤ w.polledAt + delay
  young : ∀ t, r.completedAt = some t → w.polledAt ≤ t + writeDelay

/-- A caller and the run it waits for. -/
structure Waiter.Served (s : Fleet) (w : Waiter) (r : FleetRun) : Prop where
  row : s.runs[w.run]? = some r
  plain : w.started = true → r.launch.streaming = false
  answered : ∀ a, w.answer = some a → waitAnswer r.live.status = some a ∨
    w.started = false ∧ a = .error (.notFound w.run) ∧ r.listed = false
  pending : w.started = true → w.answer = none → w.Pending delay writeDelay s r

structure Fleet.Serving (s : Fleet) : Prop where
  waiters : ∀ w ∈ s.waiters, ∃ r, w.Served delay writeDelay s r
  stamps : ∀ r ∈ s.runs, ∀ c, r.stamp = some c → r.live.watcher.hasRecorded = false →
    s.now ≤ c.at_ + writeDelay

/-- A run after a step of its own. -/
structure FleetRun.Later (now : ℤ) (r r' : FleetRun) : Prop where
  launch : r'.launch = r.launch
  settled : r.live.watcher.hasRecorded = true → r'.live.status = r.live.status
  unlisted : r.listed = false → r'.listed = false
  completed : ∀ t, r'.completedAt = some t → r.completedAt = some t ∨ now ≤ t + writeDelay
  stamp : ∀ c, r'.stamp = some c → r'.live.watcher.hasRecorded = false →
    now ≤ c.at_ ∨ r.stamp = some c ∧ r.live.watcher.hasRecorded = false

/-! ## A look at the table -/

namespace Fleet
variable {s : Fleet} {w : Waiter} {r : FleetRun}

theorem polled_gone (hrow : s.row w.run = none) :
    s.polled w = { w with answer := some (.error (.notFound w.run)) } := by
  rw [polled, hrow]

theorem polled_over {a : Except WaitError Json} (hrow : s.row w.run = some r)
    (ha : waitAnswer r.live.status = some a) : s.polled w = { w with answer := some a } := by
  simp only [polled, hrow, ha]

theorem polled_open (hrow : s.row w.run = some r) (ha : waitAnswer r.live.status = none) :
    s.polled w = { w with polledAt := s.now } := by
  simp only [polled, hrow, ha]

end Fleet

section
variable {format : ℤ → String} {delay writeDelay age} {s s' : Fleet} {w : Waiter} {r r₀ r' : FleetRun}
  {i : ℕ}

theorem hasRecorded_of_terminal {told : List RunEvent} (h : r.Sound format i told)
    (hover : r.live.status.isTerminal = true) : r.live.watcher.hasRecorded = true := by
  by_contra hnot
  rw [Bool.not_eq_true] at hnot
  rw [(h.early hnot).1] at hover
  cases hover

/-- The callers after a step of one run. -/
theorem Waiter.Served.set (h : w.Served delay writeDelay s r) (hs : s.Sound format)
    (hi : s.runs[i]? = some r₀) (hruns : s'.runs = s.runs.set i r')
    (hlater : r₀.Later writeDelay s.now r') (hnow : s'.now = s.now)
    (hlisted : r'.listed = r₀.listed ∨ i ∈ s.condemned)
    (hcondemned : ∀ j ∈ s'.condemned, j ∈ s.condemned) : ∃ u, w.Served delay writeDelay s' u := by
  by_cases hw : w.run = i
  · have hsame : r₀ = r := Option.some.inj (hi.symm.trans (hw ▸ h.row))
    cases hsame
    have hlt : i < s.runs.length := (List.getElem?_eq_some_iff.mp hi).1
    refine ⟨r', ?_, ?_, ?_, ?_⟩
    · rw [hruns, hw, List.getElem?_set_self hlt]
    · rw [hlater.launch]
      exact h.plain
    · intro a ha
      obtain hanswer | ⟨hown, hnone, hgone⟩ := h.answered a ha
      · have hrec := hasRecorded_of_terminal (hs.runs i r hi) (isTerminal_of_waitAnswer hanswer)
        exact .inl (hlater.settled hrec ▸ hanswer)
      · exact .inr ⟨hown, hnone, hlater.unlisted hgone⟩
    · intro hown hopen
      have hpending := h.pending hown hopen
      refine ⟨fun hc => hpending.spared (hcondemned _ hc), ?_, hnow ▸ hpending.looked,
        hnow ▸ hpending.prompt, ?_⟩
      · obtain hsame | hc := hlisted
        · exact hsame.trans hpending.listed
        · exact absurd (hw ▸ hc) hpending.spared
      · intro t ht
        obtain hold | hnew := hlater.completed t ht
        · exact hpending.young t hold
        · exact hpending.looked.trans hnew
  · refine ⟨r, ?_, h.plain, h.answered, ?_⟩
    · rw [hruns, List.getElem?_set_ne fun hiw => hw hiw.symm]
      exact h.row
    · intro hown hopen
      have hpending := h.pending hown hopen
      exact ⟨fun hc => hpending.spared (hcondemned _ hc), hpending.listed, hnow ▸ hpending.looked,
        hnow ▸ hpending.prompt, hpending.young⟩

/-- A step of one run. -/
theorem Fleet.Serving.set (h : s.Serving delay writeDelay) (hs : s.Sound format)
    (hi : s.runs[i]? = some r) (hruns : s'.runs = s.runs.set i r') (hlater : r.Later writeDelay s.now r')
    (hnow : s'.now = s.now) (hwaiters : s'.waiters = s.waiters)
    (hlisted : r'.listed = r.listed ∨ i ∈ s.condemned) (hcondemned : ∀ j ∈ s'.condemned, j ∈ s.condemned)
    (hdelay : 0 ≤ writeDelay) : s'.Serving delay writeDelay := by
  refine ⟨?_, ?_⟩
  · intro w hw
    obtain ⟨u, hu⟩ := h.waiters w (hwaiters ▸ hw)
    exact hu.set hs hi hruns hlater hnow hlisted hcondemned
  · intro u hu c hc hrec
    rw [hnow]
    rw [hruns] at hu
    obtain hu | rfl := List.mem_or_eq_of_mem_set hu
    · exact h.stamps u hu c hc hrec
    · obtain hnew | ⟨hold, hbefore⟩ := hlater.stamp c hc hrec
      · exact Int.le_trans hnew (Int.le_add_of_nonneg_right hdelay)
      · exact h.stamps r (List.mem_of_getElem? hi) c hold hbefore

/-- A step that leaves the runs alone, and the callers but for their clock. -/
theorem Fleet.Serving.of_runs (hruns : s'.runs = s.runs)
    (hstamps : ∀ r ∈ s.runs, ∀ c, r.stamp = some c → r.live.watcher.hasRecorded = false →
      s'.now ≤ c.at_ + writeDelay)
    (hwaiters : ∀ w ∈ s'.waiters, ∃ r, w.Served delay writeDelay s' r) : s'.Serving delay writeDelay :=
  ⟨hwaiters, fun r hr => hstamps r (hruns ▸ hr)⟩

theorem Waiter.Served.aside (h : w.Served delay writeDelay s r) (hruns : s'.runs = s.runs)
    (hpending : w.Pending delay writeDelay s r → w.Pending delay writeDelay s' r) :
    w.Served delay writeDelay s' r :=
  ⟨hruns ▸ h.row, h.plain, h.answered, fun hown hopen => hpending (h.pending hown hopen)⟩

/-- A caller's look at the table. -/
theorem Waiter.Served.poll (h : w.Served delay writeDelay s r) (hs : s.Sound format)
    (hopen : w.answer = none) (hdelay : 0 ≤ delay) (hruns : s'.runs = s.runs) (hnow : s'.now = s.now)
    (hcondemned : s'.condemned = s.condemned) : (s.polled w).Served delay writeDelay s' r := by
  have hsound := hs.runs _ r h.row
  cases hlisted : r.listed with
  | false =>
    have hrow : s.row w.run = none := by
      rw [Fleet.row, h.row, Option.filter_some_neg (by simp [hlisted])]
    rw [Fleet.polled_gone hrow]
    refine ⟨hruns ▸ h.row, h.plain, ?_, ?_⟩
    · intro a ha
      cases ha
      refine .inr ⟨?_, rfl, hlisted⟩
      by_contra hown
      rw [Bool.not_eq_false] at hown
      exact absurd ((h.pending hown hopen).listed.symm.trans hlisted) (by decide)
    · intro _ hnone
      cases hnone
  | true =>
    have hrow : s.row w.run = some r := Fleet.row_eq_some.mpr ⟨h.row, hlisted⟩
    cases hanswer : waitAnswer r.live.status with
    | some answer =>
      rw [Fleet.polled_over hrow hanswer]
      refine ⟨hruns ▸ h.row, h.plain, ?_, ?_⟩
      · intro a ha
        exact .inl (hanswer.trans ha)
      · intro _ hnone
        cases hnone
    | none =>
      rw [Fleet.polled_open hrow hanswer]
      refine ⟨hruns ▸ h.row, h.plain, h.answered, ?_⟩
      intro hown _
      have hpending := h.pending hown hopen
      refine ⟨hcondemned ▸ hpending.spared, hlisted, hnow ▸ le_refl _, ?_, ?_⟩
      · rw [hnow]
        exact Int.le_add_of_nonneg_right hdelay
      · intro t ht
        have hnot : r.live.watcher.hasRecorded = false := by
          by_contra hrec
          rw [Bool.not_eq_false] at hrec
          exact absurd ((hsound.late hrec).symm.trans (waitAnswer_eq_none hanswer)) (by decide)
        rw [(hsound.early hnot).2.2.2.1] at ht
        cases ht

theorem Fleet.Serving.started (h : s.Serving delay writeDelay) (l : Launch) :
    (s.started format l).Serving delay writeDelay := by
  refine ⟨?_, ?_⟩
  · intro w hw
    obtain ⟨r, hr⟩ := h.waiters w hw
    have hlt : w.run < s.runs.length := (List.getElem?_eq_some_iff.mp hr.row).1
    refine ⟨r, (List.getElem?_append_left hlt).trans hr.row, hr.plain, hr.answered, ?_⟩
    intro hown hopen
    have hpending := hr.pending hown hopen
    exact ⟨hpending.spared, hpending.listed, hpending.looked, hpending.prompt, hpending.young⟩
  · intro r hr c hc hrec
    obtain hr | hr := List.mem_append.mp hr
    · exact h.stamps r hr c hc hrec
    · rw [List.mem_singleton.mp hr] at hc
      cases hc

theorem PlainInv.result_of_recorded {l : Launch} {live : LiveRun} (h : PlainInv l live)
    (hrec : live.watcher.hasRecorded = true) :
    ∃ result, Concluded l live result ∧ live.status = startStatus result := by
  unfold PlainInv at h
  cases hw : live.watcher with
  | recorded result =>
    rw [hw] at h
    exact ⟨result, h.1, h.2.1⟩
  | ended =>
    rw [hw] at h
    obtain ⟨result, hconc, hstatus, -⟩ := h
    exact ⟨result, hconc, hstatus⟩
  | overRecorded =>
    rw [hw] at h
    exact h.elim
  | _ =>
    rw [hw] at hrec
    cases hrec

/-! ## Every step -/

theorem FleetRun.Later.inner {live : LiveRun} {now : ℤ} (hstatus : live.status = r.live.status)
    (hrec : live.watcher.hasRecorded = false → r.live.watcher.hasRecorded = false) :
    r.Later writeDelay now (r.withLive live) :=
  ⟨rfl, fun _ => hstatus, id, fun _ ht => .inl ht, fun _ hc h => .inr ⟨hc, hrec h⟩⟩

theorem FleetRun.Later.stamped (now : ℤ) : r.Later writeDelay now (r.stamped now) := by
  refine ⟨rfl, fun _ => rfl, id, fun _ ht => .inl ht, ?_⟩
  intro c hc _
  cases hc
  exact .inl (le_refl _)

theorem FleetRun.Later.recorded {told : List RunEvent} (hr : r.Sound format i told) {live : LiveRun}
    (hlife : LifeStep r.launch r.live .record live) {c : EndStamp} {now : ℤ}
    (hstamp : now ≤ c.at_ + writeDelay) :
    r.Later writeDelay now (r.recorded live c.at_) ∧ (r.recorded live c.at_).listed = r.listed := by
  obtain ⟨hbefore, hafter, -⟩ := hlife.records
  rw [hr.recorded_eq hlife]
  refine ⟨⟨rfl, ?_, id, ?_, ?_⟩, rfl⟩
  · intro hrec
    exact absurd (hbefore.symm.trans hrec) (by decide)
  · intro t ht
    cases ht
    exact .inr hstamp
  · intro c' _ hrec
    exact absurd (hafter.symm.trans hrec) (by decide)

theorem Waiter.Served.same (h : w.Served delay writeDelay s r) (hruns : s'.runs = s.runs)
    (hnow : s'.now = s.now) (hcondemned : s'.condemned = s.condemned) :
    w.Served delay writeDelay s' r := by
  refine h.aside hruns ?_
  intro hp
  exact ⟨hcondemned ▸ hp.spared, hp.listed, hnow ▸ hp.looked, hnow ▸ hp.prompt, hp.young⟩

namespace Fleet.Serving

theorem tick (h : s.Serving delay writeDelay) {t : ℤ} (ht : s.now ≤ t)
    (hok : s.Prompt delay writeDelay age (.tick t)) :
    Fleet.Serving delay writeDelay { s with now := t } := by
  refine .of_runs rfl (fun r hr c hc hrec => hok.2 r hr c hc hrec) ?_
  intro w hw
  obtain ⟨r, hr⟩ := h.waiters w hw
  refine ⟨r, hr.row, hr.plain, hr.answered, ?_⟩
  intro hown hopen
  have hpending := hr.pending hown hopen
  exact ⟨hpending.spared, hpending.listed, hpending.looked.trans ht,
    hok.1 w hw hown (by rw [hopen]; rfl), hpending.young⟩

/-- `run` starts a run and waits for it. -/
theorem run (h : s.Serving delay writeDelay) (hs : s.Sound format) {l : Launch}
    (hplain : l.streaming = false) (hdelay : 0 ≤ delay) :
    Fleet.Serving delay writeDelay
      { s.started format l with waiters := s.waiters ++ [⟨s.runs.length, true, s.now, none⟩] } := by
  have hstarted : (s.started format l).Serving delay writeDelay := h.started l
  refine .of_runs rfl hstarted.stamps ?_
  intro w hw
  obtain hw | hw := List.mem_append.mp hw
  · obtain ⟨r, hr⟩ := hstarted.waiters w hw
    exact ⟨r, hr.same rfl rfl rfl⟩
  · rw [List.mem_singleton.mp hw]
    refine ⟨.new l s.now, List.getElem?_concat_length, fun _ => hplain, ?_, ?_⟩
    · intro a ha
      cases ha
    · intro _ _
      refine ⟨?_, rfl, le_refl _, Int.le_add_of_nonneg_right hdelay, ?_⟩
      · intro hc
        obtain ⟨r, hr, -⟩ := hs.condemned _ hc
        rw [List.getElem?_eq_none (le_refl _)] at hr
        cases hr
      · intro t ht
        cases ht

/-- A run older than the age: its caller has looked since. -/
theorem condemn (h : s.Serving delay writeDelay) {t cutoff : ℤ} (hrow : s.row i = some r)
    (ht : r.completedAt = some t) (hold : t < cutoff) (hspared : cutoff + age ≤ s.now)
    (hage : delay + writeDelay ≤ age) :
    Fleet.Serving delay writeDelay { s with condemned := i :: s.condemned } := by
  refine .of_runs rfl h.stamps ?_
  intro w hw
  obtain ⟨u, hu⟩ := h.waiters w hw
  refine ⟨u, hu.aside rfl ?_⟩
  intro hp
  refine ⟨?_, hp.listed, hp.looked, hp.prompt, hp.young⟩
  intro hc
  obtain hsame | hc := List.mem_cons.mp hc
  · have hrun : u = r :=
      Option.some.inj (hu.row.symm.trans (hsame ▸ (Fleet.row_eq_some.mp hrow).1))
    have hyoung := hp.young t (hrun ▸ ht)
    have hprompt := hp.prompt
    omega
  · exact hp.spared hc

theorem wait (h : s.Serving delay writeDelay) (hi : i < s.runs.length) :
    Fleet.Serving delay writeDelay { s with waiters := s.waiters ++ [⟨i, false, s.now, none⟩] } := by
  refine .of_runs rfl h.stamps ?_
  intro w hw
  obtain hw | hw := List.mem_append.mp hw
  · obtain ⟨r, hr⟩ := h.waiters w hw
    exact ⟨r, hr.same rfl rfl rfl⟩
  · rw [List.mem_singleton.mp hw]
    refine ⟨s.runs[i], List.getElem?_eq_getElem hi, ?_, ?_, ?_⟩
    · intro hown
      cases hown
    · intro a ha
      cases ha
    · intro hown
      cases hown

theorem poll (h : s.Serving delay writeDelay) (hs : s.Sound format) {k : ℕ}
    (hk : s.waiters[k]? = some w) (hopen : w.answer = none) (hdelay : 0 ≤ delay) :
    (s.setWaiter k (s.polled w)).Serving delay writeDelay := by
  refine .of_runs rfl h.stamps ?_
  intro u hu
  obtain hu | rfl := List.mem_or_eq_of_mem_set hu
  · obtain ⟨r, hr⟩ := h.waiters u hu
    exact ⟨r, hr.same rfl rfl rfl⟩
  · obtain ⟨r, hr⟩ := h.waiters w (List.mem_of_getElem? hk)
    exact ⟨r, hr.poll hs hopen hdelay rfl rfl rfl⟩

theorem step (h : s.Serving delay writeDelay) (hs : s.Sound format) {m : FleetMove}
    (hok : s.Prompt delay writeDelay age m) (hage : delay + writeDelay ≤ age) (hdelay : 0 ≤ delay)
    (hwrite : 0 ≤ writeDelay) (hstep : FleetStep format s m s') : s'.Serving delay writeDelay := by
  cases hstep with
  | tick ht => exact h.tick ht hok
  | start l => exact h.started l
  | run hplain => exact h.run hs hplain hdelay
  | life hi hm hlife =>
    have hsame := hlife.sameOutcome hm
    exact h.set hs hi rfl (.inner hsame.status fun hrec => hsame.hasRecorded.symm.trans hrec) rfl rfl
      (.inl rfl) (fun _ hj => hj) hwrite
  | stamp hi _ _ =>
    exact h.set hs hi rfl (.stamped _) rfl rfl (.inl rfl) (fun _ hj => hj) hwrite
  | @record i r c live hi hstamp hlife =>
    have hyoung := h.stamps r (List.mem_of_getElem? hi) c hstamp hlife.records.1
    obtain ⟨hlater, hlisted⟩ := FleetRun.Later.recorded (hs.runs i r hi) hlife hyoung
    exact h.set hs hi rfl hlater rfl rfl (.inl hlisted) (fun _ hj => hj) hwrite
  | count hi | announce hi =>
    exact h.set hs hi rfl ⟨rfl, fun _ => rfl, id, fun _ ht => .inl ht, fun _ hc hrec => .inr ⟨hc, hrec⟩⟩
      rfl rfl (.inl rfl) (fun _ hj => hj) hwrite
  | append hi htold hlife =>
    obtain ⟨hstatus, hend, hrec⟩ := hlife.appends
    refine h.set hs hi rfl (.inner hstatus ?_) rfl rfl (.inl rfl) (fun _ hj => hj) hwrite
    intro hnot
    rw [hend] at hnot
    cases hnot
  | others he =>
    refine .of_runs rfl h.stamps ?_
    intro w hw
    obtain ⟨r, hr⟩ := h.waiters w hw
    exact ⟨r, hr.same rfl rfl rfl⟩
  | condemn hrow _ ht hold _ => exact h.condemn hrow ht hold hok hage
  | @evict i r hc hi =>
    refine h.set hs hi rfl ?_ rfl rfl (.inr hc) (fun _ => List.mem_of_mem_erase) hwrite
    exact ⟨rfl, fun _ => rfl, fun _ => rfl, fun _ ht => .inl ht, fun _ hc hrec => .inr ⟨hc, hrec⟩⟩
  | wait hi => exact h.wait hi
  | poll hk hopen => exact h.poll hs hk hopen hdelay

end Fleet.Serving

end

/-- However runs, watchers, garbage collections and callers interleave, if callers of `run` and watchers
are prompt and the garbage collections spare what is young: the answer of `run` is made of the result
that the completion task has got for the run it started, and any other caller of `wait` is answered with
the status of its run, or told that there is none when the run has left the table. -/
theorem run_answered (format : ℤ → String) {delay writeDelay age : ℤ} (hdelay : 0 ≤ delay)
    (hwrite : 0 ≤ writeDelay) (hage : delay + writeDelay ≤ age) {s : Fleet}
    (h : ReachesBy (FleetStep format) (Fleet.Prompt delay writeDelay age) Fleet.Boot s) :
    ∀ w ∈ s.waiters, ∀ a, w.answer = some a → ∃ r, s.runs[w.run]? = some r ∧
      (waitAnswer r.live.status = some a ∨
        w.started = false ∧ a = .error (.notFound w.run) ∧ r.listed = false) ∧
      (w.started = true → ∃ result, Concluded r.launch r.live result ∧ a = waitResult result) := by
  have hserving : s.Serving delay writeDelay := by
    refine ReachesBy.invariant ?_ ?_ h
    · rintro s ⟨now, rfl⟩
      refine ⟨?_, ?_⟩
      · intro w hw
        cases hw
      · intro r hr
        cases hr
    · intro s m s' hreach hi hok hstep
      exact hi.step (Fleet.reaches_sound hreach.reaches) hok hage hdelay hwrite hstep
  intro w hw a ha
  obtain ⟨r, hr⟩ := hserving.waiters w hw
  have hanswer := hr.answered a ha
  refine ⟨r, hr.row, hanswer, ?_⟩
  intro hown
  obtain hstatus | ⟨hother, -⟩ := hanswer
  · have hsound := (Fleet.reaches_sound h.reaches).runs _ r hr.row
    have hplain := plainInv_of_reaches (hr.plain hown) hsound.live
    have hrec := hasRecorded_of_terminal hsound (isTerminal_of_waitAnswer hstatus)
    obtain ⟨result, hconc, hwritten⟩ := hplain.result_of_recorded hrec
    rw [hwritten, waitAnswer_startStatus, Option.some.injEq] at hstatus
    exact ⟨result, hconc, hstatus.symm⟩
  · exact absurd (hown.symm.trans hother) (by decide)

/-- The run completes while its caller sleeps, and leaves the table once the caller has looked; a caller
that comes later is told so. -/
def answeredMoves : List FleetMove :=
  [.run pairLaunch] ++ (pairScript .null ++ ([.recv, .drained ""] : List LifeMove)).map (FleetMove.life 0) ++
    [.poll 0, .tick 40, .stamp 0, .tick 45, .record 0, .tick 50, .poll 0] ++
    [.count 0, .announce 0, .append 0, .tick 200, .condemn 0 100, .evict 0, .wait 0, .poll 1]

def answeredFleet : Option Fleet :=
  exec (fun s m => if Fleet.Prompt 50 10 60 s m then Fleet.apply (fun _ => "") s m else none) (.boot 0)
    answeredMoves

theorem run_answered_pair : ∃ s, answeredFleet = some s ∧
    s.waiters.map (fun w => w.answer.map Except.isOk) = [some true, some false] ∧
    ∀ w ∈ s.waiters, ∀ a, w.answer = some a → ∃ r, s.runs[w.run]? = some r ∧
      (w.started = true → ∃ result, Concluded r.launch r.live result ∧ a = waitResult result) := by
  have hends : answeredFleet.isSome = true := by decide +kernel
  obtain ⟨s, hs⟩ := Option.isSome_iff_exists.mp hends
  have hanswers : ∀ s ∈ answeredFleet,
      s.waiters.map (fun w => w.answer.map Except.isOk) = [some true, some false] := by
    decide +kernel
  have hsound : ∀ s m s', Fleet.apply (fun _ => "") s m = some s' → FleetStep (fun _ => "") s m s' := by
    intro s m s' h
    exact Fleet.apply_sound h
  have hreach : ReachesBy (FleetStep fun _ => "") (Fleet.Prompt 50 10 60) Fleet.Boot s :=
    exec_guarded_reachesBy hsound (.start ⟨0, rfl⟩) hs
  refine ⟨s, hs, hanswers s hs, ?_⟩
  intro w hw a ha
  obtain ⟨r, hr, -, hresult⟩ :=
    run_answered (fun _ => "") (by decide) (by decide) (by decide) hreach w hw a ha
  exact ⟨r, hr, hresult⟩

end Konf.Runtime
