import Konf.Executor.ParsedRun

/-! # Counting attempts

`invoke_with_retry` as a log: each call of the tool and each retry it announces, in order. When the
tool answers every attempt, the log and the result are those of the first attempt that settles the
step, or of the last one allowed, unless a wait on the way to it is too long for a `Duration`. -/

namespace Konf.Executor
open Konf.Substrate Konf.Fallible
set_option autoImplicit false

inductive RetryAct
  | invoked (attempt : ℕ)
  | announced (event : ExecutorEvent)
deriving DecidableEq

def RetryAct.isInvoked : RetryAct → Bool
  | .invoked _ => true
  | .announced _ => false

def RetryAct.announcement : RetryAct → Option ExecutorEvent
  | .announced event => some event
  | .invoked _ => none

section Loop
variable {T : Type} [NamedTool T] (ctx : StepContext T)

/-- What the loop over attempts does: `left` attempts remain, the next one is number `n`. -/
def StepContext.attemptLog (step : Step) (tool : String) (answer : ℕ → Attempt) :
    ℕ → ℕ → List RetryAct
  | 0, _ => []
  | left + 1, n =>
    let settle (e : ToolError) : List RetryAct :=
      if isRetryable e = false ∨ left = 0 then []
      else .announced (.toolRetry step.id tool n e.display) ::
        StepContext.attemptLog step tool answer left (n + 1)
    match ctx.outcome step answer n with
    | .cancelled => []
    -- a wait that panics comes before the call
    | .panicked => if ctx.backoffPanics step n then [] else [.invoked n]
    | .completed (.ok _) => [.invoked n]
    | .completed (.error e) => .invoked n :: settle e
    | .timedOut => .invoked n :: settle (ctx.timeoutError step)

/-- The retries in the log are those that the recorder is given. -/
theorem attemptLog_announced (step : Step) (tool : String) (answer : ℕ → Attempt) (left n : ℕ) :
    (ctx.attemptLog step tool answer left n).filterMap RetryAct.announcement =
      ctx.retryEvents step tool answer left n := by
  induction left generalizing n with
  | zero => rfl
  | succ left ih =>
    unfold StepContext.attemptLog StepContext.retryEvents
    cases ctx.outcome step answer n with
    | cancelled => rfl
    | panicked =>
      dsimp only
      split_ifs
      · rfl
      · rfl
    | completed res =>
      cases res with
      | ok output => rfl
      | error e =>
        dsimp only
        by_cases hstop : isRetryable e = false ∨ left = 0
        · simp [hstop, RetryAct.announcement]
        · rw [if_neg hstop, if_neg hstop, ← ih]
          rfl
    | timedOut =>
      dsimp only
      by_cases hstop : isRetryable (ctx.timeoutError step) = false ∨ left = 0
      · simp [hstop, RetryAct.announcement]
      · rw [if_neg hstop, if_neg hstop, ← ih]
        rfl

/-- The result of an attempt that was neither cancelled nor unwound. A timeout is an error of the
tool. -/
def StepContext.attemptResult (step : Step) : Attempt → Option (Except ToolError Json)
  | .completed res => some res
  | .timedOut => some (.error (ctx.timeoutError step))
  | .cancelled | .panicked => none

/-- A success, or an error that is not retried. -/
def isSettled : Except ToolError Json → Bool
  | .ok _ => true
  | .error e => !isRetryable e

def errorText : Except ToolError Json → String
  | .ok _ => ""
  | .error e => e.display

/-- The first attempt from `n` on that settles the step, or the last of the `left + 1` attempts. -/
def settlingAttempt (r : ℕ → Except ToolError Json) (left n : ℕ) : ℕ :=
  ((List.range' n (left + 1)).find? fun i => isSettled (r i)).getD (n + left)

/-- Calls `n` to `m` of the tool, with the retry announced after each but the last. -/
def retryLog (step : Step) (tool : String) (r : ℕ → Except ToolError Json) (n m : ℕ) :
    List RetryAct :=
  ((List.range' n (m - n)).flatMap fun i =>
    [.invoked i, .announced (.toolRetry step.id tool i (errorText (r i)))]) ++ [.invoked m]

end Loop

section Settling
variable {r : ℕ → Except ToolError Json} {n : ℕ}

theorem settlingAttempt_of_settled (left : ℕ) (h : isSettled (r n) = true) :
    settlingAttempt r left n = n := by
  simp [settlingAttempt, List.range'_succ, h]

theorem settlingAttempt_last : settlingAttempt r 0 n = n := by
  unfold settlingAttempt
  cases h : isSettled (r n) with
  | true => simp [h]
  | false => simp [h]

theorem settlingAttempt_next (left : ℕ) (h : isSettled (r n) = false) :
    settlingAttempt r (left + 1) n = settlingAttempt r left (n + 1) := by
  rw [settlingAttempt, List.range'_succ, List.find?_cons_of_neg (by simp [h]), settlingAttempt]
  congr 1
  omega

theorem le_settlingAttempt (left n : ℕ) :
    n ≤ settlingAttempt r left n ∧ settlingAttempt r left n ≤ n + left := by
  unfold settlingAttempt
  cases h : (List.range' n (left + 1)).find? fun i => isSettled (r i) with
  | none => simp
  | some i =>
    have hmem := List.mem_of_find?_eq_some h
    rw [List.mem_range'_1] at hmem
    simp only [Option.getD_some]
    omega

end Settling

section Retries
variable {T : Type} [NamedTool T] (ctx : StepContext T) {step : Step} {answer : ℕ → Attempt}
variable {r : ℕ → Except ToolError Json}

/-- The tool's answer stands when the wait before it does not panic. -/
theorem outcome_of_result {n : ℕ} {res : Except ToolError Json}
    (h : ctx.attemptResult step (answer n) = some res) (hwait : ctx.backoffPanics step n = false) :
    ctx.attemptResult step (ctx.outcome step answer n) = some res := by
  unfold StepContext.outcome
  cases hans : answer n with
  | cancelled => simp [hans, StepContext.attemptResult] at h
  | panicked => simp [hans, StepContext.attemptResult] at h
  | completed found => simpa [hwait, hans] using h
  | timedOut => simpa [hwait, hans] using h

theorem outcome_of_panic {n : ℕ} {res : Except ToolError Json}
    (h : ctx.attemptResult step (answer n) = some res) (hwait : ctx.backoffPanics step n = true) :
    ctx.outcome step answer n = .panicked := by
  unfold StepContext.outcome
  cases hans : answer n with
  | cancelled => simp [hans, StepContext.attemptResult] at h
  | panicked => simp
  | completed found => simp [hwait]
  | timedOut => simp [hwait]

theorem attempts_ok_turn (tool : String) (left : ℕ) {n : ℕ} {output : Json}
    (h : ctx.attemptResult step (ctx.outcome step answer n) = some (.ok output)) :
    ctx.attempts step answer (left + 1) n = .ok output ∧
      ctx.attemptLog step tool answer (left + 1) n = [.invoked n] := by
  rw [StepContext.attempts, StepContext.attemptLog]
  cases hans : ctx.outcome step answer n with
  | cancelled => simp [hans, StepContext.attemptResult] at h
  | panicked => simp [hans, StepContext.attemptResult] at h
  | completed res =>
    obtain rfl : res = .ok output := by simpa [hans, StepContext.attemptResult] using h
    exact ⟨rfl, rfl⟩
  | timedOut => simp [hans, StepContext.attemptResult] at h

theorem attempts_error_turn (tool : String) (left : ℕ) {n : ℕ} {e : ToolError}
    (h : ctx.attemptResult step (ctx.outcome step answer n) = some (.error e)) :
    ctx.attempts step answer (left + 1) n =
      (if isRetryable e = false ∨ left = 0 then .error (.tool e)
        else ctx.attempts step answer left (n + 1)) ∧
      ctx.attemptLog step tool answer (left + 1) n = .invoked n ::
        if isRetryable e = false ∨ left = 0 then []
        else .announced (.toolRetry step.id tool n e.display) ::
          ctx.attemptLog step tool answer left (n + 1) := by
  rw [StepContext.attempts, StepContext.attemptLog]
  cases hans : ctx.outcome step answer n with
  | cancelled => simp [hans, StepContext.attemptResult] at h
  | panicked => simp [hans, StepContext.attemptResult] at h
  | completed res =>
    obtain rfl : res = .error e := by simpa [hans, StepContext.attemptResult] using h
    exact ⟨rfl, rfl⟩
  | timedOut =>
    obtain rfl : ctx.timeoutError step = e := by simpa [hans, StepContext.attemptResult] using h
    exact ⟨rfl, rfl⟩

/-- One turn of the loop whose wait does not panic: the tool is called, and the result ends the loop
or is followed by a retry. -/
theorem attempts_turn (tool : String) {n : ℕ}
    (hanswer : ctx.attemptResult step (answer n) = some (r n))
    (hwait : ctx.backoffPanics step n = false) (left : ℕ) :
    (isSettled (r n) = true ∨ left = 0 →
      ctx.attempts step answer (left + 1) n = (r n).mapError .tool ∧
        ctx.attemptLog step tool answer (left + 1) n = [.invoked n]) ∧
    (isSettled (r n) = false → left ≠ 0 →
      ctx.attempts step answer (left + 1) n = ctx.attempts step answer left (n + 1) ∧
        ctx.attemptLog step tool answer (left + 1) n =
          .invoked n :: .announced (.toolRetry step.id tool n (errorText (r n))) ::
            ctx.attemptLog step tool answer left (n + 1)) := by
  have hn := outcome_of_result ctx hanswer hwait
  cases hres : r n with
  | ok output =>
    rw [hres] at hn
    obtain ⟨hresult, hlog⟩ := attempts_ok_turn ctx tool left hn
    exact ⟨fun _ => ⟨hresult, hlog⟩, fun h => by simp [isSettled] at h⟩
  | error e =>
    rw [hres] at hn
    obtain ⟨hresult, hlog⟩ := attempts_error_turn ctx tool left hn
    rw [hresult, hlog]
    simp only [isSettled, Bool.not_eq_true', Bool.not_eq_false']
    constructor
    · intro hstop
      rw [if_pos hstop, if_pos hstop]
      exact ⟨rfl, rfl⟩
    · intro hretry hleft
      have hgo : ¬(isRetryable e = false ∨ left = 0) := by simp [hretry, hleft]
      rw [if_neg hgo, if_neg hgo]
      exact ⟨rfl, rfl⟩

theorem attempts_settle (tool : String)
    (hanswer : ∀ n, ctx.attemptResult step (answer n) = some (r n)) (left n : ℕ)
    (hwait : ∀ i, n ≤ i → i ≤ settlingAttempt r left n → ctx.backoffPanics step i = false) :
    ctx.attempts step answer (left + 1) n = (r (settlingAttempt r left n)).mapError .tool ∧
      ctx.attemptLog step tool answer (left + 1) n =
        retryLog step tool r n (settlingAttempt r left n) := by
  induction left generalizing n with
  | zero =>
    have hfirst := hwait n le_rfl (le_settlingAttempt 0 n).1
    obtain ⟨hresult, hlog⟩ := (attempts_turn ctx tool (hanswer n) hfirst 0).1 (.inr rfl)
    rw [settlingAttempt_last, hresult, hlog]
    simp [retryLog]
  | succ left ih =>
    have hfirst := hwait n le_rfl (le_settlingAttempt (left + 1) n).1
    have hturn := attempts_turn ctx tool (hanswer n) hfirst (left + 1)
    cases hsettled : isSettled (r n) with
    | true =>
      obtain ⟨hresult, hlog⟩ := hturn.1 (.inl hsettled)
      rw [settlingAttempt_of_settled _ hsettled, hresult, hlog]
      simp [retryLog]
    | false =>
      obtain ⟨hresult, hlog⟩ := hturn.2 hsettled (Nat.succ_ne_zero left)
      rw [settlingAttempt_next _ hsettled] at hwait ⊢
      obtain ⟨ihresult, ihlog⟩ := ih (n + 1) fun i hi hle => hwait i (by omega) hle
      rw [hresult, hlog]
      refine ⟨ihresult, ?_⟩
      have hle := (le_settlingAttempt (r := r) left (n + 1)).1
      have hcount : settlingAttempt r left (n + 1) - n =
          settlingAttempt r left (n + 1) - (n + 1) + 1 := by omega
      rw [ihlog, retryLog, retryLog, hcount, List.range'_succ]
      simp

/-- A wait that panics on the way to the settling attempt is the end of the loop. -/
theorem attempts_unwind
    (hanswer : ∀ n, ctx.attemptResult step (answer n) = some (r n)) (left n : ℕ) {i : ℕ}
    (hn : n ≤ i) (hi : i ≤ settlingAttempt r left n) (hpanics : ctx.backoffPanics step i = true) :
    ctx.attempts step answer (left + 1) n =
      .error (ctx.nodeFailed step.id "Tool execution panicked") := by
  induction left generalizing n with
  | zero =>
    obtain rfl : i = n := by
      rw [settlingAttempt_last] at hi
      omega
    rw [StepContext.attempts, outcome_of_panic ctx (hanswer i) hpanics]
  | succ left ih =>
    cases hfirst : ctx.backoffPanics step n with
    | true => rw [StepContext.attempts, outcome_of_panic ctx (hanswer n) hfirst]
    | false =>
      have hturn := attempts_turn ctx "" (hanswer n) hfirst (left + 1)
      have hne : i ≠ n := by
        rintro rfl
        rw [hfirst] at hpanics
        cases hpanics
      cases hsettled : isSettled (r n) with
      | true =>
        rw [settlingAttempt_of_settled _ hsettled] at hi
        omega
      | false =>
        rw [(hturn.2 hsettled (Nat.succ_ne_zero left)).1]
        rw [settlingAttempt_next _ hsettled] at hi
        exact ih (n + 1) (by omega) hi

theorem countP_retryLog (tool : String) (m : ℕ) (hm : 1 ≤ m) :
    (retryLog step tool r 1 m).countP RetryAct.isInvoked = m := by
  have hpairs : ∀ l : List ℕ, (l.flatMap fun i => [RetryAct.invoked i,
      .announced (.toolRetry step.id tool i (errorText (r i)))]).countP RetryAct.isInvoked =
        l.length := by
    intro l
    induction l with
    | nil => rfl
    | cons i l ih =>
      rw [List.flatMap_cons, List.countP_append, ih, List.length_cons, Nat.add_comm]
      rfl
  have hlast : ([RetryAct.invoked m]).countP RetryAct.isInvoked = 1 := rfl
  rw [retryLog, List.countP_append, hpairs, List.length_range', hlast]
  omega

/-- The retries that a step allows. -/
def retries (step : Step) : ℕ := (step.retry.map RetryPolicy.maxAttempts).getD 0

theorem maxAttempts_eq (h : retries step < 2 ^ 32 - 1) : maxAttempts step = retries step + 1 := by
  unfold maxAttempts
  unfold retries at h ⊢
  cases hretry : step.retry with
  | none => rfl
  | some policy =>
    rw [hretry] at h
    simp only [Option.map_some, Option.getD_some] at h ⊢
    omega

/-- A wait panics only by the product of a linear backoff. -/
theorem backoffPanics_iff (step : Step) (n : ℕ) :
    ctx.backoffPanics step n = true ↔ 1 < n ∧ ∃ policy increment, step.retry = some policy ∧
      policy.backoff = .linear increment ∧ durationBound ≤ increment * (n - 2) := by
  unfold StepContext.backoffPanics calculateBackoff
  cases hretry : step.retry with
  | none => simp
  | some policy =>
    cases hbackoff : policy.backoff with
    | fixed => simp [hbackoff]
    | exponential => simp [hbackoff]
    | linear increment =>
      have hpred : n - 1 - 1 = n - 2 := by omega
      simp [hbackoff, durationMul, hpred]

/-- The waits before attempts two to `m` are all a `Duration`. -/
def WaitsFit (step : Step) (m : ℕ) : Prop :=
  ∀ policy increment, step.retry = some policy → policy.backoff = .linear increment →
    increment * (m - 2) < durationBound

theorem waitsFit_iff (step : Step) (m : ℕ) :
    WaitsFit step m ↔ ∀ i, i ≤ m → ctx.backoffPanics step i = false := by
  constructor
  · intro hfit i hi
    by_contra hpanics
    rw [Bool.not_eq_false, backoffPanics_iff] at hpanics
    obtain ⟨-, policy, increment, hretry, hbackoff, hlong⟩ := hpanics
    have hlast := hfit policy increment hretry hbackoff
    have hgrow : increment * (i - 2) ≤ increment * (m - 2) := Nat.mul_le_mul_left _ (by omega)
    omega
  · intro hquiet policy increment hretry hbackoff
    by_contra hlong
    have hlarge : 1 < m := by
      by_contra hsmall
      have hzero : m - 2 = 0 := by omega
      rw [hzero, Nat.mul_zero] at hlong
      exact hlong (by decide)
    have hpanics := (backoffPanics_iff ctx step m).mpr
      ⟨hlarge, policy, increment, hretry, hbackoff, by omega⟩
    rw [hquiet m le_rfl] at hpanics
    cases hpanics

/-- The tool is called `m` times, with a retry announced between two calls, and result `m` is
returned. -/
def RetriesCounted (step : Step) (tool : String) (answer : ℕ → Attempt)
    (r : ℕ → Except ToolError Json) (m : ℕ) : Prop :=
  ctx.attempts step answer (maxAttempts step) 1 = (r m).mapError .tool ∧
    ctx.attemptLog step tool answer (maxAttempts step) 1 = retryLog step tool r 1 m ∧
    (ctx.attemptLog step tool answer (maxAttempts step) 1).countP RetryAct.isInvoked = m

/-- The tool is called up to the first result that settles the step, or once more than there are
retries, that result is returned, and a retry is announced between two calls, exactly when no wait
on the way is too long for a `Duration`. -/
theorem retries_counted_iff (step : Step) (tool : String) (answer : ℕ → Attempt)
    (r : ℕ → Except ToolError Json) (hretries : retries step < 2 ^ 32 - 1)
    (hanswer : ∀ n, ctx.attemptResult step (answer n) = some (r n)) :
    RetriesCounted ctx step tool answer r (settlingAttempt r (retries step) 1) ↔
      WaitsFit step (settlingAttempt r (retries step) 1) := by
  unfold RetriesCounted
  rw [maxAttempts_eq hretries]
  constructor
  · rintro ⟨hresult, -, -⟩
    rw [waitsFit_iff ctx]
    intro i hi
    by_contra hpanics
    rw [Bool.not_eq_false] at hpanics
    have hfirst := ((backoffPanics_iff ctx step i).mp hpanics).1
    rw [attempts_unwind ctx hanswer (retries step) 1 hfirst.le hi hpanics] at hresult
    cases hlast : r (settlingAttempt r (retries step) 1) with
    | ok output =>
      rw [hlast] at hresult
      cases hresult
    | error e =>
      rw [hlast] at hresult
      cases hresult
  · intro hfit
    have hquiet := (waitsFit_iff ctx step _).mp hfit
    obtain ⟨hresult, hlog⟩ :=
      attempts_settle ctx tool hanswer (retries step) 1 fun i _ hi => hquiet i hi
    refine ⟨hresult, hlog, ?_⟩
    rw [hlog]
    exact countP_retryLog tool _ (le_settlingAttempt _ _).1

end Retries

/-- A step with two retries. -/
def flakyStep : Step := { Step.new "n" "echo" with retry := some ⟨2, .fixed, 10, 100⟩ }

/-- A timeout, a failure, and then success. -/
def flakyAttempt : ℕ → Attempt
  | 1 => .timedOut
  | 2 => .completed (.error (.executionFailed "busy" true))
  | _ => .completed (.ok .null)

def flakyResult : ℕ → Except ToolError Json
  | 1 => .error (.timeout 30000)
  | 2 => .error (.executionFailed "busy" true)
  | _ => .ok .null

theorem flaky_retries_counted :
    settlingAttempt flakyResult 2 1 = 3 ∧
    RetriesCounted (plainContext .default) flakyStep "echo" flakyAttempt flakyResult 3 := by
  have hresults : ∀ n, (plainContext .default).attemptResult flakyStep (flakyAttempt n) =
      some (flakyResult n) := by
    intro n
    match n with
    | 0 => rfl
    | 1 => rfl
    | 2 => rfl
    | _ + 3 => rfl
  have hsettles : settlingAttempt flakyResult (retries flakyStep) 1 = 3 := by decide
  have hfit : WaitsFit flakyStep (settlingAttempt flakyResult (retries flakyStep) 1) := by
    intro policy increment hretry hbackoff
    cases hretry
    cases hbackoff
  have hcounted := (retries_counted_iff (plainContext .default) flakyStep "echo" flakyAttempt
    flakyResult (by decide) hresults).mpr hfit
  rw [hsettles] at hcounted
  exact ⟨hsettles, hcounted⟩

/-- Three retries with a linear backoff of `2 ^ 63` seconds. -/
def longBackoff : Parser.RetryConfigSchema where
  times := 3
  delay := some "9223372036854775808s"
  backoff := some "linear"
  maxDelay := none
  on := none

/-- The policy that the compiler makes of it. -/
def longWait : RetryPolicy := ⟨3, .linear 9223372036854775808000, 9223372036854775808000, 30000⟩

def longWaitStep : Step := { Step.new "n" "echo" with retry := some longWait }

def busy : Except ToolError Json := .error (.executionFailed "busy" true)

/-- Four calls are due. The wait before the fourth panics: three calls, a retry announced after the
last of them, and the tool's error is not what comes back. -/
theorem long_wait_unwinds :
    Parser.compileRetry .default longBackoff = .ok longWait ∧
    settlingAttempt (fun _ => busy) (retries longWaitStep) 1 = 4 ∧
    (plainContext .default).attemptLog longWaitStep "echo" (fun _ => .completed busy)
      (maxAttempts longWaitStep) 1 =
        [.invoked 1, .announced (.toolRetry "n" "echo" 1 "execution failed: busy"),
          .invoked 2, .announced (.toolRetry "n" "echo" 2 "execution failed: busy"),
          .invoked 3, .announced (.toolRetry "n" "echo" 3 "execution failed: busy")] ∧
    (plainContext .default).attempts longWaitStep (fun _ => .completed busy)
      (maxAttempts longWaitStep) 1 =
        .error ((plainContext .default).nodeFailed "n" "Tool execution panicked") ∧
    ¬RetriesCounted (plainContext .default) longWaitStep "echo" (fun _ => .completed busy)
      (fun _ => busy) 4 := by
  have hlog : (plainContext .default).attemptLog longWaitStep "echo" (fun _ => .completed busy)
      (maxAttempts longWaitStep) 1 =
        [.invoked 1, .announced (.toolRetry "n" "echo" 1 "execution failed: busy"),
          .invoked 2, .announced (.toolRetry "n" "echo" 2 "execution failed: busy"),
          .invoked 3, .announced (.toolRetry "n" "echo" 3 "execution failed: busy")] := by
    decide +kernel
  refine ⟨by decide +kernel, by decide, hlog, rfl, ?_⟩
  rintro ⟨-, -, hcalls⟩
  rw [hlog] at hcalls
  exact absurd hcalls (by decide)

end Konf.Executor
