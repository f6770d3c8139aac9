import Konf.Executor.Retries

/-! # Durations and backoff

`calculate_backoff` over the policies that the compiler makes of a `retry` block, and what
`parse_duration` makes of a text, against the delays as they are written. -/

namespace Konf.Executor
open Konf.Substrate Konf.Parser Konf.Text Konf.Fallible
set_option autoImplicit false

/-! ## The delay as documented -/

/-- The delay before retry number `attempt`, without a cap. -/
def exactDelay (strategy : BackoffStrategy) (base attempt : ℕ) : ℕ :=
  match strategy with
  | .fixed => base
  | .exponential => base * 2 ^ (attempt - 1)
  | .linear increment => base + increment * (attempt - 1)

/-- The number in the text of a duration and the milliseconds of its unit. -/
def durationParts (s : String) : Option (ℕ × ℕ) :=
  let s := trim s
  match stripSuffix s "ms" with
  | some ms => (parseU64 (trim ms)).map (·, 1)
  | none => match stripSuffix s "s" with
    | some secs => (parseU64 (trim secs)).map (·, 1000)
    | none => match stripSuffix s "m" with
      | some mins => (parseU64 (trim mins)).map (·, 60 * 1000)
      | none => (parseU64 s).map (·, 1000)

/-- The duration that a text names. -/
def writtenMs (s : String) : Option ℕ := (durationParts s).map fun p => p.1 * p.2

/-- A number of minutes is not too large for seconds in 64 bits. -/
def MinutesFit (s : String) : Prop := ∀ n, durationParts s = some (n, 60 * 1000) → n * 60 < 2 ^ 64

theorem exactDelay_mono (strategy : BackoffStrategy) (base : ℕ) {p q : ℕ} (h : p ≤ q) :
    exactDelay strategy base p ≤ exactDelay strategy base q := by
  unfold exactDelay
  cases strategy with
  | fixed => exact le_rfl
  | exponential =>
    exact Nat.mul_le_mul_left _ (Nat.pow_le_pow_right (by omega) (by omega))
  | linear increment =>
    exact Nat.add_le_add_left (Nat.mul_le_mul_left _ (by omega)) _

/-! ## Parsing -/

theorem parseU64_lt {s : String} {n : ℕ} (h : parseU64 s = some n) : n < 2 ^ 64 := by
  unfold parseU64 at h
  extract_lets digits at h
  split_ifs at h with hempty
  simpa using (Option.filter_eq_some_iff.mp h).2

/-- What the parser makes of a number and a unit: minutes wrap around. -/
def unitMs (n unit : ℕ) : ℕ := if unit = 60 * 1000 then n * 60 % 2 ^ 64 * 1000 else n * unit

theorem parseDuration_parts {s : String} {d : ℕ} (h : parseDuration s = .ok d) :
    ∃ n unit, durationParts s = some (n, unit) ∧ n < 2 ^ 64 ∧
      (unit = 1 ∨ unit = 1000 ∨ unit = 60 * 1000) ∧ d = unitMs n unit := by
  unfold parseDuration at h
  unfold durationParts
  dsimp only at h ⊢
  cases hms : stripSuffix (trim s) "ms" with
  | some ms =>
    rw [hms] at h
    cases hn : parseU64 (trim ms) with
    | none => simp [hn] at h
    | some n =>
      refine ⟨n, 1, by simp [hn], parseU64_lt hn, by simp, ?_⟩
      simpa [hn, unitMs] using h.symm
  | none =>
    rw [hms] at h
    cases hsecs : stripSuffix (trim s) "s" with
    | some secs =>
      rw [hsecs] at h
      cases hn : parseU64 (trim secs) with
      | none => simp [hn] at h
      | some n =>
        refine ⟨n, 1000, by simp [hn], parseU64_lt hn, by simp, ?_⟩
        simpa [hn, unitMs] using h.symm
    | none =>
      rw [hsecs] at h
      cases hmins : stripSuffix (trim s) "m" with
      | some mins =>
        rw [hmins] at h
        cases hn : parseU64 (trim mins) with
        | none => simp [hn] at h
        | some n =>
          refine ⟨n, 60 * 1000, by simp [hn], parseU64_lt hn, by simp, ?_⟩
          simpa [hn, unitMs] using h.symm
      | none =>
        rw [hmins] at h
        cases hn : parseU64 (trim s) with
        | none => simp [hn] at h
        | some n =>
          refine ⟨n, 1000, by simp, parseU64_lt hn, by simp, ?_⟩
          simpa [hn, unitMs] using h.symm

/-- The parsed duration is the one written exactly when minutes do not wrap around. -/
theorem parseDuration_written_iff {s : String} {d : ℕ} (h : parseDuration s = .ok d) :
    writtenMs s = some d ↔ MinutesFit s := by
  obtain ⟨n, unit, hparts, hn, hunit, rfl⟩ := parseDuration_parts h
  unfold writtenMs MinutesFit
  rw [hparts]
  simp only [Option.map_some, Option.some.injEq, Prod.mk.injEq, unitMs]
  obtain rfl | rfl | rfl := hunit
  · simp
  · simp
  · rw [if_pos rfl]
    constructor
    · intro heq m hm
      obtain ⟨rfl, -⟩ := hm
      omega
    · intro hfit
      have hlt := hfit n ⟨rfl, rfl⟩
      omega

theorem parseDuration_lt {s : String} {d : ℕ} (h : parseDuration s = .ok d) :
    d < durationBound := by
  obtain ⟨n, unit, -, hn, hunit, rfl⟩ := parseDuration_parts h
  unfold unitMs durationBound
  obtain rfl | rfl | rfl := hunit
  · rw [if_neg (by decide)]
    omega
  · rw [if_neg (by decide)]
    omega
  · rw [if_pos rfl]
    omega

def ParsedAsWritten (s : String) : Prop := ∃ d, parseDuration s = .ok d ∧ writtenMs s = some d

theorem parsedAsWritten_iff {s : String} {d : ℕ} (h : parseDuration s = .ok d) :
    ParsedAsWritten s ↔ MinutesFit s := by
  rw [← parseDuration_written_iff h]
  constructor
  · intro hwritten
    obtain ⟨d', hd', hw⟩ := hwritten
    rw [h] at hd'
    cases hd'
    exact hw
  · intro hw
    exact ⟨d, h, hw⟩

/-! ## Delays of a policy -/

/-- What keeps the arithmetic of a strategy exact over `times` retries: the product of a linear
backoff stays a `Duration`; an exponential backoff stays within 64 bits of milliseconds, unless its
cap hides that it does not. -/
def BackoffFits (strategy : BackoffStrategy) (base cap times : ℕ) : Prop :=
  match strategy with
  | .fixed => True
  | .linear increment => increment * (times - 1) < durationBound
  | .exponential =>
    cap ≤ base % 2 ^ 64 ∨ base < 2 ^ 64 ∧ (cap < 2 ^ 64 ∨ base * 2 ^ (times - 1) < 2 ^ 64)

/-- The exponential delay before the cap, for a base that `as u64` leaves alone. -/
theorem saturated_eq {base : ℕ} (hbase : base < 2 ^ 64) (k : ℕ) :
    min (base % 2 ^ 64 * min (2 ^ k) (2 ^ 64 - 1)) (2 ^ 64 - 1) =
      min (base * 2 ^ k) (2 ^ 64 - 1) := by
  rw [Nat.mod_eq_of_lt hbase]
  by_cases hk : 2 ^ k ≤ 2 ^ 64 - 1
  · rw [min_eq_left hk]
  · have hmultiplier : min (2 ^ k) (2 ^ 64 - 1) = 2 ^ 64 - 1 := min_eq_right (by omega)
    rw [hmultiplier]
    cases base with
    | zero => rw [Nat.zero_mul, Nat.zero_mul]
    | succ b =>
      have hsat : 2 ^ 64 - 1 ≤ (b + 1) * (2 ^ 64 - 1) := Nat.le_mul_of_pos_left _ (by omega)
      have hpow : 2 ^ k ≤ (b + 1) * 2 ^ k := Nat.le_mul_of_pos_left _ (by omega)
      omega

section Policy
variable {policy : RetryPolicy} {config : EngineConfig} {times : ℕ}

/-- The delays of all retries are the exact ones, capped. -/
def DelaysExact (policy : RetryPolicy) (config : EngineConfig) (times : ℕ) : Prop :=
  ∀ p, 1 ≤ p → p ≤ times → calculateBackoff (some policy) p config =
    some (min policy.maxDelay (exactDelay policy.backoff policy.baseDelay p))

theorem delaysExact_exponential_iff (hstrategy : policy.backoff = .exponential)
    (htimes : 1 ≤ times) :
    DelaysExact policy config times ↔
      BackoffFits .exponential policy.baseDelay policy.maxDelay times := by
  have hdelay : ∀ p, calculateBackoff (some policy) p config =
      some (min (min (policy.baseDelay % 2 ^ 64 * min (2 ^ (p - 1)) (2 ^ 64 - 1)) (2 ^ 64 - 1))
        policy.maxDelay) := by
    intro p
    simp [calculateBackoff, hstrategy]
  unfold DelaysExact BackoffFits
  simp only [hdelay, hstrategy, exactDelay, Option.some.injEq]
  have hmod := Nat.mod_lt policy.baseDelay (by omega : 0 < 2 ^ 64)
  constructor
  · intro h
    by_cases hbase : policy.baseDelay < 2 ^ 64
    · right
      have hlast := h times htimes le_rfl
      rw [saturated_eq hbase] at hlast
      refine ⟨hbase, ?_⟩
      omega
    · left
      have hfirst := h 1 le_rfl htimes
      have hone : min (2 ^ 0) (2 ^ 64 - 1) = 1 := by decide
      rw [Nat.sub_self, hone, Nat.pow_zero, Nat.mul_one, Nat.mul_one] at hfirst
      omega
  · intro h p hp hle
    have hpow : 1 ≤ 2 ^ (p - 1) := Nat.one_le_two_pow
    obtain hcap | ⟨hbase, hrest⟩ := h
    · -- the cap is reached at once, truncated or not
      have hone : 1 ≤ min (2 ^ (p - 1)) (2 ^ 64 - 1) := by omega
      have htruncated : policy.baseDelay % 2 ^ 64 ≤
          policy.baseDelay % 2 ^ 64 * min (2 ^ (p - 1)) (2 ^ 64 - 1) :=
        Nat.le_mul_of_pos_right _ hone
      have hexact : policy.baseDelay ≤ policy.baseDelay * 2 ^ (p - 1) :=
        Nat.le_mul_of_pos_right _ hpow
      have hle := Nat.mod_le policy.baseDelay (2 ^ 64)
      omega
    · rw [saturated_eq hbase]
      have hgrow : policy.baseDelay * 2 ^ (p - 1) ≤ policy.baseDelay * 2 ^ (times - 1) :=
        Nat.mul_le_mul_left _ (Nat.pow_le_pow_right (by omega) (by omega))
      omega

theorem delaysExact_linear_iff {increment : ℕ} (hstrategy : policy.backoff = .linear increment)
    (hcap : policy.maxDelay < durationBound) (htimes : 1 ≤ times) :
    DelaysExact policy config times ↔
      BackoffFits (.linear increment) policy.baseDelay policy.maxDelay times := by
  unfold DelaysExact BackoffFits
  simp only [calculateBackoff, hstrategy, exactDelay, durationMul]
  constructor
  · intro h
    by_contra hbound
    have hlast := h times htimes le_rfl
    rw [if_neg hbound] at hlast
    cases hlast
  · intro h p hp hle
    have hgrow : increment * (p - 1) ≤ increment * (times - 1) :=
      Nat.mul_le_mul_left _ (by omega)
    rw [if_pos (by omega), Option.map_some, Option.map_some, Option.some.injEq]
    unfold durationSaturatingAdd
    omega

theorem delaysExact_iff (hcap : policy.maxDelay < durationBound) (htimes : 1 ≤ times) :
    DelaysExact policy config times ↔
      BackoffFits policy.backoff policy.baseDelay policy.maxDelay times := by
  cases hstrategy : policy.backoff with
  | fixed =>
    refine iff_of_true ?_ trivial
    intro p _ _
    simp [calculateBackoff, hstrategy, exactDelay, min_comm]
  | exponential => exact delaysExact_exponential_iff hstrategy htimes
  | linear increment => exact delaysExact_linear_iff hstrategy hcap htimes

theorem delaysExact_mono (h : DelaysExact policy config times) {p q : ℕ} (hp : 1 ≤ p)
    (hpq : p ≤ q) (hq : q ≤ times) :
    ∃ d d', calculateBackoff (some policy) p config = some d ∧
      calculateBackoff (some policy) q config = some d' ∧ d ≤ d' := by
  refine ⟨_, _, h p hp (hpq.trans hq), h q (hp.trans hpq) hq, ?_⟩
  have hmono := exactDelay_mono policy.backoff policy.baseDelay hpq
  omega

end Policy

/-! ## Configurations -/

/-- The `retry` and `timeout` of a node, as the compiler accepts them. The default cap is a 64-bit
word. -/
structure Timing (config : EngineConfig) where
  retry : Option RetryConfigSchema
  timeout : Option String
  capWord : config.defaultRetryMaxDelayMs < 2 ^ 64
  retryAccepted : ∀ r, retry = some r → (compileRetry config r).isOk = true
  timeoutAccepted : ∀ s, timeout = some s → (parseDuration s).isOk = true

/-- The delays as they are written, or the defaults. -/
def baseMs (config : EngineConfig) (r : RetryConfigSchema) : ℕ :=
  (r.delay.bind writtenMs).getD config.defaultRetryBaseDelayMs

def capMs (config : EngineConfig) (r : RetryConfigSchema) : ℕ :=
  (r.maxDelay.bind writtenMs).getD config.defaultRetryMaxDelayMs

def strategyOf (config : EngineConfig) (r : RetryConfigSchema) : BackoffStrategy :=
  match r.backoff with
  | some "fixed" => .fixed
  | some "linear" => .linear (baseMs config r)
  | _ => .exponential

/-- No overflow, no panic, no other value than the exact one, and growing delays. -/
structure RetryExact (config : EngineConfig) (r : RetryConfigSchema) (policy : RetryPolicy) :
    Prop where
  delay : ∀ s, r.delay = some s → ParsedAsWritten s
  maxDelay : ∀ s, r.maxDelay = some s → ParsedAsWritten s
  attempts : (r.times + 1) % 2 ^ 32 = r.times + 1
  delays : DelaysExact policy config r.times
  growing : ∀ p q, 1 ≤ p → p ≤ q → q ≤ r.times → ∃ d d',
    calculateBackoff (some policy) p config = some d ∧
      calculateBackoff (some policy) q config = some d' ∧ d ≤ d'

structure Timing.Exact {config : EngineConfig} (t : Timing config) : Prop where
  timeout : ∀ s, t.timeout = some s → ParsedAsWritten s
  retry : ∀ r policy, t.retry = some r → compileRetry config r = .ok policy →
    RetryExact config r policy

structure RetryFits (config : EngineConfig) (r : RetryConfigSchema) : Prop where
  delay : ∀ s, r.delay = some s → MinutesFit s
  maxDelay : ∀ s, r.maxDelay = some s → MinutesFit s
  times : r.times < 2 ^ 32 - 1
  backoff : 1 ≤ r.times →
    BackoffFits (strategyOf config r) (baseMs config r) (capMs config r) r.times

/-- What the texts and the number of retries must satisfy. -/
structure Timing.Fits {config : EngineConfig} (t : Timing config) : Prop where
  timeout : ∀ s, t.timeout = some s → MinutesFit s
  retry : ∀ r, t.retry = some r → RetryFits config r

section Compiled
variable {config : EngineConfig} {r : RetryConfigSchema} {policy : RetryPolicy}

theorem mapM_parseDuration_written {text : Option String} {parsed : Option ℕ}
    (h : text.mapM parseDuration = .ok parsed) (hfit : ∀ s, text = some s → MinutesFit s) :
    parsed = text.bind writtenMs := by
  obtain ⟨rfl, rfl⟩ | ⟨s, d, rfl, hd, rfl⟩ := optionMapM_ok h
  · rfl
  · rw [Option.bind_some, (parseDuration_written_iff hd).mpr (hfit s rfl)]

theorem mapM_parseDuration_fit_iff {text : Option String} {parsed : Option ℕ}
    (h : text.mapM parseDuration = .ok parsed) :
    (∀ s, text = some s → ParsedAsWritten s) ↔ ∀ s, text = some s → MinutesFit s := by
  obtain ⟨rfl, rfl⟩ | ⟨s, d, rfl, hd, rfl⟩ := optionMapM_ok h
  · simp
  · simp [parsedAsWritten_iff hd]

theorem compileRetry_ok (h : compileRetry config r = .ok policy) :
    ∃ base cap, r.delay.mapM parseDuration = .ok base ∧ r.maxDelay.mapM parseDuration = .ok cap ∧
      policy.baseDelay = base.getD config.defaultRetryBaseDelayMs ∧
      policy.maxDelay = cap.getD config.defaultRetryMaxDelayMs ∧
      policy.backoff = (match r.backoff with
        | some "fixed" => .fixed
        | some "linear" => .linear policy.baseDelay
        | _ => .exponential) := by
  unfold compileRetry at h
  obtain ⟨base, hbase, h⟩ := bind_ok h
  obtain ⟨cap, hcap, h⟩ := bind_ok h
  cases h
  exact ⟨base, cap, hbase, hcap, rfl, rfl, rfl⟩

/-- Where the texts fit, the policy has the durations as written. -/
theorem compileRetry_written (h : compileRetry config r = .ok policy)
    (hdelay : ∀ s, r.delay = some s → MinutesFit s)
    (hmax : ∀ s, r.maxDelay = some s → MinutesFit s) :
    policy.baseDelay = baseMs config r ∧ policy.maxDelay = capMs config r ∧
      policy.backoff = strategyOf config r := by
  obtain ⟨base, cap, hbase, hcap, hb, hc, hstrategy⟩ := compileRetry_ok h
  have hbaseMs : policy.baseDelay = baseMs config r := by
    rw [hb, mapM_parseDuration_written hbase hdelay]
    rfl
  refine ⟨hbaseMs, ?_, ?_⟩
  · rw [hc, mapM_parseDuration_written hcap hmax]
    rfl
  · rw [hstrategy, hbaseMs]
    rfl

theorem maxDelay_lt (h : compileRetry config r = .ok policy)
    (hword : config.defaultRetryMaxDelayMs < 2 ^ 64) : policy.maxDelay < durationBound := by
  obtain ⟨base, cap, -, hcap, -, hc, -⟩ := compileRetry_ok h
  rw [hc]
  obtain ⟨-, rfl⟩ | ⟨s, d, -, hd, rfl⟩ := optionMapM_ok hcap
  · unfold durationBound
    rw [Option.getD_none]
    omega
  · exact parseDuration_lt hd

theorem retryExact_iff (h : compileRetry config r = .ok policy)
    (hword : config.defaultRetryMaxDelayMs < 2 ^ 64) :
    RetryExact config r policy ↔ RetryFits config r := by
  obtain ⟨base, cap, hbase, hcap, -, -, -⟩ := compileRetry_ok h
  have hdelay := mapM_parseDuration_fit_iff hbase
  have hmax := mapM_parseDuration_fit_iff hcap
  have hbound := maxDelay_lt h hword
  constructor
  · intro hexact
    have hwritten := compileRetry_written h (hdelay.mp hexact.delay) (hmax.mp hexact.maxDelay)
    have hattempts := hexact.attempts
    refine ⟨hdelay.mp hexact.delay, hmax.mp hexact.maxDelay, by omega, ?_⟩
    intro htimes
    rw [← hwritten.1, ← hwritten.2.1, ← hwritten.2.2]
    exact (delaysExact_iff hbound htimes).mp hexact.delays
  · intro hfits
    have hwritten := compileRetry_written h hfits.delay hfits.maxDelay
    have htimes := hfits.times
    have hdelays : DelaysExact policy config r.times := by
      by_cases hone : 1 ≤ r.times
      · rw [delaysExact_iff hbound hone, hwritten.1, hwritten.2.1, hwritten.2.2]
        exact hfits.backoff hone
      · intro p hp hle
        omega
    exact ⟨hdelay.mpr hfits.delay, hmax.mpr hfits.maxDelay, by omega, hdelays,
      fun p q hp hpq hq => delaysExact_mono hdelays hp hpq hq⟩

end Compiled

/-- The arithmetic of a node's `timeout` and `retry` is exact only when minutes fit in 64 bits of
seconds, the number of attempts in 32 bits, and the backoff in the words it is computed in. -/
theorem timing_exact_iff {config : EngineConfig} (t : Timing config) : t.Exact ↔ t.Fits := by
  have htimeout : (∀ s, t.timeout = some s → ParsedAsWritten s) ↔
      ∀ s, t.timeout = some s → MinutesFit s := by
    refine forall_congr' fun s => forall_congr' fun hs => ?_
    obtain ⟨d, hd⟩ := isOk_iff.mp (t.timeoutAccepted s hs)
    exact parsedAsWritten_iff hd
  constructor
  · intro hexact
    refine ⟨htimeout.mp hexact.timeout, ?_⟩
    intro r hr
    obtain ⟨policy, hpolicy⟩ := isOk_iff.mp (t.retryAccepted r hr)
    exact (retryExact_iff hpolicy t.capWord).mp (hexact.retry r policy hr hpolicy)
  · intro hfits
    refine ⟨htimeout.mpr hfits.timeout, ?_⟩
    intro r policy hr hpolicy
    exact (retryExact_iff hpolicy t.capWord).mpr (hfits.retry r hr)

/-- A timeout of `2 ^ 64 / 60` minutes and a little. -/
def longTimeout : Timing .default where
  retry := none
  timeout := some "307445734561825861m"
  capWord := by decide
  retryAccepted := nofun
  timeoutAccepted := by
    intro s hs
    cases hs
    decide +kernel

/-- The timeout is taken for 44 seconds, and the third retry panics before it waits. -/
theorem long_durations_overflow :
    (parseDuration "307445734561825861m" = .ok 44000 ∧
      writtenMs "307445734561825861m" = some 18446744073709551660000 ∧ ¬longTimeout.Exact) ∧
    (∃ policy, compileRetry .default longBackoff = .ok policy ∧
      calculateBackoff (some policy) 3 .default = none) := by
  have hparsed : parseDuration "307445734561825861m" = .ok 44000 := by decide +kernel
  have hwritten : writtenMs "307445734561825861m" = some 18446744073709551660000 := by
    decide +kernel
  refine ⟨⟨hparsed, hwritten, ?_⟩, ⟨3, .linear 9223372036854775808000, 9223372036854775808000,
    30000⟩, by decide +kernel, by decide +kernel⟩
  intro hexact
  obtain ⟨d, hd, hw⟩ := hexact.timeout _ rfl
  rw [hparsed] at hd
  cases hd
  rw [hwritten] at hw
  exact absurd (Option.some.inj hw) (by decide)

end Konf.Executor
