import Konf.Foundations.Json
import Konf.Foundations.Table
import Konf.Foundations.Text
import Konf.Foundations.Transition

/-! # The JWT verifier

Model of `konf-backend/src/auth/jwt.rs` and `middleware.rs`. Requests are verified concurrently and share
one cache of the key set. A verification that finds no fresh key set fetches one, and stores it when it
gets the lock; other requests come and go in between. Times are nanoseconds of the monotonic clock. -/

namespace Konf.Backend
open Konf.Text Konf.Transition
set_option autoImplicit false

/-! ## Tokens -/

structure Claims where
  sub : String
  aud : Option String
  iss : Option String
  exp : ℤ
  role : Option String
deriving DecidableEq

inductive AuthError
  | invalidHeaderFormat
  | missingKid
  | keyNotFound (kid : String)
  | verificationFailed (message : String)
  | jwksFetchFailed (message : String)
  | expired
deriving DecidableEq

def AuthError.message : AuthError → String
  | .invalidHeaderFormat => "invalid Authorization header format (expected 'Bearer <token>')"
  | .missingKid => "missing 'kid' in JWT header"
  | .keyNotFound kid => "key not found in JWKS for kid '" ++ kid ++ "'"
  | .verificationFailed message => "JWT verification failed: " ++ message
  | .jwksFetchFailed message => "failed to fetch JWKS: " ++ message
  | .expired => "token expired"

inductive Algorithm
  | HS256 | HS384 | HS512 | ES256 | ES384 | RS256 | RS384 | RS512 | PS256 | PS384 | PS512 | EdDSA
deriving DecidableEq

def Algorithm.debug : Algorithm → String
  | .HS256 => "HS256"
  | .HS384 => "HS384"
  | .HS512 => "HS512"
  | .ES256 => "ES256"
  | .ES384 => "ES384"
  | .RS256 => "RS256"
  | .RS384 => "RS384"
  | .RS512 => "RS512"
  | .PS256 => "PS256"
  | .PS384 => "PS384"
  | .PS512 => "PS512"
  | .EdDSA => "EdDSA"

structure Header where
  alg : Algorithm
  kid : Option String

structure Validation where
  algorithm : Algorithm
  audience : Option String

inductive DecodeError
  | expiredSignature
  | other (message : String)

/-- What is used of the crate `jsonwebtoken`. `decode` reads the wall clock. -/
structure Jsonwebtoken (Jwk Key : Type) where
  keyId : Jwk → Option String
  decodeHeader : String → Except String Header
  fromJwk : Jwk → Except String Key
  decode : ℤ → String → Key → Validation → Except DecodeError Claims

structure JwtVerifier where
  audience : String
  cacheTtl : ℕ
  -- the variable `KONF_DEV_MODE`
  devMode : Option String

/-- A token whose header has been read. -/
structure Ticket where
  token : String
  alg : Algorithm
  kid : String

/-- What the middleware does with a request: the handler gets the claims, or the answer is 401. -/
inductive Admission
  | forwarded (claims : Claims)
  | unauthorized (error : String)
deriving DecidableEq

def devClaims : Claims := ⟨"dev_user", none, none, 9223372036854775807, some "user"⟩

section Verify
variable {Jwk Key : Type} (lib : Jsonwebtoken Jwk Key) (v : JwtVerifier)

def JwtVerifier.isDevMode : Bool := v.devMode.any fun s => s == "1" || s.toLower == "true"

def extractToken (authHeader : String) : Except AuthError String :=
  match stripPrefix authHeader "Bearer " with
  | none => .error .invalidHeaderFormat
  | some token => .ok token

/-- `verify` up to the key set. -/
def verifyHeader (token : String) : Except AuthError Ticket :=
  match lib.decodeHeader token with
  | .error e => .error (.verificationFailed e)
  | .ok header => match header.kid with
    | none => .error .missingKid
    | some kid => .ok ⟨token, header.alg, kid⟩

/-- `auth_middleware` up to the key set. -/
def JwtVerifier.authMiddleware (authorization : Option String) : Except Admission Ticket :=
  if v.isDevMode then .error (.forwarded devClaims)
  else match authorization with
    | none => .error (.unauthorized "Missing Authorization header")
    | some header => (extractToken header >>= verifyHeader lib).mapError fun e => .unauthorized e.message

/-- `Validation::new`, with the audience if one is configured. -/
def JwtVerifier.validation (algorithm : Algorithm) : Validation :=
  ⟨algorithm, if v.audience = "" then none else some v.audience⟩

/-- `verify` from the key set on. -/
def JwtVerifier.verifyWith (unix : ℤ) (keys : List Jwk) (t : Ticket) : Except AuthError Claims :=
  match keys.find? fun jwk => lib.keyId jwk == some t.kid with
  | none => .error (.keyNotFound t.kid)
  | some jwk => match lib.fromJwk jwk with
    | .error e => .error (.verificationFailed ("invalid JWK: " ++ e))
    | .ok key =>
      if t.alg = .RS256 ∨ t.alg = .ES256 then
        match lib.decode unix t.token key (v.validation t.alg) with
        | .ok claims => .ok claims
        | .error .expiredSignature => .error .expired
        | .error (.other message) => .error (.verificationFailed message)
      else .error (.verificationFailed ("unsupported algorithm: " ++ t.alg.debug))

def Admission.ofResult : Except AuthError Claims → Admission
  | .ok claims => .forwarded claims
  | .error e => .unauthorized e.message

end Verify

/-! ## Requests in flight -/

structure CachedJwks (Jwk : Type) where
  keys : List Jwk
  fetchedAt : ℕ

/-- Where a verification stands in `get_or_refresh_jwks`. -/
inductive Fetch (Jwk : Type)
  | sent (at_ : ℕ)
  | received (at_ : ℕ) (keys : List Jwk)

def Fetch.receivedAt {Jwk : Type} : Fetch Jwk → Option ℕ
  | .sent _ => none
  | .received at_ _ => some at_

structure Verification (Jwk : Type) where
  authorization : Option String
  ticket : Ticket
  fetch : Fetch Jwk

/-- A request that has been decided. -/
structure Decided where
  at_ : ℕ
  unix : ℤ
  authorization : Option String
  admission : Admission

structure AuthState (Jwk : Type) where
  clock : ℕ
  cache : Option (CachedJwks Jwk)
  inFlight : Table ℕ (Verification Jwk)
  decided : List Decided

inductive AuthMove
  | arrive (now : ℕ) (unix : ℤ) (id : ℕ) (authorization : Option String)
  -- the provider made the response at a time of its own
  | respond (now : ℕ) (id : ℕ) (servedAt : ℕ)
  | fail (now : ℕ) (unix : ℤ) (id : ℕ) (message : String)
  | store (now : ℕ) (unix : ℤ) (id : ℕ)
  | hangUp (id : ℕ)

/-- The timeout of the fetch, 10 seconds. -/
def fetchTimeout : ℕ := 10000000000

namespace AuthState
section Apply
variable {Jwk Key : Type} (lib : Jsonwebtoken Jwk Key) (v : JwtVerifier) (published : ℕ → List Jwk)

def decide_ (s : AuthState Jwk) (now : ℕ) (unix : ℤ) (authorization : Option String)
    (admission : Admission) : AuthState Jwk :=
  { s with clock := now, decided := s.decided ++ [⟨now, unix, authorization, admission⟩] }

/-- The cached keys, if they are fresh. -/
def fresh (s : AuthState Jwk) (now : ℕ) : Option (List Jwk) :=
  (s.cache.filter fun c => now - c.fetchedAt < v.cacheTtl).map CachedJwks.keys

def arrive (s : AuthState Jwk) (now : ℕ) (unix : ℤ) (id : ℕ) (authorization : Option String) :
    AuthState Jwk :=
  match v.authMiddleware lib authorization with
  | .error admission => s.decide_ now unix authorization admission
  | .ok t => match s.fresh v now with
    | some keys => s.decide_ now unix authorization (.ofResult (v.verifyWith lib unix keys t))
    | none => { s with
        clock := now, inFlight := s.inFlight.insert id ⟨authorization, t, .sent now⟩ }

/-- One move. The provider answers with the key set that it publishes at some time between the request
and the response. -/
def apply (s : AuthState Jwk) : AuthMove → Option (AuthState Jwk)
  | .arrive now unix id authorization =>
    if s.clock ≤ now ∧ s.inFlight.get id = none then some (s.arrive lib v now unix id authorization)
    else none
  | .respond now id servedAt => match s.inFlight.get id with
    | some ⟨authorization, t, .sent sentAt⟩ =>
      if s.clock ≤ now ∧ sentAt ≤ servedAt ∧ servedAt ≤ now ∧ now ≤ sentAt + fetchTimeout then
        some { s with
          clock := now
          inFlight := s.inFlight.insert id ⟨authorization, t, .received now (published servedAt)⟩ }
      else none
    | _ => none
  | .fail now unix id message => match s.inFlight.get id with
    | some ⟨authorization, _, .sent _⟩ =>
      if s.clock ≤ now then
        some ({ s with inFlight := s.inFlight.remove id }.decide_ now unix authorization
          (.unauthorized (AuthError.jwksFetchFailed message).message))
      else none
    | _ => none
  | .store now unix id => match s.inFlight.get id with
    | some ⟨authorization, t, .received _ keys⟩ =>
      if s.clock ≤ now then
        some ({ s with cache := some ⟨keys, now⟩, inFlight := s.inFlight.remove id }.decide_ now unix
          authorization (.ofResult (v.verifyWith lib unix keys t)))
      else none
    | _ => none
  | .hangUp id => some { s with inFlight := s.inFlight.remove id }

end Apply

/-- The verifier of a process that starts. -/
def Fresh {Jwk : Type} (s : AuthState Jwk) : Prop :=
  s.cache = none ∧ s.inFlight.rows = [] ∧ s.decided = []

/-- A key set that was received waits for the lock no longer than a delay. -/
def Prompt {Jwk : Type} (delay : ℕ) (s : AuthState Jwk) : AuthMove → Prop
  | .store now _ id => ∀ r ∈ s.inFlight.get id, ∀ at_ ∈ r.fetch.receivedAt, now ≤ at_ + delay
  | .arrive _ _ _ _ | .respond _ _ _ | .fail _ _ _ _ | .hangUp _ => True

instance {Jwk : Type} (delay : ℕ) (s : AuthState Jwk) : (m : AuthMove) → Decidable (s.Prompt delay m)
  | .store now _ id => inferInstanceAs
      (Decidable (∀ r ∈ s.inFlight.get id, ∀ at_ ∈ r.fetch.receivedAt, now ≤ at_ + delay))
  | .arrive _ _ _ _ | .respond _ _ _ | .fail _ _ _ _ | .hangUp _ => .isTrue trivial

end AuthState

/-! ## Which keys decide -/

section Fresh
variable {Jwk Key : Type} (lib : Jsonwebtoken Jwk Key) (v : JwtVerifier) (published : ℕ → List Jwk)

/-- The keys are what the provider published at a time that is not long past. -/
def Recent (bound now : ℕ) (keys : List Jwk) : Prop :=
  ∃ servedAt, keys = published servedAt ∧ servedAt ≤ now ∧ now ≤ servedAt + bound

/-- A request is decided before any key is looked at, or its fetch failed, or recent keys decide it. -/
def Decided.Justified (bound : ℕ) (d : Decided) : Prop :=
  v.authMiddleware lib d.authorization = .error d.admission ∨
    ∃ t, v.authMiddleware lib d.authorization = .ok t ∧
      ((∃ message, d.admission = .unauthorized (AuthError.jwksFetchFailed message).message) ∨
        ∃ keys, Recent published bound d.at_ keys ∧
          d.admission = .ofResult (v.verifyWith lib d.unix keys t))

/-- What is known of a verification in flight. -/
structure Verification.Known (clock : ℕ) (r : Verification Jwk) : Prop where
  ticket : v.authMiddleware lib r.authorization = .ok r.ticket
  received : ∀ at_ keys, r.fetch = .received at_ keys → at_ ≤ clock ∧ Recent published fetchTimeout at_ keys

structure AuthState.Sound (delay : ℕ) (s : AuthState Jwk) : Prop where
  cache : ∀ c ∈ s.cache, Recent published (fetchTimeout + delay) c.fetchedAt c.keys ∧ c.fetchedAt ≤ s.clock
  inFlight : ∀ r ∈ s.inFlight.rows, r.2.Known lib v published s.clock
  decided : ∀ d ∈ s.decided, d.Justified lib v published (fetchTimeout + delay + v.cacheTtl)

end Fresh

section Sound
variable {Jwk Key : Type} {lib : Jsonwebtoken Jwk Key} {v : JwtVerifier} {published : ℕ → List Jwk}
  {delay : ℕ} {s s' : AuthState Jwk}

theorem Recent.later {bound bound' now now' : ℕ} {keys : List Jwk} (h : Recent published bound now keys)
    (hle : now ≤ now') (hlate : now' + bound ≤ now + bound') : Recent published bound' now' keys := by
  obtain ⟨servedAt, hkeys, hserved, hbound⟩ := h
  exact ⟨servedAt, hkeys, by omega, by omega⟩

theorem Verification.Known.later {clock clock' : ℕ} {r : Verification Jwk}
    (h : r.Known lib v published clock) (hle : clock ≤ clock') : r.Known lib v published clock' := by
  refine ⟨h.ticket, ?_⟩
  intro at_ keys hr
  obtain ⟨hat, hrecent⟩ := h.received at_ keys hr
  exact ⟨hat.trans hle, hrecent⟩

namespace AuthState

/-- The clock moves on and one more request is decided. -/
theorem Sound.decide (h : s.Sound lib v published delay) {now : ℕ} (hnow : s.clock ≤ now) {unix : ℤ}
    {authorization : Option String} {admission : Admission}
    (hjust : Decided.Justified lib v published (fetchTimeout + delay + v.cacheTtl)
      ⟨now, unix, authorization, admission⟩) :
    (s.decide_ now unix authorization admission).Sound lib v published delay := by
  refine ⟨?_, ?_, ?_⟩
  · intro c hc
    obtain ⟨hrecent, hat⟩ := h.cache c hc
    exact ⟨hrecent, hat.trans hnow⟩
  · intro r hr
    exact (h.inFlight r hr).later hnow
  · intro d hd
    obtain hd | hd := List.mem_append.mp hd
    · exact h.decided d hd
    · rw [List.mem_singleton.mp hd]
      exact hjust

theorem Sound.remove (h : s.Sound lib v published delay) (id : ℕ) :
    Sound lib v published delay { s with inFlight := s.inFlight.remove id } := by
  refine ⟨h.cache, ?_, h.decided⟩
  intro r hr
  exact h.inFlight r (Table.mem_remove.mp hr).2

/-- The clock moves on and a verification goes on. -/
theorem Sound.insert (h : s.Sound lib v published delay) {now : ℕ} (hnow : s.clock ≤ now) {id : ℕ}
    {r : Verification Jwk} (hr : r.Known lib v published now) :
    Sound lib v published delay { s with clock := now, inFlight := s.inFlight.insert id r } := by
  refine ⟨?_, ?_, h.decided⟩
  · intro c hc
    obtain ⟨hrecent, hat⟩ := h.cache c hc
    exact ⟨hrecent, hat.trans hnow⟩
  · intro r' hr'
    obtain rfl | ⟨-, hr'⟩ := Table.mem_insert.mp hr'
    · exact hr
    · exact (h.inFlight r' hr').later hnow

/-- Keys that the cache still gives out were published within the lifetime of the cache. -/
theorem Sound.fresh (h : s.Sound lib v published delay) {now : ℕ} (hnow : s.clock ≤ now)
    {keys : List Jwk} (hkeys : s.fresh v now = some keys) :
    Recent published (fetchTimeout + delay + v.cacheTtl) now keys := by
  obtain ⟨c, hc, rfl⟩ := Option.map_eq_some_iff.mp hkeys
  obtain ⟨hc, hfresh⟩ := Option.filter_eq_some_iff.mp hc
  obtain ⟨hrecent, hat⟩ := h.cache c hc
  have hfresh : now - c.fetchedAt < v.cacheTtl := of_decide_eq_true hfresh
  exact hrecent.later (hat.trans hnow) (by omega)

theorem Sound.arrive (h : s.Sound lib v published delay) {now : ℕ} (hnow : s.clock ≤ now) (unix : ℤ)
    (id : ℕ) (authorization : Option String) :
    (s.arrive lib v now unix id authorization).Sound lib v published delay := by
  unfold AuthState.arrive
  cases hasked : v.authMiddleware lib authorization with
  | error admission => exact h.decide hnow (.inl hasked)
  | ok t =>
    dsimp only
    cases hfresh : s.fresh v now with
    | some keys => exact h.decide hnow (.inr ⟨t, hasked, .inr ⟨keys, h.fresh hnow hfresh, rfl⟩⟩)
    | none =>
      refine h.insert hnow ⟨hasked, ?_⟩
      intro at_ keys hsent
      cases hsent

theorem Sound.step (h : s.Sound lib v published delay) {m : AuthMove} (hprompt : s.Prompt delay m)
    (hs : s.apply lib v published m = some s') : s'.Sound lib v published delay := by
  cases m with
  | arrive now unix id authorization =>
    obtain ⟨⟨hnow, -⟩, hs⟩ := Option.ite_none_right_eq_some.mp hs
    cases hs
    exact h.arrive hnow unix id authorization
  | respond now id servedAt =>
    simp only [AuthState.apply] at hs
    split at hs
    · rename_i authorization t sentAt hget
      obtain ⟨⟨hnow, hsent, hserved, htimeout⟩, hs⟩ := Option.ite_none_right_eq_some.mp hs
      cases hs
      refine h.insert hnow ⟨(h.inFlight _ (Table.get_eq_some_iff.mp hget)).ticket, ?_⟩
      intro at_ keys hreceived
      cases hreceived
      exact ⟨le_refl _, servedAt, rfl, hserved, by omega⟩
    · cases hs
  | fail now unix id message =>
    simp only [AuthState.apply] at hs
    split at hs
    · rename_i authorization t sentAt hget
      obtain ⟨hnow, hs⟩ := Option.ite_none_right_eq_some.mp hs
      cases hs
      have hticket := (h.inFlight _ (Table.get_eq_some_iff.mp hget)).ticket
      exact (h.remove id).decide hnow (.inr ⟨t, hticket, .inl ⟨message, rfl⟩⟩)
    · cases hs
  | store now unix id =>
    simp only [AuthState.apply] at hs
    split at hs
    · rename_i authorization t at_ keys hget
      obtain ⟨hnow, hs⟩ := Option.ite_none_right_eq_some.mp hs
      cases hs
      have hknown := h.inFlight _ (Table.get_eq_some_iff.mp hget)
      obtain ⟨hat, hrecent⟩ := hknown.received at_ keys rfl
      have hdelay : now ≤ at_ + delay := hprompt _ hget at_ rfl
      have hstored : Recent published (fetchTimeout + delay) now keys :=
        hrecent.later (hat.trans hnow) (by omega)
      have hnew : Sound lib v published delay
          { s with clock := now, cache := some ⟨keys, now⟩, inFlight := s.inFlight.remove id } := by
        refine ⟨?_, ?_, h.decided⟩
        · intro c hc
          cases hc
          exact ⟨hstored, le_refl _⟩
        · intro r hr
          exact (h.inFlight r (Table.mem_remove.mp hr).2).later hnow
      have hrecent' : Recent published (fetchTimeout + delay + v.cacheTtl) now keys :=
        hstored.later (le_refl now) (by omega)
      exact hnew.decide (le_refl now) (.inr ⟨t, hknown.ticket, .inr ⟨keys, hrecent', rfl⟩⟩)
    · cases hs
  | hangUp id =>
    cases hs
    exact h.remove id

end AuthState

/-- However concurrent requests and their fetches interleave, if no key set waits for the lock longer than
the delay: a request that gets as far as a key set is decided by one that the provider published no
longer ago than the timeout, the delay and the lifetime of the cache together. So a key that the provider
has withdrawn admits nobody from then on. -/
theorem decisions_recent {s : AuthState Jwk} (h : ReachesBy
    (fun s m s' => AuthState.apply lib v published s m = some s') (AuthState.Prompt delay)
    AuthState.Fresh s) :
    (∀ d ∈ s.decided, d.Justified lib v published (fetchTimeout + delay + v.cacheTtl)) ∧
    ∀ kid withdrawnAt, (∀ at_, withdrawnAt ≤ at_ → ∀ jwk ∈ published at_, lib.keyId jwk ≠ some kid) →
      ∀ d ∈ s.decided, withdrawnAt + (fetchTimeout + delay + v.cacheTtl) ≤ d.at_ →
        ∀ t, v.authMiddleware lib d.authorization = .ok t → t.kid = kid →
          d.admission = .unauthorized (AuthError.keyNotFound kid).message ∨
            ∃ message, d.admission = .unauthorized (AuthError.jwksFetchFailed message).message := by
  have hsound : s.Sound lib v published delay := by
    refine ReachesBy.invariant ?_ (fun s m s' _ hi hok hs => hi.step hok hs) h
    rintro s ⟨hcache, hinFlight, hdecided⟩
    refine ⟨?_, ?_, ?_⟩
    · rw [hcache]
      intro c hc
      cases hc
    · rw [hinFlight]
      intro r hr
      cases hr
    · rw [hdecided]
      intro d hd
      cases hd
  refine ⟨hsound.decided, ?_⟩
  intro kid withdrawnAt hgone d hd hlate t hasked hkid
  obtain hearly | ⟨t', hasked', hfailed | ⟨keys, ⟨servedAt, hkeys, -, hbound⟩, hadmission⟩⟩ :=
    hsound.decided d hd
  · rw [hasked] at hearly
    cases hearly
  · exact .inr hfailed
  · rw [hasked, Except.ok.injEq] at hasked'
    have hnone : (keys.find? fun jwk => lib.keyId jwk == some t'.kid) = none := by
      rw [List.find?_eq_none, hkeys, ← hasked', hkid]
      intro jwk hjwk
      have hne := hgone servedAt (by omega) jwk hjwk
      simpa using hne
    left
    rw [hadmission, JwtVerifier.verifyWith, hnone, ← hasked', hkid]
    rfl

end Sound

/-! ## A key that is withdrawn -/

/-- Keys are their ids, and a token is the id of the key that signed it. -/
def plainTokens : Jsonwebtoken String String where
  keyId jwk := some jwk
  decodeHeader token := .ok ⟨.RS256, some token⟩
  fromJwk jwk := .ok jwk
  decode _ token key _ := if token = key then .ok ⟨"alice", none, none, 0, none⟩
    else .error (.other "InvalidSignature")

def plainVerifier : JwtVerifier := ⟨"", 100, none⟩

/-- The provider withdraws its first key at time 20. -/
def rotation (at_ : ℕ) : List String := if at_ < 20 then ["first", "second"] else ["second"]

def newVerifier : AuthState String := ⟨0, none, .empty, []⟩

/-- Two requests fetch at once, a third reads the cache, and the last one comes when the cache is old. -/
def rotationMoves : List AuthMove :=
  [.arrive 10 0 1 (some "Bearer first"), .arrive 11 0 2 (some "Bearer first"), .respond 15 1 12,
    .respond 25 2 21, .store 26 0 1, .arrive 30 0 3 (some "Bearer first"), .store 31 0 2,
    .arrive 20000000000 0 4 (some "Bearer first"), .respond 20000000001 4 20000000001,
    .store 20000000002 0 4]

def rotationRun : Option (AuthState String) :=
  exec (fun s m => if AuthState.Prompt 20 s m then AuthState.apply plainTokens plainVerifier rotation s m
    else none) newVerifier rotationMoves

theorem decisions_recent_withdrawn : ∃ s, rotationRun = some s ∧
    s.decided.map (fun d => (d.at_, d.admission)) =
      [(26, .forwarded ⟨"alice", none, none, 0, none⟩), (30, .forwarded ⟨"alice", none, none, 0, none⟩),
        (31, .unauthorized (AuthError.keyNotFound "first").message),
        (20000000002, .unauthorized (AuthError.keyNotFound "first").message)] ∧
    ∀ d ∈ s.decided, 20 + (fetchTimeout + 20 + 100) ≤ d.at_ → ∀ t,
      plainVerifier.authMiddleware plainTokens d.authorization = .ok t → t.kid = "first" →
        d.admission = .unauthorized (AuthError.keyNotFound "first").message ∨
          ∃ message, d.admission = .unauthorized (AuthError.jwksFetchFailed message).message := by
  have hends : rotationRun.isSome = true := by decide +kernel
  obtain ⟨s, hs⟩ := Option.isSome_iff_exists.mp hends
  have hdecided : ∀ s ∈ rotationRun, s.decided.map (fun d => (d.at_, d.admission)) =
      [(26, .forwarded ⟨"alice", none, none, 0, none⟩), (30, .forwarded ⟨"alice", none, none, 0, none⟩),
        (31, .unauthorized (AuthError.keyNotFound "first").message),
        (20000000002, .unauthorized (AuthError.keyNotFound "first").message)] := by
    decide +kernel
  have hfresh : newVerifier.Fresh := ⟨rfl, rfl, rfl⟩
  have hgone : ∀ at_, 20 ≤ at_ → ∀ jwk ∈ rotation at_, plainTokens.keyId jwk ≠ some "first" := by
    intro at_ hat jwk hjwk
    rw [rotation, if_neg (by omega), List.mem_singleton] at hjwk
    rw [hjwk]
    decide
  have hreached := exec_guarded_reachesBy (fun _ _ _ h => h) (.start hfresh) hs
  exact ⟨s, hs, hdecided s hs, (decisions_recent hreached).2 "first" 20 hgone⟩

end Konf.Backend
