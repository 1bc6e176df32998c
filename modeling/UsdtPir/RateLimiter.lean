import Mathlib.Algebra.Order.Floor.Semiring
import Mathlib.Data.Rat.Floor
import UsdtPir.Records
import UsdtPir.TokenBucket

/-!
# The rate limiter of the query endpoint

A token bucket for each client address, in a table of bounded size.  Instants
and durations are whole nanoseconds, tokens are exact rational numbers where the
code has doubles; an instant before another one is no time away from it.
-/

namespace UsdtPir

open TokenBucket

inductive IpAddr
  | v4 (addr : U32)
  | v6 (addr : U128)
  deriving DecidableEq

abbrev Instant := ℕ

abbrev Duration := ℕ

namespace Duration

def fromSecs (n : ℕ) : Duration :=
  n * 1000000000

def asSecs (d : Duration) : ℚ :=
  d / 1000000000

/-- To the nearest whole number, and to the even one of two. -/
def roundHalfEven (q : ℚ) : ℕ :=
  let whole := ⌊q⌋₊
  let part := q - whole
  if part < 1 / 2 then whole
  else if 1 / 2 < part then whole + 1
  else if whole % 2 = 0 then whole
  else whole + 1

def fromSecsRat (secs : ℚ) : Duration :=
  roundHalfEven (secs * 1000000000)

end Duration

structure RateLimit where
  /-- Sustained queries per minute per client.  Zero disables limiting. -/
  perMinute : ℕ
  /-- Queries a client may issue back-to-back before the rate binds. -/
  burst : ℕ
  deriving DecidableEq

namespace RateLimit

def tokensPerSec (limit : RateLimit) : ℚ :=
  limit.perMinute / 60

/-- What a bucket holds at most. -/
def cap (limit : RateLimit) : ℚ :=
  ((max limit.burst 1 : ℕ) : ℚ)

end RateLimit

structure Bucket where
  tokens : ℚ
  last : Instant
  deriving DecidableEq

/-- A lock is poisoned by a panic of a thread that holds it. -/
structure RateLimiter where
  limit : RateLimit
  poisoned : Bool
  clients : HashMap IpAddr Bucket

def MAX_TRACKED : ℕ := 100000

def IDLE_EVICT : Duration := Duration.fromSecs 600

/-- `HashMap::retain`. -/
def retain {κ υ : Type} [DecidableEq κ] (keep : υ → Bool) (m : HashMap κ υ) :
    HashMap κ υ :=
  ⟨m.entries.filter fun entry => keep entry.2,
    m.nodupKeys.sublist List.filter_sublist⟩

def makeRoom (clients : HashMap IpAddr Bucket) (client : IpAddr)
    (now : Instant) : Except Duration Unit × HashMap IpAddr Bucket :=
  if client ∈ clients ∨ clients.keys.length < MAX_TRACKED then
    (.ok (), clients)
  else
    let clients := retain (fun b => now - b.last < IDLE_EVICT) clients
    if clients.keys.length < MAX_TRACKED then
      (.ok (), clients)
    else
      (.error (Duration.fromSecs 1), clients)

/-- What `check_at` does to a bucket. -/
def Bucket.check (limit : RateLimit) (bucket : Bucket) (now : Instant) :
    Except Duration Unit × Bucket :=
  let rate := limit.tokensPerSec
  let refill := Duration.asSecs (now - bucket.last) * rate
  let tokens := min (bucket.tokens + refill) limit.cap
  if 1 ≤ tokens then
    (.ok (), ⟨tokens - 1, now⟩)
  else
    let missing := 1 - tokens
    -- `f64::MIN_POSITIVE`.
    (.error (Duration.fromSecsRat (missing / max rate (1 / 2 ^ 1022))),
      ⟨tokens, now⟩)

namespace RateLimiter

def new (limit : RateLimit) : RateLimiter :=
  ⟨limit, false, ∅⟩

def enabled (limiter : RateLimiter) : Bool :=
  0 < limiter.limit.perMinute

def checkAt (limiter : RateLimiter) (client : IpAddr) (now : Instant) :
    Except Duration Unit × RateLimiter :=
  if ¬ limiter.enabled then
    (.ok (), limiter)
  else if limiter.poisoned then
    (.error (Duration.fromSecs 1), limiter)
  else
    match makeRoom limiter.clients client now with
    | (.error wait, clients) => (.error wait, { limiter with clients })
    | (.ok (), clients) =>
        let bucket := (clients.lookup client).getD ⟨limiter.limit.cap, now⟩
        let (result, bucket) := bucket.check limiter.limit now
        (result, { limiter with clients := clients.insert client bucket })

end RateLimiter

/-! ## Histories -/

structure Call where
  client : IpAddr
  now : Instant
  deriving DecidableEq

namespace RateLimiter

/-- The limiter after some calls. -/
def after (limiter : RateLimiter) (calls : List Call) : RateLimiter :=
  calls.foldl (fun limiter call => (limiter.checkAt call.client call.now).2)
    limiter

/-- The calls with what they returned. -/
def answered (limiter : RateLimiter) :
    List Call → List (Call × Except Duration Unit)
  | [] => []
  | call :: calls =>
      (call, (limiter.checkAt call.client call.now).1) ::
        answered (limiter.checkAt call.client call.now).2 calls

end RateLimiter

/-! ## The table -/

section Table

variable {κ υ : Type} [DecidableEq κ] {m : HashMap κ υ} {keep : υ → Bool}
    {k : κ} {v : υ}

theorem lookup_retain_eq_some :
    (retain keep m).lookup k = some v ↔ m.lookup k = some v ∧ keep v = true := by
  rw [← Option.mem_def, AList.mem_lookup_iff, ← Option.mem_def,
    AList.mem_lookup_iff]
  exact List.mem_filter

theorem lookup_retain_of_keep (h : m.lookup k = some v) (hkeep : keep v = true) :
    (retain keep m).lookup k = some v :=
  lookup_retain_eq_some.mpr ⟨h, hkeep⟩

theorem lookup_retain_of_drop (h : ∀ v, m.lookup k = some v → keep v = false) :
    (retain keep m).lookup k = none := by
  cases hlookup : (retain keep m).lookup k with
  | none => rfl
  | some v =>
      obtain ⟨hheld, hkeep⟩ := lookup_retain_eq_some.mp hlookup
      rw [h v hheld] at hkeep
      cases hkeep

theorem length_keys_retain :
    (retain keep m).keys.length ≤ m.keys.length := by
  unfold AList.keys List.keys
  rw [List.length_map, List.length_map]
  exact List.length_filter_le _ _

theorem length_keys_insert_of_mem (h : k ∈ m) :
    (m.insert k v).keys.length = m.keys.length := by
  have hkey : k ∈ m.keys := AList.mem_keys.mp h
  have hpos : 0 < m.keys.length := List.length_pos_of_mem hkey
  rw [AList.keys_insert, List.length_cons, List.length_erase_of_mem hkey]
  omega

theorem length_keys_insert_of_not_mem (h : k ∉ m) :
    (m.insert k v).keys.length = m.keys.length + 1 := by
  have hkey : k ∉ m.keys := fun hkey => h (AList.mem_keys.mpr hkey)
  rw [AList.keys_insert, List.length_cons, List.erase_of_not_mem hkey]

end Table

/-! ## One bucket -/

namespace RateLimit

theorem one_le_cap (limit : RateLimit) : 1 ≤ limit.cap := by
  unfold cap
  exact_mod_cast le_max_right limit.burst 1

theorem cap_eq {limit : RateLimit} (h : 1 ≤ limit.burst) :
    limit.cap = limit.burst := by
  unfold cap
  rw [max_eq_left h]

theorem tokensPerSec_nonneg (limit : RateLimit) : 0 ≤ limit.tokensPerSec := by
  unfold tokensPerSec
  positivity

/-- What a bucket gains in a time. -/
def gain (limit : RateLimit) (d : Duration) : ℚ :=
  Duration.asSecs d * limit.tokensPerSec

theorem gain_eq (limit : RateLimit) (d : Duration) :
    limit.gain d = Duration.asSecs d * limit.perMinute / 60 :=
  mul_div_assoc' _ _ _

theorem gain_nonneg (limit : RateLimit) (d : Duration) : 0 ≤ limit.gain d := by
  unfold gain Duration.asSecs
  exact mul_nonneg (by positivity) limit.tokensPerSec_nonneg

theorem gain_add (limit : RateLimit) (d d' : Duration) :
    limit.gain (d + d') = limit.gain d + limit.gain d' := by
  unfold gain Duration.asSecs
  push_cast
  ring

@[simp] theorem gain_zero (limit : RateLimit) : limit.gain 0 = 0 := by
  simp [gain, Duration.asSecs]

theorem gain_mono (limit : RateLimit) {d d' : Duration} (h : d ≤ d') :
    limit.gain d ≤ limit.gain d' := by
  obtain ⟨more, rfl⟩ := Nat.exists_eq_add_of_le h
  rw [gain_add]
  exact le_add_of_nonneg_right (limit.gain_nonneg more)

end RateLimit

namespace Bucket

variable {limit : RateLimit} {bucket : Bucket} {now : Instant}

/-- What there is to spend at an instant. -/
def held (bucket : Bucket) (limit : RateLimit) (now : Instant) : ℚ :=
  level limit.cap bucket.tokens (limit.gain (now - bucket.last))

theorem check_snd :
    (bucket.check limit now).2 = ⟨left (bucket.held limit now), now⟩ := by
  unfold check held level left RateLimit.gain
  dsimp only
  split <;> rfl

theorem check_eq_ok_iff :
    (bucket.check limit now).1 = .ok () ↔ 1 ≤ bucket.held limit now := by
  unfold check held level RateLimit.gain
  dsimp only
  split
  case isTrue hle => simp [hle]
  case isFalse hnot => simp [hnot]

/-- How long the token that is missing takes. -/
def shortfall (bucket : Bucket) (limit : RateLimit) (now : Instant) : ℚ :=
  (1 - bucket.held limit now) / limit.tokensPerSec

/-- No rate that is not zero is below the smallest float. -/
theorem check_error (hrate : 1 ≤ limit.perMinute) {wait : Duration}
    (h : (bucket.check limit now).1 = .error wait) :
    bucket.held limit now < 1 ∧
      wait = Duration.fromSecsRat (bucket.shortfall limit now) := by
  have hpositive : (1 / 2 ^ 1022 : ℚ) ≤ limit.tokensPerSec := by
    have hone : (1 : ℚ) ≤ limit.perMinute := by exact_mod_cast hrate
    have hsmall : (1 / 2 ^ 1022 : ℚ) ≤ 1 / 60 := by
      apply one_div_le_one_div_of_le
      · norm_num
      · calc
          (60 : ℚ) ≤ 2 ^ 6 := by norm_num
          _ ≤ 2 ^ 1022 := pow_le_pow_right₀ (by norm_num) (by norm_num)
    calc
      (1 / 2 ^ 1022 : ℚ) ≤ 1 / 60 := hsmall
      _ ≤ limit.perMinute / 60 := by gcongr
  unfold check at h
  dsimp only at h
  split at h
  case isTrue => cases h
  case isFalse hnot =>
    rw [Except.error.injEq, max_eq_left hpositive] at h
    exact ⟨lt_of_not_ge hnot, h.symm⟩

theorem check_tokens (h : 0 ≤ bucket.tokens) :
    0 ≤ (bucket.check limit now).2.tokens ∧
      (bucket.check limit now).2.tokens ≤ limit.cap := by
  rw [check_snd]
  constructor
  · apply left_nonneg
    exact level_nonneg (zero_le_one.trans limit.one_le_cap) h
      (limit.gain_nonneg _)
  · exact (left_le _).trans level_le

end Bucket

/-! ## One call -/

/-- The table was full, and the client has been idle for too long. -/
def Evicted (clients : HashMap IpAddr Bucket) (now : Instant) (b : Bucket) :
    Prop :=
  MAX_TRACKED ≤ clients.keys.length ∧ IDLE_EVICT ≤ now - b.last

section Step

variable {clients : HashMap IpAddr Bucket} {client c : IpAddr}
    {now : Instant} {b : Bucket} {limiter : RateLimiter}

theorem lookup_makeRoom_some (h : (makeRoom clients client now).2.lookup c = some b) :
    clients.lookup c = some b := by
  unfold makeRoom at h
  split at h
  · exact h
  · dsimp only at h
    split at h
    · exact (lookup_retain_eq_some.mp h).1
    · exact (lookup_retain_eq_some.mp h).1

theorem lookup_makeRoom (client : IpAddr) (now : Instant)
    (h : clients.lookup c = some b) :
    (makeRoom clients client now).2.lookup c = some b ∨
      (makeRoom clients client now).2.lookup c = none ∧ client ∉ clients ∧
        Evicted clients now b := by
  unfold makeRoom
  split
  case isTrue => exact .inl h
  case isFalse hfull =>
    rw [not_or, Nat.not_lt] at hfull
    have hretained :
        (retain (fun b => now - b.last < IDLE_EVICT) clients).lookup c = some b ∨
        (retain (fun b => now - b.last < IDLE_EVICT) clients).lookup c = none ∧
          client ∉ clients ∧ Evicted clients now b := by
      by_cases hidle : now - b.last < IDLE_EVICT
      · exact .inl (lookup_retain_of_keep h (by simpa using hidle))
      · right
        refine ⟨lookup_retain_of_drop ?_, hfull.1, hfull.2, Nat.le_of_not_lt hidle⟩
        intro v hv
        rw [h, Option.some.injEq] at hv
        subst hv
        simpa using hidle
    dsimp only
    split
    · exact hretained
    · exact hretained

theorem lookup_makeRoom_self (now : Instant) :
    (makeRoom clients client now).2.lookup client = clients.lookup client := by
  cases hclient : clients.lookup client with
  | none =>
      cases hroom : (makeRoom clients client now).2.lookup client with
      | none => rfl
      | some b =>
          rw [lookup_makeRoom_some hroom] at hclient
          cases hclient
  | some b =>
      cases lookup_makeRoom client now hclient with
      | inl hkept => exact hkept
      | inr hdropped =>
          have hmem : client ∈ clients :=
            AList.lookup_isSome.mp (by rw [hclient]; rfl)
          exact absurd hmem hdropped.2.1

theorem makeRoom_of_mem (h : client ∈ clients) :
    makeRoom clients client now = (.ok (), clients) := by
  unfold makeRoom
  rw [if_pos (.inl h)]

theorem makeRoom_of_lookup (h : clients.lookup client = some b) :
    makeRoom clients client now = (.ok (), clients) :=
  makeRoom_of_mem (AList.lookup_isSome.mp (by rw [h]; rfl))

theorem makeRoom_of_lt (h : clients.keys.length < MAX_TRACKED) :
    makeRoom clients client now = (.ok (), clients) := by
  unfold makeRoom
  rw [if_pos (.inr h)]

theorem lt_of_makeRoom (h : (makeRoom clients client now).1 = .ok ()) :
    client ∈ (makeRoom clients client now).2 ∨
      (makeRoom clients client now).2.keys.length < MAX_TRACKED := by
  unfold makeRoom at h ⊢
  by_cases hroom : client ∈ clients ∨ clients.keys.length < MAX_TRACKED
  · rw [if_pos hroom]
    exact hroom
  · rw [if_neg hroom] at h ⊢
    dsimp only at h ⊢
    split at h
    case isTrue hlt =>
      rw [if_pos hlt]
      exact .inr hlt
    case isFalse => cases h

theorem length_makeRoom_le :
    (makeRoom clients client now).2.keys.length ≤ clients.keys.length := by
  unfold makeRoom
  split
  · exact le_rfl
  · dsimp only
    split
    · exact length_keys_retain
    · exact length_keys_retain

namespace RateLimiter

/-- The bucket a client is charged from: its own, or a full one. -/
def bucketOf (limiter : RateLimiter) (client : IpAddr) (now : Instant) :
    Bucket :=
  (limiter.clients.lookup client).getD ⟨limiter.limit.cap, now⟩

theorem bucketOf_of_lookup (h : limiter.clients.lookup client = some b) :
    limiter.bucketOf client now = b := by
  unfold bucketOf
  rw [h, Option.getD_some]

theorem bucketOf_of_none (h : limiter.clients.lookup client = none) :
    limiter.bucketOf client now = ⟨limiter.limit.cap, now⟩ := by
  unfold bucketOf
  rw [h, Option.getD_none]

/-- The limiter charges its clients. -/
def Working (limiter : RateLimiter) : Prop :=
  1 ≤ limiter.limit.perMinute ∧ limiter.poisoned = false

theorem working_new {limit : RateLimit} (h : 1 ≤ limit.perMinute) :
    (new limit).Working :=
  ⟨h, rfl⟩

theorem Working.enabled (h : limiter.Working) : limiter.enabled = true := by
  unfold RateLimiter.enabled
  exact decide_eq_true h.1

theorem checkAt_of_room (h : limiter.Working)
    (hroom : (makeRoom limiter.clients client now).1 = .ok ()) :
    limiter.checkAt client now =
      (((limiter.bucketOf client now).check limiter.limit now).1,
        { limiter with
          clients := (makeRoom limiter.clients client now).2.insert client
            ((limiter.bucketOf client now).check limiter.limit now).2 }) := by
  have hmade : makeRoom limiter.clients client now =
      (.ok (), (makeRoom limiter.clients client now).2) := by
    rw [← hroom]
  unfold checkAt bucketOf
  rw [h.enabled, h.2, ← lookup_makeRoom_self now, hmade]
  rfl

theorem checkAt_of_full (h : limiter.Working) {wait : Duration}
    (hroom : (makeRoom limiter.clients client now).1 = .error wait) :
    limiter.checkAt client now =
      (.error wait, { limiter with
        clients := (makeRoom limiter.clients client now).2 }) := by
  have hmade : makeRoom limiter.clients client now =
      (.error wait, (makeRoom limiter.clients client now).2) := by
    rw [← hroom]
  unfold checkAt
  rw [h.enabled, h.2, hmade]
  rfl

theorem checkAt_disabled (h : limiter.limit.perMinute = 0) :
    limiter.checkAt client now = (.ok (), limiter) := by
  have hdisabled : limiter.enabled = false := by
    unfold RateLimiter.enabled
    rw [h]
    rfl
  unfold checkAt
  rw [hdisabled]
  rfl

theorem limit_checkAt : (limiter.checkAt client now).2.limit = limiter.limit := by
  unfold checkAt
  split
  · rfl
  · split
    · rfl
    · split <;> rfl

theorem Working.checkAt (h : limiter.Working) :
    (limiter.checkAt client now).2.Working := by
  cases hroom : (makeRoom limiter.clients client now).1 with
  | ok room =>
      rw [checkAt_of_room h hroom]
      exact h
  | error wait =>
      rw [checkAt_of_full h hroom]
      exact h

/-- A call of somebody else leaves a bucket alone or evicts it. -/
theorem lookup_checkAt_of_ne (now : Instant) (h : limiter.Working)
    (hne : c ≠ client) :
    (limiter.checkAt client now).2.clients.lookup c =
      (makeRoom limiter.clients client now).2.lookup c := by
  cases hroom : (makeRoom limiter.clients client now).1 with
  | ok room =>
      rw [checkAt_of_room h hroom]
      exact AList.lookup_insert_ne hne
  | error wait => rw [checkAt_of_full h hroom]

theorem lookup_checkAt_of_room (h : limiter.Working)
    (hroom : (makeRoom limiter.clients client now).1 = .ok ()) :
    (limiter.checkAt client now).2.clients.lookup client =
      some ((limiter.bucketOf client now).check limiter.limit now).2 := by
  rw [checkAt_of_room h hroom]
  exact AList.lookup_insert _

/-- Whoever is not let in has no bucket, before or afterwards. -/
theorem lookup_checkAt_of_full (h : limiter.Working) {wait : Duration}
    (hroom : (makeRoom limiter.clients client now).1 = .error wait) :
    limiter.clients.lookup client = none ∧
      (limiter.checkAt client now).2.clients.lookup client = none := by
  have hnone : limiter.clients.lookup client = none := by
    rw [AList.lookup_eq_none]
    intro hmem
    rw [makeRoom_of_mem hmem] at hroom
    cases hroom
  constructor
  · exact hnone
  · rw [checkAt_of_full h hroom]
    exact (lookup_makeRoom_self now).trans hnone

/-- The table never grows past its bound. -/
theorem length_checkAt_le (h : limiter.clients.keys.length ≤ MAX_TRACKED) :
    (limiter.checkAt client now).2.clients.keys.length ≤ MAX_TRACKED := by
  have hmade : (makeRoom limiter.clients client now).2.keys.length ≤ MAX_TRACKED :=
    length_makeRoom_le.trans h
  unfold RateLimiter.checkAt
  split
  · exact h
  · split
    · exact h
    · split
      case h_1 wait clients hroom =>
        rw [hroom] at hmade
        exact hmade
      case h_2 clients hroom =>
        have hok : (makeRoom limiter.clients client now).1 = .ok () := by
          rw [hroom]
        have hfits := lt_of_makeRoom hok
        rw [hroom] at hmade hfits
        dsimp only at hmade hfits ⊢
        cases hfits with
        | inl hmem => rwa [length_keys_insert_of_mem hmem]
        | inr hlt =>
            by_cases hmem : client ∈ clients
            · rwa [length_keys_insert_of_mem hmem]
            · rw [length_keys_insert_of_not_mem hmem]
              exact hlt

/-! ## Runs -/

@[simp] theorem after_cons {call : Call} {calls : List Call} :
    limiter.after (call :: calls) =
      (limiter.checkAt call.client call.now).2.after calls :=
  rfl

theorem limit_after {calls : List Call} :
    (limiter.after calls).limit = limiter.limit := by
  induction calls generalizing limiter with
  | nil => rfl
  | cons call calls ih => rw [after_cons, ih, limit_checkAt]

theorem Working.after {calls : List Call} (h : limiter.Working) :
    (limiter.after calls).Working := by
  induction calls generalizing limiter with
  | nil => exact h
  | cons call calls ih => exact ih h.checkAt

theorem answered_append {calls calls' : List Call} :
    limiter.answered (calls ++ calls') =
      limiter.answered calls ++ (limiter.after calls).answered calls' := by
  induction calls generalizing limiter with
  | nil => rfl
  | cons call calls ih =>
      rw [List.cons_append, answered, answered, ih, after_cons,
        List.cons_append]

/-- What every call keeps is kept by a history. -/
theorem after_induction {P : RateLimiter → Prop}
    (hstep : ∀ limiter client now, P limiter →
      P (checkAt limiter client now).2) {calls : List Call}
    (h : P limiter) : P (limiter.after calls) := by
  induction calls generalizing limiter with
  | nil => exact h
  | cons call calls ih => exact ih (hstep _ _ _ h)

theorem length_after_le {calls : List Call}
    (h : limiter.clients.keys.length ≤ MAX_TRACKED) :
    (limiter.after calls).clients.keys.length ≤ MAX_TRACKED := by
  apply after_induction
    (P := fun limiter => limiter.clients.keys.length ≤ MAX_TRACKED)
  · intro limiter client now hlimiter
    exact length_checkAt_le hlimiter
  · exact h

end RateLimiter

end Step

end UsdtPir
