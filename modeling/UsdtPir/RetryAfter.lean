import UsdtPir.AdvertisedWait
import UsdtPir.HashMaps
import UsdtPir.QueryEndpoint

/-!
# The `Retry-After` header

The wait of the limiter is sent in whole seconds, rounded up.  That makes good
what the limiter rounded down, but for waits that are whole seconds already.
Where a token takes a whole number of nanoseconds nothing is ever rounded.
-/

namespace UsdtPir

open TokenBucket HttpResponse

section Rounding

variable {q : ℚ} {wait : Duration}

theorem Duration.le_roundHalfEven_add_half (q : ℚ) :
    q ≤ roundHalfEven q + 1 / 2 := by
  have hceil : q < ⌊q⌋₊ + 1 := Nat.lt_floor_add_one q
  unfold roundHalfEven
  dsimp only
  split
  case isTrue hless => linarith
  case isFalse hhalf =>
    split
    case isTrue hmore =>
      push_cast
      linarith
    case isFalse hnot =>
      split
      case isTrue heven => linarith
      case isFalse hodd =>
        push_cast
        linarith

theorem le_retryAfter (wait : Duration) :
    wait ≤ Duration.fromSecs (retryAfter wait) := by
  have hceil : Duration.asSecs wait ≤ ⌈Duration.asSecs wait⌉₊ := Nat.le_ceil _
  have hsecs : ⌈Duration.asSecs wait⌉₊ ≤ retryAfter wait := le_max_left _ _
  have hless : (wait : ℚ) ≤ ⌈Duration.asSecs wait⌉₊ * 1000000000 := by
    unfold Duration.asSecs at hceil ⊢
    rwa [div_le_iff₀ (by norm_num)] at hceil
  have hnat : wait ≤ ⌈Duration.asSecs wait⌉₊ * 1000000000 := by
    exact_mod_cast hless
  exact hnat.trans (Nat.mul_le_mul_right _ hsecs)

theorem retryAfter_le (wait : Duration) :
    Duration.fromSecs (retryAfter wait) ≤ wait + 1000000000 := by
  have hpositive : 0 ≤ Duration.asSecs wait := by
    unfold Duration.asSecs
    positivity
  have hceil : (⌈Duration.asSecs wait⌉₊ : ℚ) < Duration.asSecs wait + 1 :=
    Nat.ceil_lt_add_one hpositive
  have hless : (⌈Duration.asSecs wait⌉₊ * 1000000000 : ℚ) ≤
      wait + 1000000000 := by
    unfold Duration.asSecs at hceil ⊢
    rw [← sub_lt_iff_lt_add, lt_div_iff₀ (by norm_num)] at hceil
    linarith
  have hnat : ⌈Duration.asSecs wait⌉₊ * 1000000000 ≤ wait + 1000000000 := by
    exact_mod_cast hless
  unfold Duration.fromSecs retryAfter
  obtain hceil | hone := max_choice ⌈Duration.asSecs wait⌉₊ 1
  · rw [hceil]
    exact hnat
  · rw [hone, Nat.one_mul]
    exact Nat.le_add_left _ _

theorem retryAfter_of_dvd (hwhole : 1000000000 ∣ wait) (hsome : wait ≠ 0) :
    Duration.fromSecs (retryAfter wait) = wait := by
  obtain ⟨secs, rfl⟩ := hwhole
  have hexact : Duration.asSecs (1000000000 * secs) = secs := by
    unfold Duration.asSecs
    push_cast
    ring
  have hone : 1 ≤ secs := by
    apply Nat.one_le_iff_ne_zero.mpr
    intro hzero
    exact hsome (by rw [hzero, Nat.mul_zero])
  unfold retryAfter
  rw [hexact, Nat.ceil_natCast, max_eq_left hone, Duration.fromSecs]
  exact Nat.mul_comm _ _

/-- The seconds of the header cover a time that was rounded down, unless it
was rounded to whole seconds. -/
theorem le_retryAfter_iff (h : 0 ≤ q) :
    q ≤ Duration.fromSecs (retryAfter (Duration.roundHalfEven q)) ↔
      ¬ (Duration.roundHalfEven q ≠ 0 ∧
        1000000000 ∣ Duration.roundHalfEven q ∧ ¬ Duration.RoundsUp q) := by
  have hhalf := Duration.le_roundHalfEven_add_half q
  have hround := Duration.le_roundHalfEven_iff h
  generalize Duration.roundHalfEven q = wait at hhalf hround ⊢
  have hle := le_retryAfter wait
  have hwider : wait + 1 ≤ Duration.fromSecs (retryAfter wait) →
      q ≤ Duration.fromSecs (retryAfter wait) := by
    intro hmore
    have hmore' : (wait : ℚ) + 1 ≤ Duration.fromSecs (retryAfter wait) := by
      exact_mod_cast hmore
    linarith
  by_cases hzero : wait = 0
  · refine iff_of_true (hwider ?_) (fun hbad => hbad.1 hzero)
    have hone : 1 ≤ retryAfter wait := le_max_right _ _
    unfold Duration.fromSecs
    omega
  · by_cases hwhole : 1000000000 ∣ wait
    · rw [retryAfter_of_dvd hwhole hzero, hround]
      constructor
      · intro hup hbad
        exact hbad.2.2 hup
      · intro hgood
        by_contra hdown
        exact hgood ⟨hzero, hwhole, hdown⟩
    · refine iff_of_true (hwider ?_) (fun hbad => hwhole hbad.2.1)
      have hne : wait ≠ Duration.fromSecs (retryAfter wait) := by
        intro heq
        exact hwhole ⟨retryAfter wait, heq.trans (Nat.mul_comm _ _)⟩
      exact Nat.lt_of_le_of_ne hle hne

end Rounding

section Return

variable {limit : RateLimit} {before between : List Call} {c : IpAddr}
    {now later : Instant} {b : Bucket} {wait : Duration}

/-- Who was refused and is still known when it comes back is let in as soon as
the token is there. -/
theorem known_ok_iff (hrate : 1 ≤ limit.perMinute)
    (hknown : ((((RateLimiter.new limit).after before).checkAt c now).2.after
      between).clients.lookup c = some ⟨b.held limit now, now⟩)
    (hlater : now ≤ later) :
    (((((RateLimiter.new limit).after before).checkAt c now).2.after
        between).checkAt c later).1 = .ok () ↔
      b.shortfall limit now * 1000000000 ≤ ((later - now : ℕ) : ℚ) := by
  have hworking : ((RateLimiter.new limit).after before).Working :=
    (RateLimiter.working_new hrate).after
  have hlimit : ((RateLimiter.new limit).after before).limit = limit :=
    RateLimiter.limit_after
  rw [checkAt_ok_of_lookup hworking.checkAt.after hknown,
    RateLimiter.limit_after, RateLimiter.limit_checkAt, hlimit,
    ← one_le_held_iff hrate, Nat.add_sub_of_le hlater]

/-- Who was refused is still known, or was evicted by a call that came late
enough. -/
theorem known_or_evicted (hrate : 1 ≤ limit.perMinute)
    (hb : ((RateLimiter.new limit).after before).clients.lookup c = some b)
    (hwait : (((RateLimiter.new limit).after before).checkAt c now).1 =
      .error wait)
    (hothers : ∀ call ∈ between, call.client ≠ c) :
    ((((RateLimiter.new limit).after before).checkAt c now).2.after
        between).clients.lookup c = some ⟨b.held limit now, now⟩ ∨
      ((((RateLimiter.new limit).after before).checkAt c now).2.after
        between).clients.lookup c = none ∧
        ∃ call ∈ between, now + IDLE_EVICT ≤ call.now := by
  have hworking : ((RateLimiter.new limit).after before).Working :=
    (RateLimiter.working_new hrate).after
  have hlimit : ((RateLimiter.new limit).after before).limit = limit :=
    RateLimiter.limit_after
  obtain ⟨-, -, hkept⟩ := lookup_refused hworking hb hwait
  rw [hlimit] at hkept
  exact lookup_after_others hworking.checkAt hothers hkept

/-- Who was refused and comes back before anybody can evict it is let in as soon
as the token is there. -/
theorem back_ok_iff (hrate : 1 ≤ limit.perMinute)
    (hb : ((RateLimiter.new limit).after before).clients.lookup c = some b)
    (hwait : (((RateLimiter.new limit).after before).checkAt c now).1 =
      .error wait)
    (hothers : ∀ call ∈ between, call.client ≠ c)
    (hsoon : ∀ call ∈ between, call.now < now + IDLE_EVICT)
    (hlater : now ≤ later) :
    (((((RateLimiter.new limit).after before).checkAt c now).2.after
        between).checkAt c later).1 = .ok () ↔
      b.shortfall limit now * 1000000000 ≤ ((later - now : ℕ) : ℚ) := by
  obtain hknown | ⟨-, late, hlate, htime⟩ :=
    known_or_evicted hrate hb hwait hothers
  · exact known_ok_iff hrate hknown hlater
  · exact absurd (hsoon late hlate) (Nat.not_lt_of_le htime)

theorem refused_wait (hrate : 1 ≤ limit.perMinute)
    (hb : ((RateLimiter.new limit).after before).clients.lookup c = some b)
    (hwait : (((RateLimiter.new limit).after before).checkAt c now).1 =
      .error wait) :
    0 ≤ b.shortfall limit now * 1000000000 ∧
      b.shortfall limit now ≤ 60 ∧
      wait = Duration.roundHalfEven (b.shortfall limit now * 1000000000) := by
  have hworking : ((RateLimiter.new limit).after before).Working :=
    (RateLimiter.working_new hrate).after
  have hlimit : ((RateLimiter.new limit).after before).limit = limit :=
    RateLimiter.limit_after
  obtain ⟨hless, hlong, -⟩ := lookup_refused hworking hb hwait
  rw [hlimit] at hless hlong
  have hone : (1 : ℚ) ≤ limit.perMinute := by exact_mod_cast hrate
  have hheld : 0 ≤ b.held limit now :=
    level_nonneg (zero_le_one.trans limit.one_le_cap) (bounded_after c b hb).1
      (limit.gain_nonneg _)
  refine ⟨mul_nonneg (shortfall_nonneg hless) (by norm_num), ?_, hlong⟩
  unfold Bucket.shortfall
  rw [div_le_iff₀ (tokensPerSec_pos hrate)]
  unfold RateLimit.tokensPerSec
  linarith

/-- Who comes back after the seconds of the header is let in, unless the wait
was rounded down to whole seconds. -/
theorem retry_after_iff (limit : RateLimit) (before between : List Call)
    (c : IpAddr) (now : Instant) (b : Bucket) (wait : Duration)
    (hrate : 1 ≤ limit.perMinute)
    (hb : ((RateLimiter.new limit).after before).clients.lookup c = some b)
    (hwait : (((RateLimiter.new limit).after before).checkAt c now).1 =
      .error wait)
    (hothers : ∀ call ∈ between, call.client ≠ c)
    (hsoon : ∀ call ∈ between,
      call.now ≤ now + Duration.fromSecs (retryAfter wait)) :
    (((((RateLimiter.new limit).after before).checkAt c now).2.after
        between).checkAt c
          (now + Duration.fromSecs (retryAfter wait))).1 = .ok () ↔
      ¬ (wait ≠ 0 ∧ 1000000000 ∣ wait ∧
        ¬ Duration.RoundsUp (b.shortfall limit now * 1000000000)) := by
  obtain ⟨hpositive, hshort, hround⟩ := refused_wait hrate hb hwait
  have hkept : ∀ call ∈ between, call.now < now + IDLE_EVICT := by
    intro call hcall
    have hfloor : ⌊b.shortfall limit now * 1000000000⌋₊ ≤ 60000000000 := by
      apply Nat.floor_le_of_le
      push_cast
      linarith
    have hlong : wait ≤ 60000000000 + 1 := by
      rw [hround]
      exact (Duration.roundHalfEven_le _).trans (Nat.add_le_add_right hfloor 1)
    have hheader : Duration.fromSecs (retryAfter wait) < IDLE_EVICT := by
      calc
        Duration.fromSecs (retryAfter wait) ≤ wait + 1000000000 :=
          retryAfter_le wait
        _ ≤ 60000000000 + 1 + 1000000000 := Nat.add_le_add_right hlong _
        _ < IDLE_EVICT := by decide
    exact (hsoon call hcall).trans_lt (Nat.add_lt_add_left hheader now)
  rw [back_ok_iff hrate hb hwait hothers hkept (Nat.le_add_right _ _),
    Nat.add_sub_cancel_left, hround]
  exact le_retryAfter_iff hpositive

/-- Seven a minute: nine seconds cover the 8571428571.43 nanoseconds. -/
theorem retry_after_iff_seven :
    (((((RateLimiter.new ⟨7, 1⟩).after [⟨.v4 1, 0⟩]).checkAt (.v4 1) 0).2.after
        [⟨.v4 2, 5⟩]).checkAt (.v4 1)
          (0 + Duration.fromSecs (retryAfter 8571428571))).1 = .ok () :=
  (retry_after_iff ⟨7, 1⟩ [⟨.v4 1, 0⟩] [⟨.v4 2, 5⟩] (.v4 1) 0 ⟨0, 0⟩ 8571428571
    (by decide) (by decide +kernel) (by decide +kernel) (by decide)
    (by decide +kernel)).mpr (by decide)

end Return

/-! ## Whole nanoseconds for a token -/

section Grains

variable {limit : RateLimit} {limiter : RateLimiter} {c client : IpAddr}
    {now : Instant} {b : Bucket}

/-- What a bucket gains in a nanosecond. -/
def RateLimit.grain (limit : RateLimit) : ℚ :=
  limit.perMinute / 60000000000

/-- A whole number of grains. -/
def RateLimit.Grained (limit : RateLimit) (tokens : ℚ) : Prop :=
  ∃ n : ℤ, tokens = n * limit.grain

theorem grained_natCast (hrate : 1 ≤ limit.perMinute)
    (hwhole : limit.perMinute ∣ 60000000000) (n : ℕ) : limit.Grained n := by
  obtain ⟨grains, hgrains⟩ := hwhole
  have hzero : (limit.perMinute : ℚ) ≠ 0 := by
    have hone : (1 : ℚ) ≤ limit.perMinute := by exact_mod_cast hrate
    linarith
  have hcast : (60000000000 : ℚ) = limit.perMinute * grains := by
    exact_mod_cast hgrains
  have hsome : (grains : ℚ) ≠ 0 := by
    intro hnone
    rw [hnone, mul_zero] at hcast
    norm_num at hcast
  refine ⟨n * grains, ?_⟩
  unfold RateLimit.grain
  rw [hcast]
  push_cast
  field_simp

theorem grained_held (hrate : 1 ≤ limit.perMinute)
    (hwhole : limit.perMinute ∣ 60000000000) (h : limit.Grained b.tokens) :
    limit.Grained (b.held limit now) := by
  obtain ⟨n, hn⟩ := h
  unfold Bucket.held level
  obtain hgained | hfull := min_choice
    (b.tokens + limit.gain (now - b.last)) limit.cap
  · rw [hgained]
    refine ⟨n + (now - b.last : ℕ), ?_⟩
    rw [hn]
    unfold RateLimit.gain Duration.asSecs RateLimit.tokensPerSec
      RateLimit.grain
    push_cast
    ring
  · rw [hfull]
    exact grained_natCast hrate hwhole _

theorem grained_left (hrate : 1 ≤ limit.perMinute)
    (hwhole : limit.perMinute ∣ 60000000000) {tokens : ℚ}
    (h : limit.Grained tokens) : limit.Grained (left tokens) := by
  obtain ⟨n, hn⟩ := h
  obtain ⟨grains, hone⟩ := grained_natCast hrate hwhole 1
  unfold left
  split
  · refine ⟨n - grains, ?_⟩
    rw [hn]
    push_cast at hone ⊢
    linarith
  · exact ⟨n, hn⟩

/-- The buckets of the table are those that were there and the one charged. -/
theorem lookup_checkAt_some (hworking : limiter.Working)
    (h : (limiter.checkAt client now).2.clients.lookup c = some b) :
    limiter.clients.lookup c = some b ∨
      b = ((limiter.bucketOf client now).check limiter.limit now).2 := by
  cases hroom : (makeRoom limiter.clients client now).1 with
  | ok room =>
      rw [RateLimiter.checkAt_of_room hworking hroom] at h
      by_cases hself : c = client
      · subst hself
        rw [AList.lookup_insert, Option.some.injEq] at h
        exact .inr h.symm
      · rw [AList.lookup_insert_ne hself] at h
        exact .inl (lookup_makeRoom_some h)
  | error wait =>
      rw [RateLimiter.checkAt_of_full hworking hroom] at h
      exact .inl (lookup_makeRoom_some h)

theorem grained_after (hrate : 1 ≤ limit.perMinute)
    (hwhole : limit.perMinute ∣ 60000000000) {calls : List Call}
    (h : ((RateLimiter.new limit).after calls).clients.lookup c = some b) :
    limit.Grained b.tokens := by
  have hall : ((RateLimiter.new limit).after calls).Working ∧
      ((RateLimiter.new limit).after calls).limit = limit ∧
      ∀ c b, ((RateLimiter.new limit).after calls).clients.lookup c = some b →
        limit.Grained b.tokens := by
    apply RateLimiter.after_induction
      (P := fun limiter => limiter.Working ∧ limiter.limit = limit ∧
        ∀ c b, limiter.clients.lookup c = some b → limit.Grained b.tokens)
    · rintro limiter client now ⟨hworking, hlimit, hgrained⟩
      refine ⟨hworking.checkAt, RateLimiter.limit_checkAt.trans hlimit, ?_⟩
      intro c b hb
      obtain hold | hcharged := lookup_checkAt_some hworking hb
      · exact hgrained c b hold
      · rw [hcharged, Bucket.check_snd, hlimit]
        apply grained_left hrate hwhole
        apply grained_held hrate hwhole
        cases hheld : limiter.clients.lookup client with
        | none =>
            rw [RateLimiter.bucketOf_of_none hheld, hlimit]
            exact grained_natCast hrate hwhole _
        | some held =>
            rw [RateLimiter.bucketOf_of_lookup hheld]
            exact hgrained client held hheld
    · refine ⟨RateLimiter.working_new hrate, rfl, ?_⟩
      intro c b hb
      cases hb
  exact hall.2.2 c b h

/-- Where a token takes a whole number of nanoseconds, every advertised wait is
exact. -/
theorem shortfall_le_wait (hrate : 1 ≤ limit.perMinute)
    (hwhole : limit.perMinute ∣ 60000000000) {before : List Call}
    {wait : Duration}
    (hb : ((RateLimiter.new limit).after before).clients.lookup c = some b)
    (hwait : (((RateLimiter.new limit).after before).checkAt c now).1 =
      .error wait) :
    b.shortfall limit now * 1000000000 ≤ wait := by
  obtain ⟨hpositive, -, hround⟩ := refused_wait hrate hb hwait
  obtain ⟨grains, hone⟩ := grained_natCast hrate hwhole 1
  have hgrained : limit.Grained (b.held limit now) :=
    grained_held hrate hwhole (grained_after hrate hwhole hb)
  obtain ⟨n, hheld⟩ := hgrained
  have hgrain : limit.grain ≠ 0 := by
    intro hnone
    rw [hnone, mul_zero] at hone
    norm_num at hone
  have hexact : b.shortfall limit now * 1000000000 = ((grains - n : ℤ) : ℚ) := by
    have hrate' : limit.tokensPerSec = limit.grain * 1000000000 := by
      unfold RateLimit.tokensPerSec RateLimit.grain
      ring
    unfold Bucket.shortfall
    rw [hrate', hheld, ← Nat.cast_one (R := ℚ), hone]
    push_cast
    field_simp
  have hup : Duration.RoundsUp (b.shortfall limit now * 1000000000) := by
    left
    rw [hexact] at hpositive ⊢
    have hnonneg : 0 ≤ grains - n := by exact_mod_cast hpositive
    obtain ⟨m, hm⟩ := Int.eq_ofNat_of_zero_le hnonneg
    rw [hm]
    push_cast
    rw [Nat.floor_natCast]
  rw [hround]
  exact (Duration.le_roundHalfEven_iff hpositive).mpr hup

/-- Where a token takes a whole number of nanoseconds, who comes back any time
after the advertised wait is let in if there is room for it; and there is, where
the others have not called so late that it may have been evicted. -/
theorem whole_rate_wait_suffices (limit : RateLimit)
    (before between : List Call) (c : IpAddr) (now later : Instant) (b : Bucket)
    (wait : Duration) (hrate : 1 ≤ limit.perMinute)
    (hwhole : limit.perMinute ∣ 60000000000)
    (hb : ((RateLimiter.new limit).after before).clients.lookup c = some b)
    (hwait : (((RateLimiter.new limit).after before).checkAt c now).1 =
      .error wait)
    (hothers : ∀ call ∈ between, call.client ≠ c)
    (hlater : now + wait ≤ later) :
    let back := (((RateLimiter.new limit).after before).checkAt c now).2.after
      between
    ((back.checkAt c later).1 = .ok () ↔ HasRoom back.clients c later) ∧
      ((∀ call ∈ between, call.now < now + IDLE_EVICT) →
        (back.checkAt c later).1 = .ok ()) := by
  intro back
  have hstart : now ≤ later := (Nat.le_add_right now wait).trans hlater
  have henough : b.shortfall limit now * 1000000000 ≤
      ((later - now : ℕ) : ℚ) := by
    have hpassed : wait ≤ later - now := Nat.le_sub_of_add_le' hlater
    have hcast : (wait : ℚ) ≤ ((later - now : ℕ) : ℚ) := by
      exact_mod_cast hpassed
    exact (shortfall_le_wait hrate hwhole hb hwait).trans hcast
  constructor
  · obtain hknown | ⟨hgone, -⟩ := known_or_evicted hrate hb hwait hothers
    · have hmem : c ∈ back.clients := mem_of_lookup hknown
      have hok := (known_ok_iff hrate hknown hstart).mpr henough
      exact iff_of_true hok (.inl hmem)
    · have hworking : back.Working :=
        (RateLimiter.working_new hrate).after.checkAt.after
      have hlength : back.clients.keys.length ≤ MAX_TRACKED :=
        RateLimiter.length_after_le
          (RateLimiter.length_checkAt_le
            (RateLimiter.length_after_le (Nat.zero_le _)))
      rw [checkAt_ok_of_none hworking hgone, makeRoom_ok_iff hlength]
  · intro hsoon
    exact (back_ok_iff hrate hb hwait hothers hsoon hstart).mpr henough

/-- Sixty a minute, and a third of a second of it gone. -/
theorem whole_rate_wait_suffices_sixty :
    (((((RateLimiter.new ⟨60, 1⟩).after [⟨.v4 1, 0⟩]).checkAt (.v4 1)
      333333333).2.after [⟨.v4 2, 5⟩]).checkAt (.v4 1) 1000000000).1 = .ok () :=
  (whole_rate_wait_suffices ⟨60, 1⟩ [⟨.v4 1, 0⟩] [⟨.v4 2, 5⟩] (.v4 1) 333333333
    1000000000 ⟨0, 0⟩ 666666667 (by decide) (by decide) (by decide +kernel)
    (by decide +kernel) (by decide) (by decide)).2 (by decide +kernel)

end Grains

end UsdtPir
