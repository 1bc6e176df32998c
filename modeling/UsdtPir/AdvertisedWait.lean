import UsdtPir.ClientAllowance

/-!
# The advertised wait

A refused client is told how long the token it lacks takes, to the nearest
nanosecond.  After a wait that was rounded down there is not quite a token.
-/

namespace UsdtPir

open TokenBucket

namespace Duration

variable {q : ℚ}

/-- A number that is whole, or goes to the next whole one. -/
def RoundsUp (q : ℚ) : Prop :=
  q = ⌊q⌋₊ ∨ 1 / 2 < q - ⌊q⌋₊ ∨ q - ⌊q⌋₊ = 1 / 2 ∧ ⌊q⌋₊ % 2 = 1

instance : DecidablePred RoundsUp := fun q =>
  inferInstanceAs (Decidable (q = ⌊q⌋₊ ∨ 1 / 2 < q - ⌊q⌋₊ ∨
    q - ⌊q⌋₊ = 1 / 2 ∧ ⌊q⌋₊ % 2 = 1))

theorem le_roundHalfEven_iff (h : 0 ≤ q) :
    q ≤ roundHalfEven q ↔ RoundsUp q := by
  have hfloor : (⌊q⌋₊ : ℚ) ≤ q := Nat.floor_le h
  have hceil : q < ⌊q⌋₊ + 1 := Nat.lt_floor_add_one q
  have hwhole : q ≤ ⌊q⌋₊ ↔ q = ⌊q⌋₊ :=
    ⟨fun hle => le_antisymm hle hfloor, fun heq => heq.le⟩
  unfold roundHalfEven RoundsUp
  dsimp only
  split
  case isTrue hless =>
    rw [hwhole]
    constructor
    · intro heq
      exact .inl heq
    · intro hup
      obtain heq | hmore | hhalf := hup
      · exact heq
      · linarith
      · linarith [hhalf.1]
  case isFalse hhalf =>
    split
    case isTrue hmore =>
      push_cast
      constructor
      · intro _
        exact .inr (.inl hmore)
      · intro _
        exact hceil.le
    case isFalse hnot =>
      have htie : q - ⌊q⌋₊ = 1 / 2 :=
        le_antisymm (le_of_not_gt hnot) (le_of_not_gt hhalf)
      split
      case isTrue heven =>
        rw [hwhole]
        constructor
        · intro heq
          exact .inl heq
        · intro hup
          obtain heq | hmore | hodd := hup
          · exact heq
          · exact absurd hmore hnot
          · omega
      case isFalse hodd =>
        push_cast
        constructor
        · intro _
          exact .inr (.inr ⟨htie, by omega⟩)
        · intro _
          exact hceil.le

theorem roundHalfEven_le (q : ℚ) : roundHalfEven q ≤ ⌊q⌋₊ + 1 := by
  unfold roundHalfEven
  dsimp only
  split
  · exact Nat.le_succ _
  · split
    · exact le_rfl
    · split
      · exact Nat.le_succ _
      · exact le_rfl

end Duration

section Wait

variable {limiter : RateLimiter} {limit : RateLimit} {c client : IpAddr}
    {b : Bucket} {now later : Instant} {calls : List Call} {wait : Duration}

/-- There is room for a client that is known, and for another one where the
table is not full or somebody in it is idle. -/
def HasRoom (clients : HashMap IpAddr Bucket) (client : IpAddr) (now : Instant) :
    Prop :=
  client ∈ clients ∨ clients.keys.length < MAX_TRACKED ∨
    ∃ k b, clients.lookup k = some b ∧ IDLE_EVICT ≤ now - b.last

theorem makeRoom_ok_iff {clients : HashMap IpAddr Bucket}
    (hlength : clients.keys.length ≤ MAX_TRACKED) :
    (makeRoom clients client now).1 = .ok () ↔ HasRoom clients client now := by
  have hentries : ∀ table : HashMap IpAddr Bucket,
      table.keys.length = table.entries.length := by
    intro table
    unfold AList.keys List.keys
    exact List.length_map _
  by_cases hroom : client ∈ clients ∨ clients.keys.length < MAX_TRACKED
  · constructor
    · intro _
      exact hroom.imp id .inl
    · intro _
      unfold makeRoom
      rw [if_pos hroom]
  · obtain ⟨hnew, hnotLess⟩ := not_or.mp hroom
    have hfull : clients.entries.length = MAX_TRACKED := by
      rw [← hentries]
      exact le_antisymm hlength (Nat.le_of_not_lt hnotLess)
    have hidle : (retain (fun b => now - b.last < IDLE_EVICT) clients).keys.length <
        MAX_TRACKED ↔
          ∃ k b, clients.lookup k = some b ∧ IDLE_EVICT ≤ now - b.last := by
      rw [hentries, ← hfull]
      refine List.length_filter_lt_length_iff_exists.trans ?_
      constructor
      · intro hdropped
        obtain ⟨⟨k, b⟩, hentry, hlong⟩ := hdropped
        exact ⟨k, b, AList.mem_lookup_iff.mpr hentry, by simpa using hlong⟩
      · intro hheld
        obtain ⟨k, b, hb, hlong⟩ := hheld
        exact ⟨⟨k, b⟩, AList.mem_lookup_iff.mp hb, by simpa using hlong⟩
    unfold makeRoom HasRoom
    rw [if_neg hroom]
    dsimp only
    split
    case isTrue hless =>
      constructor
      · intro _
        exact .inr (.inr (hidle.mp hless))
      · intro _
        rfl
    case isFalse hstill =>
      constructor
      · intro hok
        cases hok
      · intro hany
        obtain hmem | hless | hsomebody := hany
        · exact absurd hmem hnew
        · exact absurd hless hnotLess
        · exact absurd (hidle.mpr hsomebody) hstill

theorem add_le_of_idle {last : Instant} (h : IDLE_EVICT ≤ now - last) :
    last + IDLE_EVICT ≤ now := by
  have hpositive : 0 < IDLE_EVICT := by decide
  have hlast : last ≤ now := by
    by_contra hlate
    rw [Nat.sub_eq_zero_of_le (Nat.le_of_not_le hlate)] at h
    exact absurd h (Nat.not_le_of_lt hpositive)
  exact Nat.add_le_of_le_sub' hlast h

theorem lookup_checkAt_others (hworking : limiter.Working) (hne : c ≠ client)
    (hnone : limiter.clients.lookup c = none) :
    (limiter.checkAt client now).2.clients.lookup c = none := by
  rw [RateLimiter.lookup_checkAt_of_ne now hworking hne]
  cases hkept : (makeRoom limiter.clients client now).2.lookup c with
  | none => rfl
  | some b =>
      rw [lookup_makeRoom_some hkept] at hnone
      cases hnone

theorem lookup_after_none (hworking : limiter.Working)
    (hothers : ∀ call ∈ calls, call.client ≠ c)
    (hnone : limiter.clients.lookup c = none) :
    (limiter.after calls).clients.lookup c = none := by
  induction calls generalizing limiter with
  | nil => exact hnone
  | cons call calls ih =>
      have hne : c ≠ call.client := Ne.symm (hothers call List.mem_cons_self)
      apply ih hworking.checkAt
      · intro other hother
        exact hothers other (List.mem_cons_of_mem call hother)
      · exact lookup_checkAt_others hworking hne hnone

/-- The calls of others leave a bucket alone, or it is gone; and within ten
minutes it is not. -/
theorem lookup_after_others (hworking : limiter.Working)
    (hothers : ∀ call ∈ calls, call.client ≠ c)
    (hb : limiter.clients.lookup c = some b) :
    (limiter.after calls).clients.lookup c = some b ∨
      (limiter.after calls).clients.lookup c = none ∧
        ∃ call ∈ calls, b.last + IDLE_EVICT ≤ call.now := by
  induction calls generalizing limiter with
  | nil => exact .inl hb
  | cons call calls ih =>
      have hne : c ≠ call.client := Ne.symm (hothers call List.mem_cons_self)
      have hrest : ∀ other ∈ calls, other.client ≠ c := by
        intro other hother
        exact hothers other (List.mem_cons_of_mem call hother)
      have hlookup := RateLimiter.lookup_checkAt_of_ne call.now hworking hne
      cases lookup_makeRoom call.client call.now hb with
      | inl hkept =>
          cases ih hworking.checkAt hrest (hlookup.trans hkept) with
          | inl hstays => exact .inl hstays
          | inr hgone =>
              obtain ⟨hnone, late, hlate, htime⟩ := hgone
              exact .inr ⟨hnone, late, List.mem_cons_of_mem call hlate, htime⟩
      | inr hdropped =>
          obtain ⟨hgone, -, -, hidle⟩ := hdropped
          right
          rw [RateLimiter.after_cons]
          constructor
          · exact lookup_after_none hworking.checkAt hrest (hlookup.trans hgone)
          · exact ⟨call, List.mem_cons_self, add_le_of_idle hidle⟩

theorem tokensPerSec_pos (hrate : 1 ≤ limit.perMinute) : 0 < limit.tokensPerSec := by
  have hone : (1 : ℚ) ≤ limit.perMinute := by exact_mod_cast hrate
  unfold RateLimit.tokensPerSec
  linarith

theorem one_le_held_iff (hrate : 1 ≤ limit.perMinute) :
    1 ≤ (⟨b.held limit now, now⟩ : Bucket).held limit (now + wait) ↔
      b.shortfall limit now * 1000000000 ≤ wait := by
  have hpositive := tokensPerSec_pos hrate
  have hcap := limit.one_le_cap
  have hlevel : 1 ≤ (⟨b.held limit now, now⟩ : Bucket).held limit (now + wait) ↔
      1 ≤ b.held limit now + limit.gain wait := by
    unfold Bucket.held level
    rw [Nat.add_sub_cancel_left, le_min_iff]
    constructor
    · intro hboth
      exact hboth.1
    · intro hheld
      exact ⟨hheld, hcap⟩
  rw [hlevel]
  unfold Bucket.shortfall RateLimit.gain Duration.asSecs
  rw [← le_div_iff₀ (by norm_num), div_le_iff₀ hpositive, sub_le_iff_le_add']

theorem shortfall_nonneg (hrefused : b.held limit now < 1) :
    0 ≤ b.shortfall limit now := by
  unfold Bucket.shortfall
  apply div_nonneg
  · linarith
  · exact limit.tokensPerSec_nonneg

theorem lookup_refused (hworking : limiter.Working)
    (hb : limiter.clients.lookup c = some b)
    (hwait : (limiter.checkAt c now).1 = .error wait) :
    b.held limiter.limit now < 1 ∧
      wait = Duration.fromSecsRat (b.shortfall limiter.limit now) ∧
      (limiter.checkAt c now).2.clients.lookup c =
        some ⟨b.held limiter.limit now, now⟩ := by
  have hroom : (makeRoom limiter.clients c now).1 = .ok () := by
    rw [makeRoom_of_lookup hb]
  have hbucket : limiter.bucketOf c now = b := RateLimiter.bucketOf_of_lookup hb
  rw [RateLimiter.checkAt_of_room hworking hroom, hbucket] at hwait
  obtain ⟨hless, hlong⟩ := Bucket.check_error hworking.1 hwait
  refine ⟨hless, hlong, ?_⟩
  rw [RateLimiter.lookup_checkAt_of_room hworking hroom, hbucket,
    Bucket.check_snd]
  unfold left
  rw [if_neg (not_le_of_gt hless)]

theorem checkAt_ok_of_lookup (hworking : limiter.Working)
    (hb : limiter.clients.lookup c = some b) :
    (limiter.checkAt c now).1 = .ok () ↔ 1 ≤ b.held limiter.limit now := by
  rw [RateLimiter.checkAt_of_room hworking (by rw [makeRoom_of_lookup hb]),
    RateLimiter.bucketOf_of_lookup hb]
  exact Bucket.check_eq_ok_iff

theorem checkAt_ok_of_none (hworking : limiter.Working)
    (hnone : limiter.clients.lookup c = none) :
    (limiter.checkAt c now).1 = .ok () ↔
      (makeRoom limiter.clients c now).1 = .ok () := by
  have hfull : 1 ≤ (limiter.bucketOf c now).held limiter.limit now := by
    have hcap := limiter.limit.one_le_cap
    rw [RateLimiter.bucketOf_of_none hnone]
    unfold Bucket.held level
    rw [Nat.sub_self, RateLimit.gain_zero, add_zero, min_self]
    exact hcap
  cases hroom : (makeRoom limiter.clients c now).1 with
  | ok room =>
      rw [RateLimiter.checkAt_of_room hworking hroom]
      exact iff_of_true (Bucket.check_eq_ok_iff.mpr hfull) rfl
  | error wait =>
      rw [RateLimiter.checkAt_of_full hworking hroom]

/-- One token takes a minute at most. -/
theorem fromSecsRat_shortfall_lt (hrate : 1 ≤ limit.perMinute)
    (hheld : 0 ≤ b.held limit now) :
    Duration.fromSecsRat (b.shortfall limit now) < IDLE_EVICT := by
  have hpositive := tokensPerSec_pos hrate
  have hone : (1 : ℚ) ≤ limit.perMinute := by exact_mod_cast hrate
  have hshort : b.shortfall limit now ≤ 60 := by
    unfold Bucket.shortfall
    rw [div_le_iff₀ hpositive]
    unfold RateLimit.tokensPerSec
    linarith
  have hfloor : ⌊b.shortfall limit now * 1000000000⌋₊ ≤ 60000000000 := by
    apply Nat.floor_le_of_le
    push_cast
    linarith
  have hround : Duration.fromSecsRat (b.shortfall limit now) ≤
      ⌊b.shortfall limit now * 1000000000⌋₊ + 1 :=
    Duration.roundHalfEven_le _
  calc
    Duration.fromSecsRat (b.shortfall limit now) ≤ 60000000000 + 1 :=
      hround.trans (Nat.add_le_add_right hfloor 1)
    _ < IDLE_EVICT := by decide

/-- Who comes back after the advertised wait is let through if the wait was not
rounded down, or if its bucket is gone and there is room; and where the others
have not called later than that the bucket is not gone. -/
theorem advertised_wait_iff (limit : RateLimit) (before between : List Call)
    (c : IpAddr) (now : Instant) (b : Bucket) (wait : Duration)
    (hrate : 1 ≤ limit.perMinute)
    (hb : ((RateLimiter.new limit).after before).clients.lookup c = some b)
    (hwait : (((RateLimiter.new limit).after before).checkAt c now).1 =
      .error wait)
    (hothers : ∀ call ∈ between, call.client ≠ c) :
    let back := (((RateLimiter.new limit).after before).checkAt c now).2.after
      between
    ((back.checkAt c (now + wait)).1 = .ok () ↔
      (c ∈ back.clients →
        Duration.RoundsUp (b.shortfall limit now * 1000000000)) ∧
      (c ∉ back.clients → HasRoom back.clients c (now + wait))) ∧
    ((∀ call ∈ between, call.now ≤ now + wait) → c ∈ back.clients) := by
  intro back
  have hworking : ((RateLimiter.new limit).after before).Working :=
    (RateLimiter.working_new hrate).after
  have hlimit : ((RateLimiter.new limit).after before).limit = limit :=
    RateLimiter.limit_after
  have hback : back.Working := hworking.checkAt.after
  have hbackLimit : back.limit = limit := by
    rw [RateLimiter.limit_after, RateLimiter.limit_checkAt, hlimit]
  obtain ⟨hless, hlong, hkept⟩ := lookup_refused hworking hb hwait
  rw [hlimit] at hless hlong hkept
  have hbetween := lookup_after_others hworking.checkAt hothers hkept
  constructor
  · cases hbetween with
    | inl hstays =>
        have hmem : c ∈ back.clients :=
          AList.lookup_isSome.mp (by rw [hstays]; rfl)
        have hshort : 0 ≤ b.shortfall limit now * 1000000000 :=
          mul_nonneg (shortfall_nonneg hless) (by norm_num)
        have hround := Duration.le_roundHalfEven_iff hshort
        rw [checkAt_ok_of_lookup hback hstays, hbackLimit,
          one_le_held_iff hrate, hlong]
        constructor
        · intro henough
          constructor
          · intro _
            exact hround.mp henough
          · intro hgone
            exact absurd hmem hgone
        · intro hcond
          exact hround.mpr (hcond.1 hmem)
    | inr hgone =>
        have hnot : c ∉ back.clients := AList.lookup_eq_none.mp hgone.1
        have hlength : back.clients.keys.length ≤ MAX_TRACKED :=
          RateLimiter.length_after_le
            (RateLimiter.length_checkAt_le
              (RateLimiter.length_after_le (Nat.zero_le _)))
        rw [checkAt_ok_of_none hback hgone.1, makeRoom_ok_iff hlength]
        constructor
        · intro hroom
          exact ⟨fun hmem => absurd hmem hnot, fun _ => hroom⟩
        · intro hcond
          exact hcond.2 hnot
  · intro hsoon
    cases hbetween with
    | inl hstays => exact AList.lookup_isSome.mp (by rw [hstays]; rfl)
    | inr hgone =>
        obtain ⟨-, late, hlate, htime⟩ := hgone
        have htokens : 0 ≤ b.tokens := (bounded_after c b hb).1
        have hheld : 0 ≤ b.held limit now :=
          level_nonneg (zero_le_one.trans limit.one_le_cap) htokens
            (limit.gain_nonneg _)
        have hshort := fromSecsRat_shortfall_lt hrate hheld
        rw [← hlong] at hshort
        have hend := htime.trans (hsoon late hlate)
        exact absurd (Nat.le_of_add_le_add_left hend) (Nat.not_le_of_lt hshort)

/-- Sixty a minute: a whole second for a token. -/
theorem advertised_wait_iff_second :
    ((((RateLimiter.new ⟨60, 1⟩).after [⟨.v4 1, 0⟩]).checkAt (.v4 1) 0).2.after
      [⟨.v4 2, 5⟩] |>.checkAt (.v4 1) (0 + 1000000000)).1 = .ok () := by
  have hwait := advertised_wait_iff ⟨60, 1⟩ [⟨.v4 1, 0⟩] [⟨.v4 2, 5⟩] (.v4 1) 0
    ⟨0, 0⟩ 1000000000 (by decide) (by decide +kernel) (by decide +kernel)
    (by decide)
  have hmem := hwait.2 (by decide)
  apply hwait.1.mpr
  constructor
  · intro _
    decide +kernel
  · intro hgone
    exact absurd hmem hgone

/-- Seven a minute: the wait of 8571428571.43 nanoseconds is cut off. -/
theorem wait_rounded_down :
    ((RateLimiter.new ⟨7, 1⟩).after [⟨.v4 1, 0⟩]).clients.lookup (.v4 1) =
      some ⟨0, 0⟩ ∧
    (((RateLimiter.new ⟨7, 1⟩).after [⟨.v4 1, 0⟩]).checkAt (.v4 1) 0).1 =
      .error 8571428571 ∧
    ((((RateLimiter.new ⟨7, 1⟩).after [⟨.v4 1, 0⟩]).checkAt (.v4 1) 0).2.checkAt
      (.v4 1) (0 + 8571428571)).1 ≠ .ok () := by
  refine ⟨?_, ?_, ?_⟩
  · decide +kernel
  · decide +kernel
  · decide +kernel

end Wait

end UsdtPir
