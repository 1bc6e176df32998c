import UsdtPir.ClientAllowance

/-!
# Checks that overtake each other

A check reads the clock before it takes the lock, so the table may see times
out of order.  The bucket keeps the last time it saw, even where that is an
earlier one, and the next move forth gains the same time again.
-/

namespace UsdtPir

open TokenBucket

/-- How far the clock moves forth in all, from an instant on. -/
def ascent : Instant → List Instant → Duration
  | _, [] => 0
  | last, now :: times => (now - last) + ascent now times

def forwardMoves : List Instant → Duration
  | [] => 0
  | now :: times => ascent now times

def admitted (results : List (Except Duration Unit)) : ℕ :=
  results.countP Except.isOk

variable {limit : RateLimit} {last s t : Instant} {times : List Instant}
    {calls before : List Call} {bucket : Bucket}

/-- A clock that never goes back moves forth no further than its interval. -/
theorem ascent_le_of_sorted (hsorted : times.Pairwise (· ≤ ·))
    (hlast : ∀ now ∈ times, last ≤ now) (ht : ∀ now ∈ times, now ≤ t) :
    ascent last times ≤ t - last := by
  induction times generalizing last with
  | nil => exact Nat.zero_le _
  | cons now times ih =>
      have hstep : last ≤ now := hlast now List.mem_cons_self
      have hend : now ≤ t := ht now List.mem_cons_self
      obtain ⟨hlater, hrest⟩ := List.pairwise_cons.mp hsorted
      have hmoves : ascent now times ≤ t - now := by
        apply ih hrest hlater
        intro later hmem
        exact ht later (List.mem_cons_of_mem now hmem)
      calc
        ascent last (now :: times) ≤ (now - last) + (t - now) :=
          Nat.add_le_add_left hmoves _
        _ = t - last := by rw [Nat.add_comm, Nat.sub_add_sub_cancel hend hstep]

theorem forwardMoves_le_of_sorted (hsorted : times.Pairwise (· ≤ ·))
    (hs : ∀ now ∈ times, s ≤ now) (ht : ∀ now ∈ times, now ≤ t) :
    forwardMoves times ≤ t - s := by
  cases times with
  | nil => exact Nat.zero_le _
  | cons now times =>
      obtain ⟨hlater, hrest⟩ := List.pairwise_cons.mp hsorted
      have hstart : s ≤ now := hs now List.mem_cons_self
      have hmoves : ascent now times ≤ t - now := by
        apply ascent_le_of_sorted hrest hlater
        intro later hmem
        exact ht later (List.mem_cons_of_mem now hmem)
      exact hmoves.trans (Nat.sub_le_sub_left hstart t)

/-- What the bucket gains on its way. -/
def RateLimit.gains (limit : RateLimit) : Instant → List Instant → List ℚ
  | _, [] => []
  | last, now :: times => limit.gain (now - last) :: limit.gains now times

theorem sum_gains : (limit.gains last times).sum = limit.gain (ascent last times) := by
  induction times generalizing last with
  | nil => simp [RateLimit.gains, ascent]
  | cons now times ih =>
      rw [RateLimit.gains, List.sum_cons, ih, ascent, RateLimit.gain_add]

theorem gains_nonneg : ∀ gain ∈ limit.gains last times, 0 ≤ gain := by
  induction times generalizing last with
  | nil =>
      intro gain hgain
      cases hgain
  | cons now times ih =>
      intro gain hgain
      rw [RateLimit.gains] at hgain
      cases List.mem_cons.mp hgain with
      | inl hfirst => exact hfirst ▸ limit.gain_nonneg (now - last)
      | inr hlater => exact ih gain hlater

theorem isOk_check {now : Instant} :
    (bucket.check limit now).1.isOk = true ↔ 1 ≤ bucket.held limit now := by
  rw [← Bucket.check_eq_ok_iff]
  cases (bucket.check limit now).1 with
  | ok room => simp [Except.isOk, Except.toBool]
  | error wait => simp [Except.isOk, Except.toBool]

/-- A client's bucket serves its requests and nothing else. -/
theorem admitted_ownResults :
    admitted (ownResults limit (some bucket) calls) =
      (serve limit.cap bucket.tokens
        (limit.gains bucket.last (calls.map Call.now))).1 := by
  induction calls generalizing bucket with
  | nil => rfl
  | cons call calls ih =>
      have hrest := @ih (bucket.check limit call.now).2
      rw [Bucket.check_snd] at hrest
      unfold admitted at hrest ⊢
      rw [ownResults, Option.getD_some, List.countP_cons, Bucket.check_snd,
        hrest, List.map_cons, RateLimit.gains, serve]
      dsimp only
      rw [Nat.add_comm]
      congr 1
      unfold grants
      simp only [isOk_check]
      rfl

theorem admitted_ownResults_le (limit : RateLimit) (calls : List Call)
    (htokens : 0 ≤ bucket.tokens) :
    (admitted (ownResults limit (some bucket) calls) : ℚ) ≤
      bucket.tokens + limit.gain (ascent bucket.last (calls.map Call.now)) := by
  rw [admitted_ownResults, ← sum_gains]
  have hserved := serve_le limit.cap bucket.tokens
    (limit.gains bucket.last (calls.map Call.now))
  have hleft : 0 ≤ (serve limit.cap bucket.tokens
      (limit.gains bucket.last (calls.map Call.now))).2 :=
    serve_nonneg (zero_le_one.trans limit.one_le_cap) htokens gains_nonneg
  linarith

/-- Whatever a client has, its first check finds no more than the cap. -/
theorem admitted_ownResults_le_cap (limit : RateLimit) (calls : List Call)
    {mine : Option Bucket}
    (hmine : ∀ bucket, mine = some bucket → 0 ≤ bucket.tokens) :
    (admitted (ownResults limit mine calls) : ℚ) ≤
      limit.cap + limit.gain (forwardMoves (calls.map Call.now)) := by
  cases calls with
  | nil =>
      have hcap := limit.one_le_cap
      have hgain := limit.gain_nonneg (forwardMoves [])
      simp only [ownResults, admitted, List.countP_nil, List.map_nil,
        Nat.cast_zero]
      linarith
  | cons call calls =>
      have htokens : 0 ≤ (mine.getD ⟨limit.cap, call.now⟩).tokens := by
        cases mine with
        | none => exact zero_le_one.trans limit.one_le_cap
        | some bucket => exact hmine bucket rfl
      have hcharged : 0 ≤ ((mine.getD ⟨limit.cap, call.now⟩).check limit
          call.now).2.tokens :=
        (Bucket.check_tokens htokens).1
      have hrest := admitted_ownResults_le limit calls hcharged
      rw [Bucket.check_snd] at hrest
      have hfirst := left_add_grants
        ((mine.getD ⟨limit.cap, call.now⟩).held limit call.now)
      have hcap : (mine.getD ⟨limit.cap, call.now⟩).held limit call.now ≤
          limit.cap :=
        level_le
      have hsplit : admitted (ownResults limit mine (call :: calls)) =
          admitted (ownResults limit (some ⟨left
            ((mine.getD ⟨limit.cap, call.now⟩).held limit call.now),
              call.now⟩) calls) +
            grants ((mine.getD ⟨limit.cap, call.now⟩).held limit call.now) := by
        unfold admitted grants
        rw [ownResults, List.countP_cons, Bucket.check_snd]
        simp only [isOk_check]
      rw [hsplit, List.map_cons, forwardMoves]
      push_cast
      linarith

/-- The limit holds over every interval in which the clock has not moved forth
for longer than the interval lasts, as it has not where it never goes back. -/
theorem overtaking_checks_limited (limit : RateLimit) (c : IpAddr)
    (before calls : List Call) (s t : Instant) (hrate : 1 ≤ limit.perMinute)
    (hburst : 1 ≤ limit.burst) (hfew : FewClients (before ++ calls))
    (hs : ∀ call ∈ callsOf c calls, s ≤ call.now)
    (ht : ∀ call ∈ callsOf c calls, call.now ≤ t) :
    (((callsOf c calls).map Call.now).Pairwise (· ≤ ·) →
      forwardMoves ((callsOf c calls).map Call.now) ≤ t - s) ∧
    (forwardMoves ((callsOf c calls).map Call.now) ≤ t - s →
      (admitted (resultsOf c
        (((RateLimiter.new limit).after before).answered calls)) : ℚ) ≤
        limit.burst + Duration.asSecs (t - s) * limit.perMinute / 60) := by
  constructor
  · intro hsorted
    apply forwardMoves_le_of_sorted hsorted
    · intro now hnow
      obtain ⟨call, hcall, rfl⟩ := List.mem_map.mp hnow
      exact hs call hcall
    · intro now hnow
      obtain ⟨call, hcall, rfl⟩ := List.mem_map.mp hnow
      exact ht call hcall
  · intro hmoves
    have hcallers : ∀ call ∈ before, call.client ∈
        ((before ++ calls).map Call.client).toFinset := by
      intro call hcall
      exact List.mem_toFinset.mpr
        (List.mem_map_of_mem (List.mem_append_left calls hcall))
    have huncrowded := (uncrowded_new hrate hfew.le).after hcallers
    rw [resultsOf_answered huncrowded (by
      intro call hcall
      exact List.mem_toFinset.mpr
        (List.mem_map_of_mem (List.mem_append_right before hcall)))]
    rw [RateLimiter.limit_after]
    have hbounded : Bounded ((RateLimiter.new limit).after before) := bounded_after
    have hadmitted := admitted_ownResults_le_cap limit (callsOf c calls)
      (fun bucket hbucket => (hbounded c bucket hbucket).1)
    have hgain := limit.gain_mono hmoves
    rw [RateLimit.cap_eq hburst] at hadmitted
    rw [limit.gain_eq (t - s)] at hgain
    change (admitted (ownResults limit _ _) : ℚ) ≤ _
    linarith

theorem overtaking_checks_limited_twice_forth :
    (admitted (resultsOf (.v4 1) (((RateLimiter.new ⟨60, 1⟩).after []).answered
      [⟨.v4 1, 0⟩, ⟨.v4 1, 2000000000⟩, ⟨.v4 1, 1000000000⟩,
        ⟨.v4 1, 2000000000⟩])) : ℚ) ≤
      (1 : ℕ) + Duration.asSecs (3000000000 - 0) * (60 : ℕ) / 60 :=
  (overtaking_checks_limited ⟨60, 1⟩ (.v4 1) [] _ 0 3000000000 (by decide)
    (by decide) (by unfold FewClients; decide) (by decide) (by decide)).2
      (by decide)

/-- Three queries in a second at one a second and a burst of one. -/
theorem same_second_gained_twice :
    (∀ call ∈ callsOf (.v4 1) [⟨.v4 1, 1000000000⟩, ⟨.v4 1, 0⟩,
        ⟨.v4 1, 1000000000⟩, ⟨.v4 1, 0⟩, ⟨.v4 1, 1000000000⟩],
      0 ≤ call.now ∧ call.now ≤ 1000000000) ∧
    ¬ (admitted (resultsOf (.v4 1) (((RateLimiter.new ⟨60, 1⟩).after []).answered
      [⟨.v4 1, 1000000000⟩, ⟨.v4 1, 0⟩, ⟨.v4 1, 1000000000⟩, ⟨.v4 1, 0⟩,
        ⟨.v4 1, 1000000000⟩])) : ℚ) ≤
      (1 : ℕ) + Duration.asSecs (1000000000 - 0) * (60 : ℕ) / 60 := by
  constructor
  · decide
  · decide +kernel

end UsdtPir
