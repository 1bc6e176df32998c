import UsdtPir.OvertakingChecks

/-!
# The rate over an interval

What a client can still spend is what its bucket holds, or a full one if it
has none.  A check it passes takes one token of it and time adds the rate.  The
only other credit is that of a bucket thrown away before it was full.
-/

namespace UsdtPir

open TokenBucket

/-- The checks of a client in an interval that were let through. -/
def admittedWithin (c : IpAddr) (s t : Instant)
    (answered : List (Call × Except Duration Unit)) : ℕ :=
  admitted (resultsOf c
    (answered.filter fun entry => s ≤ entry.1.now ∧ entry.1.now ≤ t))

/-- Times that do not go back. -/
def InOrder (calls : List Call) : Prop :=
  (calls.map Call.now).Pairwise (· ≤ ·)

theorem InOrder.tail {call : Call} {calls : List Call}
    (h : InOrder (call :: calls)) : InOrder calls :=
  (List.pairwise_cons.mp h).2

theorem InOrder.head_le {call later : Call} {calls : List Call}
    (h : InOrder (call :: calls)) (hmem : later ∈ call :: calls) :
    call.now ≤ later.now := by
  cases List.mem_cons.mp hmem with
  | inl hself => exact hself ▸ le_rfl
  | inr hmem =>
      exact (List.pairwise_cons.mp h).1 later.now (List.mem_map_of_mem hmem)

/-- Whenever a bucket of the client is thrown away it would be full by then. -/
def ForgetsFull (c : IpAddr) : RateLimiter → List Call → Prop
  | _, [] => True
  | limiter, call :: calls =>
      (∀ b, limiter.clients.lookup c = some b → call.client ∉ limiter.clients →
        Evicted limiter.clients call.now b →
        b.held limiter.limit call.now = limiter.limit.cap) ∧
      ForgetsFull c (limiter.checkAt call.client call.now).2 calls

namespace RateLimiter

/-- What a client can spend at an instant. -/
def worth (limiter : RateLimiter) (c : IpAddr) (u : Instant) : ℚ :=
  (limiter.bucketOf c u).held limiter.limit u

/-- No bucket was used later than this. -/
def Until (limiter : RateLimiter) (clock : Instant) : Prop :=
  ∀ c b, limiter.clients.lookup c = some b → b.last ≤ clock

end RateLimiter

section Worth

variable {limiter : RateLimiter} {c client : IpAddr} {b : Bucket}
    {limit : RateLimit} {now u u' clock s t : Instant} {calls : List Call}

namespace Bucket

theorem held_self (htokens : b.tokens ≤ limit.cap) :
    b.held limit b.last = b.tokens := by
  unfold held level
  rw [Nat.sub_self, RateLimit.gain_zero, add_zero, min_eq_left htokens]

theorem held_add_le (hlast : b.last ≤ u) (hu : u ≤ u') :
    b.held limit u' ≤ b.held limit u + limit.gain (u' - u) := by
  have hsplit : u' - b.last = (u - b.last) + (u' - u) := by
    rw [Nat.add_comm, Nat.sub_add_sub_cancel hu hlast]
  unfold held
  rw [hsplit, RateLimit.gain_add]
  exact level_add_le (limit.gain_nonneg _)

theorem grants_add_held (b : Bucket) (limit : RateLimit) (now : Instant) :
    (grants (b.held limit now) : ℚ) + (b.check limit now).2.held limit now =
      b.held limit now := by
  have hcap : left (b.held limit now) ≤ limit.cap :=
    (left_le _).trans level_le
  have hafter := held_self (b := ⟨left (b.held limit now), now⟩) hcap
  rw [check_snd, hafter, add_comm]
  exact left_add_grants _

end Bucket

namespace RateLimiter

theorem worth_of_lookup (h : limiter.clients.lookup c = some b) :
    limiter.worth c u = b.held limiter.limit u := by
  unfold worth
  rw [bucketOf_of_lookup h]

theorem worth_of_none (h : limiter.clients.lookup c = none) :
    limiter.worth c u = limiter.limit.cap := by
  unfold worth
  rw [bucketOf_of_none h]
  exact Bucket.held_self le_rfl

theorem worth_le_cap (limiter : RateLimiter) (c : IpAddr) (u : Instant) :
    limiter.worth c u ≤ limiter.limit.cap :=
  level_le

theorem worth_nonneg (h : Bounded limiter) : 0 ≤ limiter.worth c u := by
  have htokens : 0 ≤ (limiter.bucketOf c u).tokens := by
    cases hb : limiter.clients.lookup c with
    | none =>
        rw [bucketOf_of_none hb]
        exact zero_le_one.trans limiter.limit.one_le_cap
    | some b =>
        rw [bucketOf_of_lookup hb]
        exact (h c b hb).1
  exact level_nonneg (zero_le_one.trans limiter.limit.one_le_cap) htokens
    (limiter.limit.gain_nonneg _)

theorem Until.mono (h : limiter.Until clock) (hclock : clock ≤ now) :
    limiter.Until now :=
  fun c b hb => (h c b hb).trans hclock

theorem worth_add_le (h : limiter.Until u) (hu : u ≤ u') :
    limiter.worth c u' ≤ limiter.worth c u + limiter.limit.gain (u' - u) := by
  cases hb : limiter.clients.lookup c with
  | none =>
      rw [worth_of_none hb, worth_of_none hb]
      exact le_add_of_nonneg_right (limiter.limit.gain_nonneg _)
  | some b =>
      rw [worth_of_lookup hb, worth_of_lookup hb]
      exact Bucket.held_add_le (h c b hb) hu

theorem Until.checkAt (h : limiter.Until now) (client : IpAddr)
    (hworking : limiter.Working) :
    (limiter.checkAt client now).2.Until now := by
  intro c b hb
  by_cases hself : c = client
  · subst hself
    cases hroom : (makeRoom limiter.clients c now).1 with
    | ok room =>
        rw [lookup_checkAt_of_room hworking hroom, Option.some.injEq] at hb
        subst hb
        rw [Bucket.check_snd]
    | error wait =>
        rw [(lookup_checkAt_of_full hworking hroom).2] at hb
        cases hb
  · rw [lookup_checkAt_of_ne now hworking hself] at hb
    exact h c b (lookup_makeRoom_some hb)

/-- A check takes what it lets through, and nobody else takes anything. -/
theorem admitted_add_worth (hworking : limiter.Working)
    (hforget : ∀ b, limiter.clients.lookup c = some b →
      client ∉ limiter.clients → Evicted limiter.clients now b →
      b.held limiter.limit now = limiter.limit.cap) :
    (admitted (resultsOf c
      [(⟨client, now⟩, (limiter.checkAt client now).1)]) : ℚ) +
        (limiter.checkAt client now).2.worth c now ≤ limiter.worth c now := by
  by_cases hself : client = c
  · subst hself
    cases hroom : (makeRoom limiter.clients client now).1 with
    | ok room =>
        have hafter := lookup_checkAt_of_room hworking hroom
        have hspent := (limiter.bucketOf client now).grants_add_held
          limiter.limit now
        have hgranted : admitted (resultsOf client
            [(⟨client, now⟩, (limiter.checkAt client now).1)]) =
              grants ((limiter.bucketOf client now).held limiter.limit now) := by
          unfold admitted grants
          rw [resultsOf_cons, if_pos rfl, List.countP_cons,
            checkAt_of_room hworking hroom]
          simp only [isOk_check, resultsOf, List.filterMap_nil, List.countP_nil,
            Nat.zero_add]
        rw [hgranted, worth_of_lookup hafter, limit_checkAt, hspent]
        rfl
    | error wait =>
        obtain ⟨hbefore, hafter⟩ := lookup_checkAt_of_full hworking hroom
        have hrefused : admitted (resultsOf client
            [(⟨client, now⟩, (limiter.checkAt client now).1)]) = 0 := by
          rw [resultsOf_cons, if_pos rfl, checkAt_of_full hworking hroom]
          rfl
        rw [hrefused, worth_of_none hafter, worth_of_none hbefore, limit_checkAt,
          Nat.cast_zero, zero_add]
  · have hothers : admitted (resultsOf c
        [(⟨client, now⟩, (limiter.checkAt client now).1)]) = 0 := by
      rw [resultsOf_cons, if_neg hself]
      rfl
    have hlookup := lookup_checkAt_of_ne now hworking (Ne.symm hself)
    rw [hothers, Nat.cast_zero, zero_add]
    cases hb : limiter.clients.lookup c with
    | none =>
        rw [worth_of_none hb]
        have hcap := worth_le_cap (limiter.checkAt client now).2 c now
        rwa [limit_checkAt] at hcap
    | some b =>
        cases lookup_makeRoom client now hb with
        | inl hkept =>
            rw [worth_of_lookup (hlookup.trans hkept), worth_of_lookup hb,
              limit_checkAt]
        | inr hdropped =>
            obtain ⟨hnone, hnew, hevicted⟩ := hdropped
            rw [worth_of_none (hlookup.trans hnone), worth_of_lookup hb,
              limit_checkAt, hforget b hb hnew hevicted]

end RateLimiter

/-! ## Runs -/

theorem admitted_resultsOf_cons {entry : Call × Except Duration Unit}
    {rest : List (Call × Except Duration Unit)} :
    admitted (resultsOf c (entry :: rest)) =
      admitted (resultsOf c [entry]) + admitted (resultsOf c rest) := by
  unfold admitted
  rw [resultsOf_cons, resultsOf_cons]
  split
  · rw [List.countP_cons, List.countP_cons, Nat.add_comm]
    simp [resultsOf]
  · simp [resultsOf]

theorem now_of_mem_answered {entry : Call × Except Duration Unit}
    (h : entry ∈ limiter.answered calls) : entry.1 ∈ calls := by
  induction calls generalizing limiter with
  | nil => cases h
  | cons call calls ih =>
      rw [RateLimiter.answered] at h
      cases List.mem_cons.mp h with
      | inl hfirst => exact hfirst ▸ List.mem_cons_self
      | inr hlater => exact List.mem_cons_of_mem call (ih hlater)

theorem admittedWithin_late (h : ∀ call ∈ calls, t < call.now) :
    admittedWithin c s t (limiter.answered calls) = 0 := by
  unfold admittedWithin
  rw [List.filter_eq_nil_iff.mpr]
  · rfl
  · intro entry hentry hwithin
    have hlate := h entry.1 (now_of_mem_answered hentry)
    simp only [Bool.decide_and, Bool.and_eq_true, decide_eq_true_eq] at hwithin
    exact absurd hlate (Nat.not_lt_of_le hwithin.2)

/-- From an instant of the interval on, a client passes as many checks as it
can spend tokens. -/
theorem admittedWithin_le_worth (hworking : limiter.Working)
    (hbounded : Bounded limiter) (huntil : limiter.Until u) (hs : s ≤ u)
    (hu : ∀ call ∈ calls, u ≤ call.now) (horder : InOrder calls)
    (hforget : ForgetsFull c limiter calls) :
    (admittedWithin c s t (limiter.answered calls) : ℚ) ≤
      limiter.worth c u + limiter.limit.gain (t - u) := by
  have hnonneg : 0 ≤ limiter.worth c u + limiter.limit.gain (t - u) :=
    add_nonneg (RateLimiter.worth_nonneg hbounded) (limiter.limit.gain_nonneg _)
  induction calls generalizing limiter u with
  | nil => exact hnonneg
  | cons call calls ih =>
      have hnext : ∀ later ∈ calls, call.now ≤ later.now := by
        intro later hmem
        exact horder.head_le (List.mem_cons_of_mem call hmem)
      have hfirst : u ≤ call.now := hu call List.mem_cons_self
      by_cases hend : call.now ≤ t
      · have hafter := ih hworking.checkAt (hbounded.checkAt _ _)
          ((huntil.mono hfirst).checkAt call.client hworking)
          (hs.trans hfirst) hnext horder.tail hforget.2
          (add_nonneg (RateLimiter.worth_nonneg (hbounded.checkAt _ _))
            (RateLimit.gain_nonneg _ _))
        have hstep := RateLimiter.admitted_add_worth (c := c) hworking hforget.1
        have htime := RateLimiter.worth_add_le (c := c) huntil hfirst
        have hgain : limiter.limit.gain (t - u) =
            limiter.limit.gain (call.now - u) +
              limiter.limit.gain (t - call.now) := by
          rw [← RateLimit.gain_add, Nat.add_comm,
            Nat.sub_add_sub_cancel hend hfirst]
        have hcount : admittedWithin c s t (limiter.answered (call :: calls)) =
            admitted (resultsOf c
              [(call, (limiter.checkAt call.client call.now).1)]) +
            admittedWithin c s t
              ((limiter.checkAt call.client call.now).2.answered calls) := by
          unfold admittedWithin
          rw [RateLimiter.answered, List.filter_cons_of_pos
            (by simpa using ⟨hs.trans hfirst, hend⟩)]
          exact admitted_resultsOf_cons
        rw [RateLimiter.limit_checkAt] at hafter
        rw [hcount, hgain]
        push_cast
        linarith
      · have hlate : admittedWithin c s t (limiter.answered (call :: calls)) = 0 := by
          apply admittedWithin_late
          intro later hmem
          exact (Nat.lt_of_not_le hend).trans_le (horder.head_le hmem)
        rw [hlate]
        exact hnonneg

/-- Before the interval there is nothing to count, and at its start there is
never more to spend than a full bucket. -/
theorem admittedWithin_le (hworking : limiter.Working)
    (hbounded : Bounded limiter) (huntil : limiter.Until clock)
    (hclock : ∀ call ∈ calls, clock ≤ call.now) (horder : InOrder calls)
    (hforget : ForgetsFull c limiter calls) :
    (admittedWithin c s t (limiter.answered calls) : ℚ) ≤
      limiter.limit.cap + limiter.limit.gain (t - s) := by
  induction calls generalizing limiter clock with
  | nil =>
      exact add_nonneg (zero_le_one.trans limiter.limit.one_le_cap)
        (limiter.limit.gain_nonneg _)
  | cons call calls ih =>
      have hfirst : clock ≤ call.now := hclock call List.mem_cons_self
      by_cases hstart : s ≤ call.now
      · have hspent := admittedWithin_le_worth (t := t) hworking hbounded
          (huntil.mono hfirst) hstart (fun later hmem => horder.head_le hmem)
          horder hforget
        have hcap := RateLimiter.worth_le_cap limiter c call.now
        have hgain := limiter.limit.gain_mono (Nat.sub_le_sub_left hstart t)
        linarith
      · have hafter := ih hworking.checkAt (hbounded.checkAt _ _)
          ((huntil.mono hfirst).checkAt call.client hworking)
          (fun later hmem => horder.head_le (List.mem_cons_of_mem call hmem))
          horder.tail hforget.2
        have hcount : admittedWithin c s t (limiter.answered (call :: calls)) =
            admittedWithin c s t
              ((limiter.checkAt call.client call.now).2.answered calls) := by
          unfold admittedWithin
          rw [RateLimiter.answered,
            List.filter_cons_of_neg (by simp [hstart])]
        rw [RateLimiter.limit_checkAt] at hafter
        rw [hcount]
        exact hafter

/-- Ten minutes fill any bucket of ten minutes' queries. -/
theorem forgetsFull_of_burst (hbounded : Bounded limiter)
    (hburst : limiter.limit.cap ≤ 10 * limiter.limit.perMinute) :
    ForgetsFull c limiter calls := by
  induction calls generalizing limiter with
  | nil => trivial
  | cons call calls ih =>
      constructor
      · intro b hb hnew hevicted
        have htokens : 0 ≤ b.tokens := (hbounded c b hb).1
        have hidle : limiter.limit.gain IDLE_EVICT =
            10 * limiter.limit.perMinute := by
          unfold RateLimit.gain RateLimit.tokensPerSec Duration.asSecs IDLE_EVICT
            Duration.fromSecs
          push_cast
          ring
        have hgain := limiter.limit.gain_mono hevicted.2
        unfold Bucket.held level
        apply min_eq_right
        linarith
      · apply ih (hbounded.checkAt _ _)
        rw [RateLimiter.limit_checkAt]
        exact hburst

end Worth

/-! ## A bucket that is thrown away too early -/

section Crowd

variable {limiter : RateLimiter} {limit : RateLimit} {c x : IpAddr}
    {calls : List Call} {clients : Finset IpAddr} {b : Bucket} {now : Instant}
    {n : ℕ}

/-- A full bucket at once, one token after the other. -/
theorem admitted_ownResults_replicate (hn : n ≤ b.tokens)
    (hcap : b.tokens ≤ limit.cap) (hlast : b.last = now) :
    admitted (ownResults limit (some b) (List.replicate n ⟨c, now⟩)) = n := by
  induction n generalizing b with
  | zero => rfl
  | succ n ih =>
      push_cast at hn
      have hheld : b.held limit now = b.tokens :=
        hlast ▸ Bucket.held_self hcap
      have hone : 1 ≤ b.tokens := by
        have hpos : (0 : ℚ) ≤ n := n.cast_nonneg
        linarith
      have hleft : left b.tokens = b.tokens - 1 := if_pos hone
      have hrest := ih (b := (b.check limit now).2)
        (by rw [Bucket.check_snd, hheld, hleft]; linarith)
        (by rw [Bucket.check_snd, hheld, hleft]; linarith)
        (by rw [Bucket.check_snd])
      unfold admitted at hrest ⊢
      rw [List.replicate_succ, ownResults, Option.getD_some, List.countP_cons,
        hrest, if_pos (isOk_check.mpr (by rw [hheld]; exact hone))]

theorem admitted_ownResults_burst (c : IpAddr) (now : Instant)
    (hn : n ≤ limit.burst) :
    admitted (ownResults limit none (List.replicate n ⟨c, now⟩)) = n := by
  cases n with
  | zero => rfl
  | succ n =>
      have hcap : ((n + 1 : ℕ) : ℚ) ≤ limit.cap := by
        unfold RateLimit.cap
        exact_mod_cast hn.trans (le_max_left _ _)
      exact admitted_ownResults_replicate
        (b := ⟨limit.cap, now⟩) hcap le_rfl rfl

/-- Who has called is in the table as long as there is room for everybody. -/
theorem Uncrowded.mem_after (h : Uncrowded limiter clients)
    (hcalls : ∀ call ∈ calls, call.client ∈ clients)
    (hc : c ∈ limiter.clients ∨ c ∈ calls.map Call.client) :
    c ∈ (limiter.after calls).clients := by
  induction calls generalizing limiter with
  | nil =>
      cases hc with
      | inl hheld => exact hheld
      | inr hcalled => cases hcalled
  | cons call calls ih =>
      obtain ⟨hafter, hcheck⟩ := h.checkAt (hcalls call List.mem_cons_self) call.now
      apply ih hafter
      · intro other hother
        exact hcalls other (List.mem_cons_of_mem call hother)
      · rw [hcheck, AList.mem_insert]
        cases hc with
        | inl hheld => exact .inl (.inr hheld)
        | inr hcalled =>
            rw [List.map_cons] at hcalled
            cases List.mem_cons.mp hcalled with
            | inl hself => exact .inl (.inl hself)
            | inr hlater => exact .inr hlater

theorem makeRoom_idle {table : HashMap IpAddr Bucket}
    (hfull : MAX_TRACKED ≤ table.keys.length) (hnew : x ∉ table)
    (hidle : ∀ k b, table.lookup k = some b → IDLE_EVICT ≤ now - b.last) :
    makeRoom table x now = (.ok (), ∅) := by
  have hnone : retain (fun b => now - b.last < IDLE_EVICT) table = ∅ := by
    apply AList.ext
    apply List.filter_eq_nil_iff.mpr
    intro entry hentry
    have hheld : table.lookup entry.1 = some entry.2 :=
      AList.mem_lookup_iff.mpr hentry
    simpa using hidle entry.1 entry.2 hheld
  unfold makeRoom
  rw [if_neg (not_or.mpr ⟨hnew, Nat.not_lt_of_le hfull⟩), hnone]
  rfl

theorem RateLimiter.Until.after (h : limiter.Until now)
    (hworking : limiter.Working) (hcalls : ∀ call ∈ calls, call.now = now) :
    (limiter.after calls).Until now := by
  induction calls generalizing limiter with
  | nil => exact h
  | cons call calls ih =>
      have hnow : call.now = now := hcalls call List.mem_cons_self
      apply ih
      · exact hnow ▸ (hnow.symm ▸ h).checkAt call.client hworking
      · exact hworking.checkAt
      · intro later hlater
        exact hcalls later (List.mem_cons_of_mem call hlater)

/-- A client spends its burst and others fill the table. -/
def filling (limit : RateLimit) (c : IpAddr) (crowd : List IpAddr) : List Call :=
  List.replicate limit.burst ⟨c, 0⟩ ++ crowd.map fun k => ⟨k, 0⟩

/-- Ten minutes later somebody new empties it, and the client is back. -/
def relapse (limit : RateLimit) (c : IpAddr) (crowd : List IpAddr) (x : IpAddr) :
    List Call :=
  filling limit c crowd ++
    ⟨x, IDLE_EVICT⟩ :: List.replicate limit.burst ⟨c, IDLE_EVICT⟩

variable {crowd : List IpAddr} {call : Call}

theorem now_of_mem_filling (h : call ∈ filling limit c crowd) : call.now = 0 := by
  cases List.mem_append.mp h with
  | inl hburst => rw [List.eq_of_mem_replicate hburst]
  | inr hcrowd =>
      obtain ⟨k, -, rfl⟩ := List.mem_map.mp hcrowd
      rfl

theorem client_of_mem_filling (h : call ∈ filling limit c crowd) :
    call.client ∈ c :: crowd := by
  cases List.mem_append.mp h with
  | inl hburst =>
      rw [List.eq_of_mem_replicate hburst]
      exact List.mem_cons_self
  | inr hcrowd =>
      obtain ⟨k, hk, rfl⟩ := List.mem_map.mp hcrowd
      exact List.mem_cons_of_mem c hk

theorem mem_clients_filling (hburst : 1 ≤ limit.burst) (hx : x ∈ c :: crowd) :
    x ∈ (filling limit c crowd).map Call.client := by
  unfold filling
  rw [List.map_append, List.mem_append]
  cases List.mem_cons.mp hx with
  | inl hself =>
      left
      rw [List.map_replicate, hself]
      exact List.mem_replicate.mpr ⟨Nat.ne_of_gt hburst, rfl⟩
  | inr hmem =>
      right
      rw [List.map_map]
      exact List.mem_map.mpr ⟨x, hmem, rfl⟩

theorem callsOf_filling (hc : c ∉ crowd) :
    callsOf c (filling limit c crowd) = List.replicate limit.burst ⟨c, 0⟩ := by
  unfold callsOf filling
  rw [List.filter_append, List.filter_eq_self.mpr, List.filter_eq_nil_iff.mpr,
    List.append_nil]
  · intro call hcall
    obtain ⟨k, hk, rfl⟩ := List.mem_map.mp hcall
    have hne : k ≠ c := fun hself => hc (hself ▸ hk)
    simpa using hne
  · intro call hcall
    rw [List.eq_of_mem_replicate hcall]
    simp

theorem now_of_mem_relapse (h : call ∈ relapse limit c crowd x) :
    call.now ≤ IDLE_EVICT := by
  cases List.mem_append.mp h with
  | inl hfilling =>
      rw [now_of_mem_filling hfilling]
      exact Nat.zero_le _
  | inr hback =>
      cases List.mem_cons.mp hback with
      | inl hx => rw [hx]
      | inr hmem => rw [List.eq_of_mem_replicate hmem]

theorem inOrder_relapse : InOrder (relapse limit c crowd x) := by
  have hfilling : (filling limit c crowd).map Call.now =
      List.replicate (filling limit c crowd).length 0 := by
    apply List.eq_replicate_iff.mpr
    constructor
    · exact List.length_map _
    · intro now hnow
      obtain ⟨call, hcall, rfl⟩ := List.mem_map.mp hnow
      exact now_of_mem_filling hcall
  unfold InOrder relapse
  rw [List.map_append, hfilling, List.map_cons, List.map_replicate,
    ← List.replicate_succ, List.pairwise_append]
  refine ⟨?_, ?_, ?_⟩
  · exact List.pairwise_replicate.mpr (.inr le_rfl)
  · exact List.pairwise_replicate.mpr (.inr le_rfl)
  · intro now hnow later hlater
    rw [List.eq_of_mem_replicate hnow]
    exact Nat.zero_le _

theorem uncrowded_filling (hrate : 1 ≤ limit.perMinute)
    (hcrowd : (c :: crowd).length = MAX_TRACKED) :
    Uncrowded (.new limit) (c :: crowd).toFinset where
  working := RateLimiter.working_new hrate
  few := hcrowd ▸ List.toFinset_card_le _
  known := by
    intro k hk
    cases List.mem_toFinset.mp hk

/-- Everybody is in the table and nobody has been since. -/
theorem makeRoom_filling (hrate : 1 ≤ limit.perMinute) (hburst : 1 ≤ limit.burst)
    (hdistinct : (c :: crowd).Nodup) (hcrowd : (c :: crowd).length = MAX_TRACKED)
    (hx : x ∉ c :: crowd) :
    makeRoom ((RateLimiter.new limit).after (filling limit c crowd)).clients x
      IDLE_EVICT = (.ok (), ∅) := by
  have hfresh := uncrowded_filling hrate hcrowd
  have hcalls : ∀ call ∈ filling limit c crowd,
      call.client ∈ (c :: crowd).toFinset :=
    fun call hcall => List.mem_toFinset.mpr (client_of_mem_filling hcall)
  have huncrowded := hfresh.after hcalls
  apply makeRoom_idle
  · rw [← hcrowd, ← List.toFinset_card_of_nodup hdistinct,
      ← List.toFinset_card_of_nodup (AList.keys_nodup _)]
    apply Finset.card_le_card
    intro k hk
    rw [List.mem_toFinset, ← AList.mem_keys]
    apply hfresh.mem_after hcalls
    exact .inr (mem_clients_filling hburst (List.mem_toFinset.mp hk))
  · intro hmem
    have hknown := huncrowded.known
      (List.mem_toFinset.mpr (AList.mem_keys.mp hmem))
    exact hx (List.mem_toFinset.mp hknown)
  · intro k b hb
    have huntil : ((RateLimiter.new limit).after (filling limit c crowd)).Until 0 := by
      apply RateLimiter.Until.after _ (RateLimiter.working_new hrate)
      · intro call hcall
        exact now_of_mem_filling hcall
      · intro k b hb
        cases hb
    have hlast : b.last = 0 := Nat.le_zero.mp (huntil k b hb)
    rw [hlast]
    exact le_rfl

theorem resultsOf_append {answered answered' : List (Call × Except Duration Unit)} :
    resultsOf c (answered ++ answered') =
      resultsOf c answered ++ resultsOf c answered' :=
  List.filterMap_append

/-- Nobody is left but whoever emptied the table. -/
theorem checkAt_filling (hrate : 1 ≤ limit.perMinute) (hburst : 1 ≤ limit.burst)
    (hdistinct : (c :: crowd).Nodup) (hcrowd : (c :: crowd).length = MAX_TRACKED)
    (hx : x ∉ c :: crowd) :
    Uncrowded ((((RateLimiter.new limit).after (filling limit c crowd)).checkAt x
      IDLE_EVICT).2) {x, c} ∧
    (((RateLimiter.new limit).after (filling limit c crowd)).checkAt x
      IDLE_EVICT).2.clients.lookup c = none := by
  have hroom := makeRoom_filling hrate hburst hdistinct hcrowd hx
  have hworking : ((RateLimiter.new limit).after (filling limit c crowd)).Working :=
    (RateLimiter.working_new hrate).after
  have hne : c ≠ x := fun hself => hx (hself ▸ List.mem_cons_self)
  have hcheck := RateLimiter.checkAt_of_room hworking (by rw [hroom])
  rw [hroom] at hcheck
  constructor
  · refine ⟨hworking.checkAt, Finset.card_le_two.trans (by decide), ?_⟩
    intro k hk
    rw [hcheck, List.mem_toFinset, ← AList.mem_keys, AList.mem_insert] at hk
    cases hk with
    | inl hself => exact hself ▸ Finset.mem_insert_self x {c}
    | inr hheld => exact absurd hheld (AList.notMem_empty k)
  · rw [hcheck, AList.lookup_insert_ne hne]
    rfl

/-- The client passes twice its burst. -/
theorem admittedWithin_relapse (hrate : 1 ≤ limit.perMinute)
    (hburst : 1 ≤ limit.burst) (hdistinct : (c :: crowd).Nodup)
    (hcrowd : (c :: crowd).length = MAX_TRACKED) (hx : x ∉ c :: crowd) :
    admittedWithin c 0 IDLE_EVICT
      ((RateLimiter.new limit).answered (relapse limit c crowd x)) =
      limit.burst + limit.burst := by
  have hne : x ≠ c := fun hself => hx (hself ▸ List.mem_cons_self)
  have hall : admittedWithin c 0 IDLE_EVICT
      ((RateLimiter.new limit).answered (relapse limit c crowd x)) =
        admitted (resultsOf c
          ((RateLimiter.new limit).answered (relapse limit c crowd x))) := by
    unfold admittedWithin
    rw [List.filter_eq_self.mpr]
    intro entry hentry
    simpa using now_of_mem_relapse (now_of_mem_answered hentry)
  have hfirst : resultsOf c
      ((RateLimiter.new limit).answered (filling limit c crowd)) =
        ownResults limit none (List.replicate limit.burst ⟨c, 0⟩) := by
    rw [resultsOf_answered (uncrowded_filling hrate hcrowd),
      callsOf_filling (List.nodup_cons.mp hdistinct).1]
    · rfl
    · intro call hcall
      exact List.mem_toFinset.mpr (client_of_mem_filling hcall)
  obtain ⟨hleft, hforgotten⟩ := checkAt_filling hrate hburst hdistinct hcrowd hx
  have hsecond : resultsOf c
      ((((RateLimiter.new limit).after (filling limit c crowd)).checkAt x
        IDLE_EVICT).2.answered
          (List.replicate limit.burst ⟨c, IDLE_EVICT⟩)) =
        ownResults limit none
          (List.replicate limit.burst ⟨c, IDLE_EVICT⟩) := by
    have hown : callsOf c (List.replicate limit.burst ⟨c, IDLE_EVICT⟩) =
        List.replicate limit.burst ⟨c, IDLE_EVICT⟩ := by
      apply List.filter_eq_self.mpr
      intro call hcall
      rw [List.eq_of_mem_replicate hcall]
      simp
    rw [resultsOf_answered hleft, hown, hforgotten, RateLimiter.limit_checkAt,
      RateLimiter.limit_after]
    · rfl
    · intro call hcall
      rw [List.eq_of_mem_replicate hcall]
      exact Finset.mem_insert_of_mem (Finset.mem_singleton_self c)
  have hfirstCount := admitted_ownResults_burst c 0 (le_refl limit.burst)
  have hsecondCount := admitted_ownResults_burst c IDLE_EVICT
    (le_refl limit.burst)
  rw [hall]
  unfold relapse
  rw [RateLimiter.answered_append, resultsOf_append, RateLimiter.answered,
    resultsOf_cons, if_neg hne, hfirst, hsecond]
  unfold admitted at hfirstCount hsecondCount ⊢
  rw [List.countP_append, hfirstCount, hsecondCount]

end Crowd

/-- As many others as leave room for one. -/
def everybodyElse : List IpAddr :=
  (List.range (MAX_TRACKED - 1)).map fun i => .v4 (BitVec.ofNat 32 (i + 1))

theorem nodup_everybodyElse :
    ((.v4 0 : IpAddr) :: everybodyElse).Nodup := by
  rw [List.nodup_cons]
  constructor
  · intro hmem
    obtain ⟨i, hi, heq⟩ := List.mem_map.mp hmem
    have hlt : i < 99999 := List.mem_range.mp hi
    have hvalue := congrArg BitVec.toNat (IpAddr.v4.inj heq)
    rw [BitVec.toNat_ofNat, Nat.mod_eq_of_lt (by omega)] at hvalue
    cases hvalue
  · apply List.Nodup.map_on _ List.nodup_range
    intro i hi j hj heq
    have hi' : i < 99999 := List.mem_range.mp hi
    have hj' : j < 99999 := List.mem_range.mp hj
    have hvalue := congrArg BitVec.toNat (IpAddr.v4.inj heq)
    rw [BitVec.toNat_ofNat, BitVec.toNat_ofNat, Nat.mod_eq_of_lt (by omega),
      Nat.mod_eq_of_lt (by omega)] at hvalue
    omega

theorem admittedWithin_comeback {limit : RateLimit} (hrate : 1 ≤ limit.perMinute)
    (hburst : 1 ≤ limit.burst) :
    admittedWithin (.v4 0) 0 IDLE_EVICT ((RateLimiter.new limit).answered
      (relapse limit (.v4 0) everybodyElse (.v6 0))) =
        limit.burst + limit.burst := by
  apply admittedWithin_relapse hrate hburst nodup_everybodyElse
  · rw [List.length_cons, everybodyElse, List.length_map, List.length_range]
    rfl
  · intro hmem
    cases List.mem_cons.mp hmem with
    | inl hself => cases hself
    | inr hmem =>
        obtain ⟨i, -, heq⟩ := List.mem_map.mp hmem
        cases heq

/-- The rate binds over every interval of a history in which no bucket of the
client is thrown away before it would be full, and over every interval of all
histories exactly where a burst is no more than ten minutes' queries. -/
theorem rate_bound_iff (limit : RateLimit) (hrate : 1 ≤ limit.perMinute)
    (hburst : 1 ≤ limit.burst) :
    (∀ (calls : List Call) (c : IpAddr), InOrder calls →
      ForgetsFull c (.new limit) calls → ∀ s t : Instant,
        (admittedWithin c s t ((RateLimiter.new limit).answered calls) : ℚ) ≤
          limit.burst + Duration.asSecs (t - s) * limit.perMinute / 60) ∧
    ((∀ (calls : List Call) (c : IpAddr), InOrder calls → ∀ s t : Instant,
        (admittedWithin c s t ((RateLimiter.new limit).answered calls) : ℚ) ≤
          limit.burst + Duration.asSecs (t - s) * limit.perMinute / 60) ↔
      limit.burst ≤ 10 * limit.perMinute) := by
  have hnew : Bounded (.new limit) := fun c b hb => by cases hb
  have hrun : ∀ (calls : List Call) (c : IpAddr), InOrder calls →
      ForgetsFull c (.new limit) calls → ∀ s t : Instant,
        (admittedWithin c s t ((RateLimiter.new limit).answered calls) : ℚ) ≤
          limit.burst + Duration.asSecs (t - s) * limit.perMinute / 60 := by
    intro calls c horder hforget s t
    have huntil : (RateLimiter.new limit).Until 0 := fun c b hb => by cases hb
    have hwithin := admittedWithin_le (s := s) (t := t)
      (RateLimiter.working_new hrate) hnew huntil
      (fun call hcall => Nat.zero_le call.now) horder hforget
    change (_ : ℚ) ≤ limit.cap + limit.gain (t - s) at hwithin
    rwa [RateLimit.cap_eq hburst, limit.gain_eq] at hwithin
  refine ⟨hrun, ?_, ?_⟩
  · intro hbound
    by_contra hexceeds
    have hmore := hbound (relapse limit (.v4 0) everybodyElse (.v6 0)) (.v4 0)
      inOrder_relapse 0 IDLE_EVICT
    rw [admittedWithin_comeback hrate hburst] at hmore
    have hidle : Duration.asSecs (IDLE_EVICT - 0) = 600 := by
      norm_num [Duration.asSecs, IDLE_EVICT, Duration.fromSecs]
    have hburst' : (10 * limit.perMinute : ℚ) < limit.burst := by
      exact_mod_cast Nat.lt_of_not_le hexceeds
    rw [hidle] at hmore
    push_cast at hmore
    linarith
  · intro hsmall calls c horder s t
    apply hrun calls c horder
    apply forgetsFull_of_burst hnew
    change limit.cap ≤ 10 * (limit.perMinute : ℚ)
    rw [RateLimit.cap_eq hburst]
    exact_mod_cast hsmall

theorem rate_bound_iff_default :
    (admittedWithin (.v4 1) 0 1000000000 ((RateLimiter.new ⟨60, 10⟩).answered
      [⟨.v4 1, 0⟩, ⟨.v4 2, 0⟩, ⟨.v4 1, 500000000⟩]) : ℚ) ≤
        (10 : ℕ) + Duration.asSecs (1000000000 - 0) * (60 : ℕ) / 60 :=
  (rate_bound_iff ⟨60, 10⟩ (by decide) (by decide)).2.mpr (by decide) _ (.v4 1)
    (by unfold InOrder; decide) 0 1000000000

/-- One query a minute, in bursts of eleven: twenty-two in ten minutes. -/
theorem burst_spent_twice :
    InOrder (relapse ⟨1, 11⟩ (.v4 0) everybodyElse (.v6 0)) ∧
    ¬ (admittedWithin (.v4 0) 0 IDLE_EVICT ((RateLimiter.new ⟨1, 11⟩).answered
        (relapse ⟨1, 11⟩ (.v4 0) everybodyElse (.v6 0))) : ℚ) ≤
      (11 : ℕ) + Duration.asSecs (IDLE_EVICT - 0) * (1 : ℕ) / 60 := by
  constructor
  · exact inOrder_relapse
  · rw [admittedWithin_comeback (by decide) (by decide)]
    norm_num [Duration.asSecs, IDLE_EVICT, Duration.fromSecs]

end UsdtPir
