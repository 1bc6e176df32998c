import Mathlib.Data.Finset.Card
import UsdtPir.RateLimiter

/-!
# What one client gets

As long as fewer clients than the table holds have called, nobody is evicted
and a client's results depend on its own calls alone.  They are those of a
single bucket, which grants the burst and what its clock has gained: the clock
moves with every call, back as well as forth, and only the moves forth gain.
-/

namespace UsdtPir

open TokenBucket

/-- Fewer clients than the table holds. -/
def FewClients (calls : List Call) : Prop :=
  (calls.map Call.client).toFinset.card < MAX_TRACKED

/-- What the calls of one client returned. -/
def resultsOf (c : IpAddr) (answered : List (Call × Except Duration Unit)) :
    List (Except Duration Unit) :=
  answered.filterMap fun entry =>
    if entry.1.client = c then some entry.2 else none

def callsOf (c : IpAddr) (calls : List Call) : List Call :=
  calls.filter fun call => call.client = c

/-- The results of a bucket of one's own, from none on. -/
def ownResults (limit : RateLimit) :
    Option Bucket → List Call → List (Except Duration Unit)
  | _, [] => []
  | bucket, call :: calls =>
      let charged := (bucket.getD ⟨limit.cap, call.now⟩).check limit call.now
      charged.1 :: ownResults limit (some charged.2) calls

section Isolation

variable {limiter : RateLimiter} {limit : RateLimit} {c : IpAddr}
    {calls : List Call} {clients : Finset IpAddr}

/-- Everybody in the table is one of those for whom it has room. -/
structure Uncrowded (limiter : RateLimiter) (clients : Finset IpAddr) :
    Prop where
  working : limiter.Working
  few : clients.card ≤ MAX_TRACKED
  known : limiter.clients.keys.toFinset ⊆ clients

theorem Uncrowded.makeRoom_eq (h : Uncrowded limiter clients)
    {client : IpAddr} (hclient : client ∈ clients) (now : Instant) :
    makeRoom limiter.clients client now = (.ok (), limiter.clients) := by
  by_cases hmem : client ∈ limiter.clients
  · exact makeRoom_of_mem hmem
  · apply makeRoom_of_lt
    have hfewer : limiter.clients.keys.toFinset ⊂ clients := by
      apply h.known.ssubset_of_ne
      intro hall
      rw [← hall, List.mem_toFinset, ← AList.mem_keys] at hclient
      exact hmem hclient
    rw [← List.toFinset_card_of_nodup limiter.clients.keys_nodup]
    exact (Finset.card_lt_card hfewer).trans_le h.few

theorem Uncrowded.checkAt (h : Uncrowded limiter clients) {client : IpAddr}
    (hclient : client ∈ clients) (now : Instant) :
    Uncrowded (limiter.checkAt client now).2 clients ∧
      limiter.checkAt client now =
        (((limiter.bucketOf client now).check limiter.limit now).1,
          { limiter with
            clients := limiter.clients.insert client
              ((limiter.bucketOf client now).check limiter.limit now).2 }) := by
  have hroom := h.makeRoom_eq hclient now
  have hcheck := RateLimiter.checkAt_of_room h.working (by rw [hroom])
  rw [hroom] at hcheck
  constructor
  · rw [hcheck]
    refine ⟨h.working, h.few, ?_⟩
    intro k hk
    rw [List.mem_toFinset, ← AList.mem_keys, AList.mem_insert] at hk
    cases hk with
    | inl hself => exact hself ▸ hclient
    | inr hheld => exact h.known (List.mem_toFinset.mpr (AList.mem_keys.mp hheld))
  · exact hcheck

theorem resultsOf_cons {call : Call} {result : Except Duration Unit}
    {rest : List (Call × Except Duration Unit)} :
    resultsOf c ((call, result) :: rest) =
      if call.client = c then result :: resultsOf c rest
      else resultsOf c rest := by
  unfold resultsOf
  rw [List.filterMap_cons]
  split_ifs <;> rfl

/-- Where nobody is evicted a client is on its own. -/
theorem resultsOf_answered (h : Uncrowded limiter clients)
    (hcalls : ∀ call ∈ calls, call.client ∈ clients) :
    resultsOf c (limiter.answered calls) =
      ownResults limiter.limit (limiter.clients.lookup c) (callsOf c calls) := by
  induction calls generalizing limiter with
  | nil => rfl
  | cons call calls ih =>
      obtain ⟨hafter, hcheck⟩ := h.checkAt (hcalls call List.mem_cons_self) call.now
      have hrest := ih hafter fun other hother =>
        hcalls other (List.mem_cons_of_mem call hother)
      rw [RateLimiter.limit_checkAt] at hrest
      rw [RateLimiter.answered, resultsOf_cons, hrest]
      unfold callsOf
      by_cases hself : call.client = c
      · subst hself
        rw [if_pos rfl, List.filter_cons_of_pos (by simp), ownResults, hcheck]
        rw [AList.lookup_insert]
        rfl
      · rw [if_neg hself, List.filter_cons_of_neg (by simpa using hself), hcheck]
        rw [AList.lookup_insert_ne (Ne.symm hself)]

theorem uncrowded_new (h : 1 ≤ limit.perMinute)
    (hfew : (calls.map Call.client).toFinset.card ≤ MAX_TRACKED) :
    Uncrowded (.new limit) (calls.map Call.client).toFinset where
  working := RateLimiter.working_new h
  few := hfew
  known := by
    intro k hk
    cases List.mem_toFinset.mp hk

theorem Uncrowded.after (h : Uncrowded limiter clients)
    (hcalls : ∀ call ∈ calls, call.client ∈ clients) :
    Uncrowded (limiter.after calls) clients := by
  induction calls generalizing limiter with
  | nil => exact h
  | cons call calls ih =>
      have hcall : call.client ∈ clients := hcalls call List.mem_cons_self
      apply ih (h.checkAt hcall call.now).1
      intro other hother
      exact hcalls other (List.mem_cons_of_mem call hother)

theorem resultsOf_answered_new (hfew : FewClients calls) :
    resultsOf c ((RateLimiter.new limit).answered calls) =
      if limit.perMinute = 0 then (callsOf c calls).map fun _ => .ok ()
      else ownResults limit none (callsOf c calls) := by
  by_cases hzero : limit.perMinute = 0
  · rw [if_pos hzero]
    clear hfew
    induction calls with
    | nil => rfl
    | cons call calls ih =>
        have hdisabled : (RateLimiter.new limit).checkAt call.client call.now =
            (.ok (), .new limit) :=
          RateLimiter.checkAt_disabled hzero
        rw [RateLimiter.answered, resultsOf_cons, hdisabled, ih]
        unfold callsOf
        by_cases hself : call.client = c
        · rw [if_pos hself, List.filter_cons_of_pos (by simpa using hself)]
          rfl
        · rw [if_neg hself, List.filter_cons_of_neg (by simpa using hself)]
  · rw [if_neg hzero]
    apply resultsOf_answered (uncrowded_new (Nat.pos_of_ne_zero hzero) hfew.le)
    intro call hcall
    exact List.mem_toFinset.mpr (List.mem_map_of_mem hcall)

end Isolation

/-! ## Full or empty -/

/-- No bucket is overdrawn or overfull. -/
def Bounded (limiter : RateLimiter) : Prop :=
  ∀ c b, limiter.clients.lookup c = some b →
    0 ≤ b.tokens ∧ b.tokens ≤ limiter.limit.cap

theorem Bounded.checkAt {limiter : RateLimiter} (h : Bounded limiter)
    (client : IpAddr) (now : Instant) :
    Bounded (limiter.checkAt client now).2 := by
  intro c b hb
  rw [RateLimiter.limit_checkAt]
  unfold RateLimiter.checkAt at hb
  split at hb
  · exact h c b hb
  · split at hb
    · exact h c b hb
    · have hmade : ∀ c b, (makeRoom limiter.clients client now).2.lookup c =
          some b → 0 ≤ b.tokens ∧ b.tokens ≤ limiter.limit.cap := by
        intro c b hlookup
        exact h c b (lookup_makeRoom_some hlookup)
      split at hb
      case h_1 wait clients hroom =>
        rw [hroom] at hmade
        exact hmade c b hb
      case h_2 clients hroom =>
        rw [hroom] at hmade
        dsimp only at hmade hb
        by_cases hself : c = client
        · rw [hself, AList.lookup_insert, Option.some.injEq] at hb
          subst hb
          apply Bucket.check_tokens
          cases hheld : clients.lookup client with
          | none => exact zero_le_one.trans limiter.limit.one_le_cap
          | some held => exact (hmade client held hheld).1
        · rw [AList.lookup_insert_ne hself] at hb
          exact hmade c b hb

theorem bounded_after {limit : RateLimit} {calls : List Call} :
    Bounded ((RateLimiter.new limit).after calls) := by
  apply RateLimiter.after_induction
  · intro limiter client now hlimiter
    exact hlimiter.checkAt client now
  · intro c b hb
    cases hb

/-- Where fewer clients call than the table holds, each gets what it would get
alone; and whoever calls, the table and its buckets keep their bounds. -/
theorem clients_limited_independently (limit : RateLimit) :
    (∀ (c : IpAddr) (calls calls' : List Call), FewClients calls →
      FewClients calls' → callsOf c calls = callsOf c calls' →
      resultsOf c ((RateLimiter.new limit).answered calls) =
        resultsOf c ((RateLimiter.new limit).answered calls')) ∧
    ∀ calls : List Call,
      ((RateLimiter.new limit).after calls).clients.keys.length ≤ MAX_TRACKED ∧
      ∀ c b, ((RateLimiter.new limit).after calls).clients.lookup c = some b →
        0 ≤ b.tokens ∧ b.tokens ≤ (max limit.burst 1 : ℕ) := by
  constructor
  · intro c calls calls' hfew hfew' hsame
    rw [resultsOf_answered_new hfew, resultsOf_answered_new hfew', hsame]
  · intro calls
    constructor
    · exact RateLimiter.length_after_le (Nat.zero_le _)
    · intro c b hb
      have hb' := bounded_after c b hb
      rw [RateLimiter.limit_after] at hb'
      exact hb'

/-- Half a token is more than a burst of none. -/
theorem bucket_above_burst :
    ∃ b, ((RateLimiter.new ⟨60, 0⟩).after
        [⟨.v4 1, 0⟩, ⟨.v4 1, 500000000⟩]).clients.lookup (.v4 1) = some b ∧
      ¬ b.tokens ≤ ((⟨60, 0⟩ : RateLimit).burst : ℚ) := by
  refine ⟨⟨1 / 2, 500000000⟩, ?_, ?_⟩
  · decide +kernel
  · decide +kernel

end UsdtPir
