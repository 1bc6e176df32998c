import UsdtPir.AccountedQueries
import UsdtPir.OvertakingChecks

/-!
# One client's share of the queue

The jobs of a client are as many as the limiter has let in, and the limiter lets
in what a bucket holds.  So one client cannot fill the queue for longer than its
burst, however fast it asks.
-/

namespace UsdtPir

open Machine

namespace Api

variable {cfg : BatchConfig} {responder : List Query → Outcome → Prop}
    {answers : Query → Reply → Prop} {limit : RateLimit} {api : Api}
    {c : IpAddr} {before window later : List Checked}

/-- The checks of one client. -/
def checksOf (c : IpAddr) (checks : List Checked) : List Checked :=
  checks.filter fun check => check.call.client = c

/-- The jobs that these checks have let in. -/
def jobsOf (api : Api) (checks : List Checked) : List Job :=
  api.batcher.accepted.filter fun job => job.reply ∈ checks.map Checked.id

theorem callsOf_map_call (checks : List Checked) :
    callsOf c (checks.map Checked.call) =
      (checksOf c checks).map Checked.call := by
  unfold callsOf checksOf
  rw [List.filter_map]
  rfl

theorem resultsOf_map_result (checks : List Checked) :
    resultsOf c (checks.map fun check => (check.call, check.result)) =
      (checksOf c checks).map Checked.result := by
  induction checks with
  | nil => rfl
  | cons check checks ih =>
      rw [List.map_cons, resultsOf_cons, ih]
      unfold checksOf
      by_cases hself : check.call.client = c
      · rw [if_pos hself, List.filter_cons_of_pos (by simpa using hself)]
        rfl
      · rw [if_neg hself, List.filter_cons_of_neg (by simpa using hself)]

/-- What the limiter said in between is what it says from there on. -/
theorem Metered.answered_window {limiter : RateLimiter} {checks : List Checked}
    {received : HashMap ℕ HttpRequest}
    (h : Metered limit limiter checks received)
    (hchecks : checks = before ++ window ++ later) :
    ((RateLimiter.new limit).after (before.map Checked.call)).answered
        (window.map Checked.call) =
      window.map fun check => (check.call, check.result) := by
  have hresults := h.results
  subst hchecks
  simp only [List.map_append, RateLimiter.answered_append] at hresults
  have hlength : ∀ (limiter : RateLimiter) (calls : List Call),
      (limiter.answered calls).length = calls.length := by
    intro limiter calls
    induction calls generalizing limiter with
    | nil => rfl
    | cons call calls ih =>
        rw [RateLimiter.answered, List.length_cons, List.length_cons, ih]
  obtain ⟨hfirst, -⟩ := List.append_inj' hresults (by simp [hlength])
  obtain ⟨-, hwindow⟩ := List.append_inj' hfirst (by simp [hlength])
  exact hwindow

/-- Every job has a check of its own that let it in. -/
theorem Sound.jobs_le (h : api.Sound cfg responder answers limit)
    (hchecks : api.checks = before ++ window ++ later) :
    (api.jobsOf (checksOf c window)).length ≤
      admitted ((checksOf c window).map Checked.result) := by
  have hwindow : ∀ check ∈ checksOf c window, check ∈ api.checks := by
    intro check hcheck
    rw [hchecks]
    exact List.mem_append_left _
      (List.mem_append_right _ (List.mem_of_mem_filter hcheck))
  have hnodup : ((api.jobsOf (checksOf c window)).map Job.reply).Nodup := by
    have hall : (api.batcher.accepted.map Job.reply).Nodup :=
      (List.nodup_append.mp h.batcher.distinct).1
    exact hall.sublist (List.filter_sublist.map Job.reply)
  have hsubset : (api.jobsOf (checksOf c window)).map Job.reply ⊆
      ((checksOf c window).filter fun check =>
        check.result.isOk).map Checked.id := by
    intro id hid
    obtain ⟨job, hjob, rfl⟩ := List.mem_map.mp hid
    obtain ⟨haccepted, hasked⟩ := List.mem_filter.mp hjob
    obtain ⟨check, hcheck, hreply⟩ := List.mem_map.mp (of_decide_eq_true hasked)
    have htaken : job.reply ∈ api.batcher.taken :=
      mem_taken.mpr (.inl ⟨job, haccepted, rfl⟩)
    obtain ⟨paid, hpaid, hid, hok⟩ := h.staged.paid job.reply htaken
    have hsame : paid = check :=
      checked_inj h.metered.distinct hpaid (hwindow check hcheck)
        (hid.trans hreply.symm)
    subst hsame
    refine List.mem_map.mpr ⟨paid, List.mem_filter.mpr ⟨hcheck, ?_⟩, hreply⟩
    rw [hok]
    rfl
  have hle := (List.subperm_of_subset hnodup hsubset).length_le
  rw [List.length_map, List.length_map] at hle
  unfold admitted
  rw [List.countP_map, List.countP_eq_length_filter]
  exact hle

end Api

/-- Whatever part of a run one looks at, the jobs for which a client was let in
then are no more than a full bucket and what it gains while the clock moves
forth. -/
theorem client_share_of_queue {cfg : BatchConfig}
    {responder : List Query → Outcome → Prop} {answers : Query → Reply → Prop}
    {limit : RateLimit} {events : List ApiEvent} {api : Api}
    (c : IpAddr) (before window later : List Checked)
    (hone : OnePerQuery responder answers) (hmax : 1 ≤ cfg.max)
    (hrate : 1 ≤ limit.perMinute)
    (hrun : Run (Api.Step cfg responder) (.new limit) events api)
    (hfew : FewClients (api.checks.map Checked.call))
    (hchecks : api.checks = before ++ window ++ later) :
    let times := (Api.checksOf c window).map fun check => check.call.now
    ((api.jobsOf (Api.checksOf c window)).length : ℚ) ≤
        limit.cap + limit.gain (forwardMoves times) ∧
      ∀ s t, times.Pairwise (· ≤ ·) → (∀ now ∈ times, s ≤ now ∧ now ≤ t) →
        ((api.jobsOf (Api.checksOf c window)).length : ℚ) ≤
          limit.cap + limit.gain (t - s) := by
  intro times
  have hsound := (Api.sound_new cfg responder answers limit).run hone hmax hrun
  have hclients : ∀ call ∈ (before ++ window).map Checked.call,
      call.client ∈
        ((api.checks.map Checked.call).map Call.client).toFinset := by
    intro call hcall
    rw [hchecks, List.mem_toFinset, List.map_append]
    exact List.mem_map_of_mem (List.mem_append_left _ hcall)
  rw [List.map_append] at hclients
  have huncrowded := (uncrowded_new hrate hfew.le).after
    fun call hcall => hclients call (List.mem_append_left _ hcall)
  have hbounded : Bounded ((RateLimiter.new limit).after
      (before.map Checked.call)) := bounded_after
  have hown := resultsOf_answered (c := c) huncrowded
    fun call hcall => hclients call (List.mem_append_right _ hcall)
  rw [hsound.metered.answered_window hchecks, Api.resultsOf_map_result,
    RateLimiter.limit_after, Api.callsOf_map_call] at hown
  have hadmitted := admitted_ownResults_le_cap limit
    ((Api.checksOf c window).map Checked.call)
    fun bucket hbucket => (hbounded c bucket hbucket).1
  have hjobs : ((api.jobsOf (Api.checksOf c window)).length : ℚ) ≤
      admitted ((Api.checksOf c window).map Checked.result) := by
    exact_mod_cast hsound.jobs_le hchecks
  have htimes : ((Api.checksOf c window).map Checked.call).map Call.now =
      times := by
    rw [List.map_map]
    rfl
  rw [htimes] at hadmitted
  have hmoves : ((api.jobsOf (Api.checksOf c window)).length : ℚ) ≤
      limit.cap + limit.gain (forwardMoves times) := by
    rw [hown] at hjobs
    exact hjobs.trans hadmitted
  refine ⟨hmoves, ?_⟩
  intro s t hsorted hwithin
  have hforth : forwardMoves times ≤ t - s :=
    forwardMoves_le_of_sorted hsorted (fun now hnow => (hwithin now hnow).1)
      fun now hnow => (hwithin now hnow).2
  have hgain := limit.gain_mono hforth
  linarith

/-- The second query of the first client found no token. -/
theorem client_share_of_queue_contended :
    ((Contended.finish.jobsOf
        (Api.checksOf (.v4 1) Contended.finish.checks)).length : ℚ) ≤
      (⟨60, 1⟩ : RateLimit).cap + (⟨60, 1⟩ : RateLimit).gain (0 - 0) := by
  have hshare := client_share_of_queue (.v4 1) []
    Contended.finish.checks [] Pooled.onePerQuery_echo (by decide) (by decide)
    Contended.run (by unfold FewClients; decide +kernel) (by simp)
  apply hshare.2 0 0
  · decide +kernel
  · decide +kernel

end UsdtPir
