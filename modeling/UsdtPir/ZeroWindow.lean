import UsdtPir.ServedOnce

/-!
# A window of nothing

A window that closes at once keeps no query waiting for others.  But the worker
takes what is queued before it looks at the clock, so a batch still pools the
queries that came while the one before it was answered.
-/

namespace UsdtPir

open Machine

/-- The worker holds a batch with room and looks into the queue. -/
def Service.collects (cfg : BatchConfig) (s : Service) : Bool :=
  match s.worker with
  | .collecting batch _ => batch.length < cfg.max
  | .waiting _ _ => true
  | _ => false

/-- Nothing is queued when the worker looks for more. -/
def Service.FindsNone (cfg : BatchConfig) (s : Service) (e : Event) : Prop :=
  e = .work → s.collects cfg = true → s.queue = []

instance (cfg : BatchConfig) (s : Service) (e : Event) :
    Decidable (s.FindsNone cfg e) :=
  inferInstanceAs
    (Decidable (e = .work → s.collects cfg = true → s.queue = []))

/-- Each query has been asked on its own, and one at most is next. -/
def Service.Alone (s : Service) : Prop :=
  (∀ b ∈ s.batches, b.1.length = 1) ∧ s.worker.hand.length ≤ 1

section Windows

variable {cfg : BatchConfig} {responder : List Query → Outcome → Prop}
    {s s' : Service} {e : Event} {events : List Event}

/-- What is queued joins the batch. -/
theorem Service.work_pools {job : Job} {rest : List Job}
    (hcollects : s.collects cfg = true) (hqueue : s.queue = job :: rest)
    (h : s.work cfg = some s') :
    s'.worker.hand = s.worker.hand ++ [job] := by
  unfold collects at hcollects
  cases hworker : s.worker with
  | collecting batch deadline =>
      rw [hworker] at hcollects
      have hroom : batch.length < cfg.max := by simpa using hcollects
      simp only [work, hworker, hqueue, if_pos hroom, Option.some.injEq] at h
      rw [← h]
      rfl
  | waiting batch deadline =>
      simp only [work, hworker, hqueue, Option.some.injEq] at h
      rw [← h]
      rfl
  | _ =>
      rw [hworker] at hcollects
      cases hcollects

theorem Service.one_le_hand (hcollects : s.collects cfg = true)
    (h : s.Ordered cfg) : 1 ≤ s.worker.hand.length := by
  have hsized := h.in_hand
  unfold collects at hcollects
  cases hworker : s.worker with
  | collecting batch deadline =>
      rw [hworker] at hsized
      exact hsized.1
  | waiting batch deadline =>
      rw [hworker] at hsized
      exact hsized.1
  | _ =>
      rw [hworker] at hcollects
      cases hcollects

/-- Without another query in the queue every step leaves queries alone. -/
theorem Service.alone_iff_of_findsNone (h : s.Ordered cfg)
    (hmoved : Moved cfg s e s') (hnone : s.FindsNone cfg e) :
    s'.Alone ↔ s.Alone := by
  unfold Alone
  cases hmoved with
  | began hworker hqueue =>
      rw [hworker]
      simp [Worker.hand]
  | halted hworker hqueue hsenders =>
      rw [hworker]
      simp [Worker.hand]
  | @pooled batch rest job deadline hworker hqueue =>
      have hcollects : s.collects cfg = true := by
        unfold collects
        cases hworker with
        | inl hboth =>
            rw [hboth.1]
            simpa using hboth.2
        | inr hwaits => rw [hwaits]
      rw [hnone rfl hcollects] at hqueue
      cases hqueue
  | dried hworker hroom =>
      rw [hworker]
      rfl
  | closed hevent hworker =>
      cases hworker with
      | inl hcollecting =>
          rw [hcollecting]
          rfl
      | inr hwaits =>
          rw [hwaits]
          rfl
  | @responded batch outcome hworker =>
      have hsized := h.in_hand
      rw [hworker] at hsized ⊢
      have hone : 1 ≤ batch.length := hsized.1
      constructor
      · intro halone
        constructor
        · intro b hb
          exact halone.1 b (List.mem_append_left _ hb)
        · have hbatch := halone.1 (batch, outcome)
            (List.mem_append_right _ (List.mem_singleton.mpr rfl))
          exact Nat.le_of_eq hbatch
      · intro halone
        constructor
        · intro b hb
          cases List.mem_append.mp hb with
          | inl hearlier => exact halone.1 b hearlier
          | inr hlast =>
              rw [List.mem_singleton.mp hlast]
              exact Nat.le_antisymm halone.2 hone
        · exact Nat.zero_le 1
  | replied hworker =>
      rw [hworker]
      simp [Worker.hand]
  | rested hworker =>
      rw [hworker]
      simp [Worker.hand]
  | _ => rfl

/-- A step leaves queries alone exactly where it does not find another one. -/
theorem Service.alone_step (h : s.Ordered cfg)
    (hstep : s.Step cfg responder e s') :
    s'.Alone ↔ s.Alone ∧ s.FindsNone cfg e := by
  by_cases hnone : s.FindsNone cfg e
  · rw [alone_iff_of_findsNone h (moved hstep.1) hnone, and_iff_left hnone]
  · have hfound : e = .work ∧ s.collects cfg = true ∧ s.queue ≠ [] := by
      unfold FindsNone at hnone
      simpa only [Classical.not_imp] using hnone
    obtain ⟨rfl, hcollects, hqueued⟩ := hfound
    obtain ⟨job, rest, hqueue⟩ := List.exists_cons_of_ne_nil hqueued
    have hpooled := work_pools hcollects hqueue hstep.1
    have hheld := one_le_hand hcollects h
    constructor
    · intro halone
      have hone := halone.2
      rw [hpooled, List.length_append, List.length_singleton] at hone
      omega
    · intro hboth
      exact absurd hboth.2 hnone

/-- A worker whose window is over hands its batch in. -/
theorem Service.hands_in {batch : List Job} {deadline : ℕ}
    (hworker : s.worker = .collecting batch deadline) (hqueue : s.queue = [])
    (hsenders : s.senders ≠ 0) (hover : deadline ≤ s.now) :
    ∃ events s', Run (Step cfg fun _ _ => True) s events s' ∧
      (batch, .failed "") ∈ s'.batches := by
  have hlast : ∀ s : Service, s.worker = .answering batch →
      ∃ s', s.Step cfg (fun _ _ => True) (.respond (.failed "")) s' ∧
        (batch, .failed "") ∈ s'.batches := by
    intro s hanswering
    refine ⟨{ s with
      worker := .sending (answer batch (.failed ""))
      batches := s.batches ++ [(batch, .failed "")] }, ⟨?_, trivial⟩, ?_⟩
    · simp only [step, respond, hanswering]
    · exact List.mem_append_right _ (List.mem_singleton.mpr rfl)
  obtain ⟨s', hresponds, hmem⟩ := hlast { s with worker := .answering batch } rfl
  by_cases hroom : batch.length < cfg.max
  · have hwaits : s.Step cfg (fun _ _ => True) .work
        { s with worker := .waiting batch deadline } := by
      constructor
      · simp only [step, work, hworker, if_pos hroom, hqueue, if_neg hsenders]
      · trivial
    have hexpires : Service.Step cfg (fun _ _ => True)
        { s with worker := .waiting batch deadline } .expire
          { s with worker := .answering batch } := by
      constructor
      · simp only [step, expire, if_pos hover]
      · trivial
    exact ⟨_, s', .cons hwaits (.cons hexpires (.cons hresponds (.nil s'))), hmem⟩
  · have hcloses : s.Step cfg (fun _ _ => True) .work
        { s with worker := .answering batch } := by
      constructor
      · simp only [step, work, hworker, if_neg hroom]
      · trivial
    exact ⟨_, s', .cons hcloses (.cons hresponds (.nil s')), hmem⟩

/-- Two queries that come one after the other are asked together. -/
theorem Service.pools_two (hwindow : cfg.window = 0) (hmax : 2 ≤ cfg.max)
    (first second : Job) (hchannels : second.reply ≠ first.reply) :
    ∃ events s, Run (Step cfg fun _ _ => True) spawn events s ∧
      ([first, second], .failed "") ∈ s.batches := by
  have hdepth : 0 < max cfg.queueDepth 1 :=
    Nat.lt_of_lt_of_le Nat.zero_lt_one (Nat.le_max_right _ _)
  have hroom : [first].length < cfg.max := hmax
  have hfirst : Step cfg (fun _ _ => True) spawn (.submit first)
      { spawn with queue := [first], accepted := [first] } := by
    constructor
    · simp [step, spawn, submit, trySend, taken, hdepth]
    · trivial
  have htakes : Step cfg (fun _ _ => True)
      { spawn with queue := [first], accepted := [first] } .work
      { spawn with
        accepted := [first]
        worker := .collecting [first] cfg.window } := by
    constructor
    · simp [step, work, spawn]
    · trivial
  have hsecond : Step cfg (fun _ _ => True)
      { spawn with
        accepted := [first]
        worker := .collecting [first] cfg.window } (.submit second)
      { spawn with
        queue := [second]
        accepted := [first, second]
        worker := .collecting [first] cfg.window } := by
    constructor
    · simp [step, spawn, submit, trySend, taken, hdepth, hchannels]
    · trivial
  have hpools : Step cfg (fun _ _ => True)
      { spawn with
        queue := [second]
        accepted := [first, second]
        worker := .collecting [first] cfg.window } .work
      { spawn with
        accepted := [first, second]
        worker := .collecting [first, second] cfg.window } := by
    constructor
    · simp only [step, work, if_pos hroom]
      rfl
    · trivial
  have hdone : ∃ events s, Run (Step cfg fun _ _ => True)
      { spawn with
        accepted := [first, second]
        worker := .collecting [first, second] cfg.window } events s ∧
      ([first, second], .failed "") ∈ s.batches :=
    hands_in rfl rfl Nat.one_ne_zero (Nat.le_of_eq hwindow)
  obtain ⟨events, s, hrest, hmem⟩ := hdone
  exact ⟨_, s, .cons hfirst (.cons htakes (.cons hsecond (.cons hpools hrest))),
    hmem⟩

end Windows

/-- In any run queries are asked one at a time exactly if the worker never
finds another one queued when it looks for more, and in all runs exactly if
there is room for one only. -/
theorem zero_window_iff (cfg : BatchConfig) (hwindow : cfg.window = 0)
    (hmax : 1 ≤ cfg.max) :
    (∀ (responder : List Query → Outcome → Prop) (events : List Event)
      (s : Service), Run (Service.Step cfg responder) .spawn events s →
        (s.Alone ↔
          Run (fun s e s' => s.Step cfg responder e s' ∧ s.FindsNone cfg e)
            .spawn events s)) ∧
    ((∀ (responder : List Query → Outcome → Prop) (events : List Event)
      (s : Service), Run (Service.Step cfg responder) .spawn events s →
        ∀ b ∈ s.batches, b.1.length = 1) ↔ cfg.max = 1) := by
  constructor
  · intro responder events s hrun
    have hstart : Service.spawn.Alone := by
      constructor
      · intro b hb
        cases hb
      · exact Nat.zero_le 1
    rw [hrun.well_iff (P := Service.Ordered cfg) (Service.ordered_spawn cfg)
      (fun hstep h => h.moved hmax (Service.moved hstep.1))
      (fun hstep h => Service.alone_step h hstep), and_iff_right hstart]
  · constructor
    · intro hall
      by_contra hmore
      have htwo : 2 ≤ cfg.max := by omega
      obtain ⟨events, s, hrun, hmem⟩ :=
        Service.pools_two hwindow htwo ⟨[1], 1⟩ ⟨[2], 2⟩ (by decide)
      cases hall _ events s hrun _ hmem
    · intro hone responder events s hrun b hb
      have hsized := ((Service.sound_spawn cfg responder).run hmax hrun).ordered.sized
        b hb
      omega

/-! ### Two queries behind one -/

namespace Queued

open Pooled (first second third echo)

def config : BatchConfig :=
  ⟨0, 64, 256⟩

def opening : List Event :=
  [.submit first, .work, .work, .expire]

/-- The first query is asked alone. -/
def asked : Service :=
  ⟨0, 1, [], .answering [first], [], [first], [], [], []⟩

theorem asked_alone : asked.Alone :=
  ((zero_window_iff config rfl (by decide)).1 echo opening asked
    (.cons ⟨rfl, trivial⟩ <| .cons ⟨rfl, trivial⟩ <| .cons ⟨rfl, trivial⟩ <|
      .cons ⟨rfl, trivial⟩ <| .nil _)).mpr
    (.cons ⟨⟨rfl, trivial⟩, by decide⟩ <| .cons ⟨⟨rfl, trivial⟩, by decide⟩ <|
      .cons ⟨⟨rfl, trivial⟩, by decide⟩ <| .cons ⟨⟨rfl, trivial⟩, by decide⟩ <|
      .nil _)

/-- The others come while it is answered. -/
def events : List Event :=
  opening ++ [.submit second, .submit third, .respond (.answered [.ok [1]]),
    .work, .work, .work, .work, .work, .expire,
    .respond (.answered [.ok [2], .ok [3]])]

def finish : Service :=
  ⟨0, 1, [], .sending [(2, .ok [2]), (3, .ok [3])], [],
    [first, second, third], [],
    [([first], .answered [.ok [1]]),
      ([second, third], .answered [.ok [2], .ok [3]])],
    [(1, .ok [1])]⟩

theorem asked_together :
    config.window = 0 ∧ 1 ≤ config.max ∧
      Run (Service.Step config echo) .spawn events finish ∧
      ¬ ∀ b ∈ finish.batches, b.1.length = 1 := by
  refine ⟨rfl, by decide, ?_, by decide⟩
  exact .cons ⟨rfl, trivial⟩ <| .cons ⟨rfl, trivial⟩ <| .cons ⟨rfl, trivial⟩ <|
    .cons ⟨rfl, trivial⟩ <| .cons ⟨rfl, trivial⟩ <| .cons ⟨rfl, trivial⟩ <|
    .cons ⟨rfl, .inl rfl⟩ <| .cons ⟨rfl, trivial⟩ <| .cons ⟨rfl, trivial⟩ <|
    .cons ⟨rfl, trivial⟩ <| .cons ⟨rfl, trivial⟩ <| .cons ⟨rfl, trivial⟩ <|
    .cons ⟨rfl, trivial⟩ <| .cons ⟨rfl, .inl rfl⟩ <| .nil _

end Queued

end UsdtPir
