import UsdtPir.BatchIndependence

/-!
# Every accepted query is answered once

The replies follow the accepted jobs one by one, each is the responder's own
result or the failure of its batch, and none of them waits for anything but the
worker.  What one client does, or what becomes of its query, is not seen by the
others.
-/

namespace UsdtPir

open Machine

/-- The reply is the responder's result for the query, or the message with
which its batch failed. -/
def OwnReply (answers : Query → Reply → Prop) (outcome : Outcome) (job : Job)
    (reply : Reply) : Prop :=
  match outcome with
  | .answered _ => answers job.query reply
  | .failed e => reply = .error e
  | .panicked e => reply = .error s!"batch worker panicked: {e}"

/-- A reply went to the channel of the job, and is its own. -/
def Service.Delivered (answers : Query → Reply → Prop) (s : Service)
    (job : Job) (sent : ℕ × Reply) : Prop :=
  sent.1 = job.reply ∧
    ∃ b ∈ s.batches, job ∈ b.1 ∧ OwnReply answers b.2 job sent.2

section Replies

variable {cfg : BatchConfig} {responder : List Query → Outcome → Prop}
    {answers : Query → Reply → Prop} {s s' : Service} {events : List Event}
    {batch : List Job} {outcome : Outcome}

theorem forall₂_fail {P : Job → ℕ × Reply → Prop} {message : String}
    (h : ∀ job ∈ batch, P job (job.reply, .error message)) :
    List.Forall₂ P batch (fail (batch.map Job.reply) message) := by
  induction batch with
  | nil => exact .nil
  | cons job rest ih =>
      apply List.Forall₂.cons
      · exact h job List.mem_cons_self
      · apply ih
        intro other hother
        exact h other (List.mem_cons_of_mem _ hother)

theorem forall₂_zip {results : List Reply}
    (h : List.Forall₂ answers (batch.map Job.query) results) :
    List.Forall₂ (fun job sent => sent.1 = job.reply ∧
      answers job.query sent.2) batch ((batch.map Job.reply).zip results) := by
  induction batch generalizing results with
  | nil =>
      cases h
      exact .nil
  | cons job rest ih =>
      cases h with
      | cons hfirst hrest => exact .cons ⟨rfl, hfirst⟩ (ih hrest)

/-- Taken apart and put together again, every query keeps its channel. -/
theorem forall₂_answer (hone : OnePerQuery responder answers)
    (h : responder (batch.map Job.query) outcome) :
    List.Forall₂ (fun job sent => sent.1 = job.reply ∧
      OwnReply answers outcome job sent.2) batch (answer batch outcome) := by
  cases outcome with
  | answered results => exact forall₂_zip (hone _ _ h)
  | failed e => exact forall₂_fail fun job _ => ⟨rfl, rfl⟩
  | panicked e => exact forall₂_fail fun job _ => ⟨rfl, rfl⟩

theorem forall₂_delivered (hone : OnePerQuery responder answers)
    {batches : List (List Job × Outcome)}
    (hsub : ∀ b ∈ batches, b ∈ s.batches)
    (h : ∀ b ∈ batches, responder (b.1.map Job.query) b.2) :
    List.Forall₂ (s.Delivered answers) (batches.flatMap Prod.fst)
      (batches.flatMap fun b => answer b.1 b.2) := by
  induction batches with
  | nil => exact .nil
  | cons b rest ih =>
      rw [List.flatMap_cons, List.flatMap_cons]
      apply List.rel_append
      · have hb := List.mem_cons_self (a := b) (l := rest)
        have hown := forall₂_answer hone (h b hb)
        rw [List.forall₂_iff_get] at hown ⊢
        refine ⟨hown.1, ?_⟩
        intro i hi hi'
        rcases hown.2 i hi hi' with ⟨hchannel, hreply⟩
        exact ⟨hchannel, b, hsub b hb, List.get_mem _ _, hreply⟩
      · apply ih
        · intro c hc
          exact hsub c (List.mem_cons_of_mem _ hc)
        · intro c hc
          exact h c (List.mem_cons_of_mem _ hc)

/-- The replies sent so far are those of the first accepted jobs. -/
theorem Service.Sound.delivered (h : s.Sound cfg responder)
    (hone : OnePerQuery responder answers) :
    ∃ done rest, s.accepted = done ++ rest ∧
      List.Forall₂ (s.Delivered answers) done s.sent := by
  have hall := forall₂_delivered hone (fun b hb => hb) h.faithful
  rw [← h.ordered.replies] at hall
  have htake := List.forall₂_take s.sent.length hall
  rw [List.take_left] at htake
  refine ⟨_, (s.batches.flatMap Prod.fst).drop s.sent.length ++
    s.worker.hand ++ s.queue, ?_, htake⟩
  rw [h.ordered.in_turn]
  simp only [← List.append_assoc, List.take_append_drop]

theorem Service.Sound.accepted_length (h : s.Sound cfg responder)
    (hone : OnePerQuery responder answers) :
    s.accepted.length = s.sent.length + s.worker.unsent.length +
      s.worker.hand.length + s.queue.length := by
  have hall := forall₂_delivered hone (fun b hb => hb) h.faithful
  have hlength := hall.length_eq
  rw [← h.ordered.replies, List.length_append] at hlength
  rw [h.ordered.in_turn]
  simp only [List.length_append, hlength]

end Replies

/-! ## Nothing waits but for the worker -/

/-- The steps the worker can make at most before it sends something. -/
def Worker.stepsLeft (limit : ℕ) : Worker → ℕ
  | .idle => 2 * limit + 2
  | .collecting batch _ => 2 * (limit - batch.length) + 3
  | .waiting batch _ => 2 * (limit - batch.length) + 2
  | .answering _ => 1
  | .sending [] => 2 * limit + 3
  | .sending (_ :: _) => 0
  | .stopped => 0

/-- A bound on the steps until reply number `k` is sent. -/
def Service.stepsUntil (cfg : BatchConfig) (k : ℕ) (s : Service) : ℕ :=
  (k + 1 - s.sent.length) * (2 * cfg.max + 4) + s.worker.stepsLeft cfg.max

/-- The same batcher, some time later. -/
def Service.later (s : Service) (n : ℕ) : Service :=
  { s with now := s.now + n }

section Progress

variable {cfg : BatchConfig} {responder : List Query → Outcome → Prop}
    {answers : Query → Reply → Prop} {s s' : Service} {e : Event}
    {events : List Event} {k : ℕ}

theorem Service.Sound.spends (h : s.Sound cfg responder)
    (hone : OnePerQuery responder answers) (hmax : 1 ≤ cfg.max)
    (hstep : s.Step cfg responder e s') :
    k < s'.sent.length ∨ (s'.stepsUntil cfg k ≤ s.stepsUntil cfg k ∧
      (e.isWork = true → s'.stepsUntil cfg k < s.stepsUntil cfg k)) := by
  have hsame : s'.sent = s.sent → s'.worker = s.worker → e.isWork = false →
      k < s'.sent.length ∨ (s'.stepsUntil cfg k ≤ s.stepsUntil cfg k ∧
        (e.isWork = true → s'.stepsUntil cfg k < s.stepsUntil cfg k)) := by
    intro hsent hworker hquiet
    right
    unfold stepsUntil
    rw [hsent, hworker, hquiet]
    simp
  have hless : s'.sent = s.sent →
      s'.worker.stepsLeft cfg.max < s.worker.stepsLeft cfg.max →
      k < s'.sent.length ∨ (s'.stepsUntil cfg k ≤ s.stepsUntil cfg k ∧
        (e.isWork = true → s'.stepsUntil cfg k < s.stepsUntil cfg k)) := by
    intro hsent hlt
    right
    unfold stepsUntil
    rw [hsent]
    constructor
    · omega
    · intro _
      omega
  cases moved hstep.1 with
  | accepted hfresh hruns hroom => exact hsame rfl rfl rfl
  | refused hfresh hwhy => exact hsame rfl rfl rfl
  | departed reply => exact hsame rfl rfl rfl
  | joined hsenders => exact hsame rfl rfl rfl
  | left hsenders => exact hsame rfl rfl rfl
  | ticked => exact hsame rfl rfl rfl
  | began hworker hqueue =>
      apply hless rfl
      rw [hworker]
      simp only [Worker.stepsLeft, List.length_singleton]
      omega
  | halted hworker hqueue hsenders =>
      apply hless rfl
      rw [hworker]
      simp [Worker.stepsLeft]
  | @pooled batch rest job deadline hworker hqueue =>
      have hhand := h.ordered.in_hand
      apply hless rfl
      rcases hworker with ⟨hworker, hroom⟩ | hworker
      · rw [hworker]
        simp only [Worker.stepsLeft, List.length_append, List.length_singleton]
        omega
      · rw [hworker] at hhand ⊢
        simp only [Worker.Sized] at hhand
        simp only [Worker.stepsLeft, List.length_append, List.length_singleton]
        omega
  | dried hworker hroom =>
      apply hless rfl
      rw [hworker]
      simp only [Worker.stepsLeft]
      omega
  | closed hevent hworker =>
      apply hless rfl
      rcases hworker with hworker | hworker
      · rw [hworker]
        simp [Worker.stepsLeft]
      · rw [hworker]
        simp [Worker.stepsLeft]
  | @responded batch outcome hworker =>
      have hhand := h.ordered.in_hand
      have hpermitted := hstep.2
      rw [hworker] at hhand
      simp only [Worker.Sized] at hhand
      simp only [Event.Permitted, asked, hworker] at hpermitted
      have hlength := (forall₂_answer hone hpermitted).length_eq
      apply hless rfl
      rw [hworker]
      cases hanswer : answer batch outcome with
      | nil =>
          rw [hanswer, List.length_nil] at hlength
          omega
      | cons next rest => simp [Worker.stepsLeft]
  | @replied next rest hworker =>
      by_cases hdone : k < s.sent.length + 1
      · left
        rw [List.length_append, List.length_singleton]
        exact hdone
      · right
        have hsplit : k + 1 - s.sent.length =
            k + 1 - (s.sent.length + 1) + 1 := by
          omega
        have hrest : (Worker.sending rest).stepsLeft cfg.max ≤
            2 * cfg.max + 3 := by
          cases rest with
          | nil => exact Nat.le_refl _
          | cons next rest => exact Nat.zero_le _
        have hlt : (k + 1 - (s.sent.length + 1)) * (2 * cfg.max + 4) +
            (Worker.sending rest).stepsLeft cfg.max < s.stepsUntil cfg k := by
          unfold stepsUntil
          rw [hsplit, Nat.add_mul, Nat.one_mul]
          omega
        unfold stepsUntil at hlt ⊢
        rw [List.length_append, List.length_singleton]
        exact ⟨Nat.le_of_lt hlt, fun _ => hlt⟩
  | rested hworker =>
      apply hless rfl
      rw [hworker]
      simp [Worker.stepsLeft]

theorem Service.stepsUntil_lt :
    s.stepsUntil cfg k < (k + 2) * (2 * cfg.max + 4) := by
  have hleft : s.worker.stepsLeft cfg.max ≤ 2 * cfg.max + 3 := by
    cases s.worker with
    | sending rest =>
        cases rest with
        | nil => exact Nat.le_refl _
        | cons next rest => exact Nat.zero_le _
    | _ =>
        simp only [Worker.stepsLeft]
        omega
  have hsent : (k + 1 - s.sent.length) * (2 * cfg.max + 4) ≤
      (k + 1) * (2 * cfg.max + 4) :=
    Nat.mul_le_mul_right _ (Nat.sub_le _ _)
  have hsplit : (k + 2) * (2 * cfg.max + 4) =
      (k + 1) * (2 * cfg.max + 4) + (2 * cfg.max + 4) :=
    Nat.succ_mul (k + 1) _
  unfold stepsUntil
  rw [hsplit]
  omega

theorem Service.Moved.sent_le (hmoved : Moved cfg s e s') :
    s.sent.length ≤ s'.sent.length := by
  cases hmoved with
  | replied hworker => simp
  | _ => exact Nat.le_refl _

/-- After enough steps of the worker reply number `k` has been sent, whatever
else went on. -/
theorem Service.Sound.prompt (h : s.Sound cfg responder)
    (hone : OnePerQuery responder answers) (hmax : 1 ≤ cfg.max)
    (hrun : Run (Step cfg responder) s events s')
    (hcount : (k + 2) * (2 * cfg.max + 4) ≤ events.countP Event.isWork) :
    k < s'.sent.length := by
  have hsound : Run (fun s e s' => s.Step cfg responder e s' ∧
      s.Sound cfg responder) s events s' := by
    apply hrun.within h
    intro s e s' hstep hs
    exact hs.step hmax hstep
  have hlt : s.stepsUntil cfg k < events.countP Event.isWork :=
    Nat.lt_of_lt_of_le stepsUntil_lt hcount
  refine hsound.reached (G := fun t => k < t.sent.length) hlt ?_ ?_
  · rintro s e s' ⟨hstep, -⟩ hsent
    exact Nat.lt_of_lt_of_le hsent (moved hstep.1).sent_le
  · rintro s e s' ⟨hstep, hs⟩
    exact hs.spends hone hmax hstep

/-- While a reply is due the worker can move, now or once the window closes. -/
theorem Service.Sound.awake (h : s.Sound cfg responder)
    (hone : OnePerQuery responder answers)
    (hdue : s.sent.length < s.accepted.length) :
    ∃ n e, e.isWork = true ∧ ((s.later n).step cfg e).isSome := by
  have hlength := h.accepted_length hone
  cases hworker : s.worker with
  | idle =>
      rw [hworker] at hlength
      cases hqueue : s.queue with
      | nil =>
          rw [hqueue] at hlength
          simp only [Worker.unsent, Worker.hand, List.length_nil] at hlength
          omega
      | cons first rest =>
          refine ⟨0, .work, rfl, ?_⟩
          simp [Service.step, work, later, hworker, hqueue]
  | collecting batch deadline =>
      refine ⟨0, .work, rfl, ?_⟩
      simp only [Service.step, work, later, hworker]
      split
      · split
        · rfl
        · split
          · rfl
          · rfl
      · rfl
  | waiting batch deadline =>
      refine ⟨deadline, .expire, rfl, ?_⟩
      simp [Service.step, expire, later, hworker]
  | answering batch =>
      refine ⟨0, .respond (.failed ""), rfl, ?_⟩
      simp [Service.step, respond, later, hworker]
  | sending rest =>
      refine ⟨0, .work, rfl, ?_⟩
      simp only [Service.step, work, later, hworker]
      cases rest with
      | nil => rfl
      | cons next rest => rfl
  | stopped =>
      rw [hworker, h.stopped hworker] at hlength
      simp only [Worker.unsent, Worker.hand, List.length_nil] at hlength
      omega

end Progress

/-! ## The service as its clients see it -/

/-- What is true of a batcher after any run. -/
structure Service.ServesOnce (cfg : BatchConfig)
    (responder : List Query → Outcome → Prop) (answers : Query → Reply → Prop)
    (events : List Event) (s : Service) : Prop where
  submitted : s.taken.Perm (events.filterMap Event.submitted)
  once : s.taken.Nodup
  refusals : ∀ r ∈ s.refused, r.Just cfg s.worker
  in_turn : s.accepted = s.batches.flatMap Prod.fst ++ s.worker.hand ++ s.queue
  in_hand : s.worker.Sized cfg.max
  sized : ∀ b ∈ s.batches, 1 ≤ b.1.length ∧ b.1.length ≤ cfg.max
  own : ∃ done rest, s.accepted = done ++ rest ∧
    List.Forall₂ (s.Delivered answers) done s.sent
  prompt : ∀ k later s', Run (Step cfg responder) s later s' →
    (k + 2) * (2 * cfg.max + 4) ≤ later.countP Event.isWork →
    k < s'.sent.length
  awake : s.sent.length < s.accepted.length →
    ∃ n e, e.isWork = true ∧ ((s.later n).step cfg e).isSome
  undisturbed : ∃ kept, kept.Sublist events ∧
    Run (Step cfg responder) spawn kept s.alone
  unseen : ∀ pre post results k result,
    events = pre ++ .respond (.answered results) :: post →
    (∀ queries, responder queries (.answered results) →
      responder queries (.answered (results.set k result))) →
    ∃ batch t, (batch, .answered results) ∈ s.batches ∧
      Run (Step cfg responder) spawn
        (pre ++ .respond (.answered (results.set k result)) :: post) t ∧
      ∀ channel, (∀ job, batch[k]? = some job → job.reply ≠ channel) →
        t.received channel = s.received channel

/-- Every submission is refused at once or answered once, in its turn, with its
own result. -/
theorem batcher_serves_once {cfg : BatchConfig}
    {responder : List Query → Outcome → Prop} {answers : Query → Reply → Prop}
    {events : List Event} {s : Service}
    (hone : OnePerQuery responder answers) (hmax : 1 ≤ cfg.max)
    (hrun : Run (Service.Step cfg responder) .spawn events s) :
    s.ServesOnce cfg responder answers events := by
  have hsound := (Service.sound_spawn cfg responder).run hmax hrun
  constructor
  · have htaken : s.taken.Perm (([] ++ events).filterMap Event.submitted) := by
      refine hrun.traced (P := fun past s =>
        s.taken.Perm (past.filterMap Event.submitted)) ?_ ?_
      · exact List.Perm.nil
      · intro past s e s' hstep hperm
        exact Service.taken_perm hperm (Service.moved hstep.1)
    exact htaken
  · exact hsound.distinct
  · exact hsound.refusals
  · exact hsound.ordered.in_turn
  · exact hsound.ordered.in_hand
  · exact hsound.ordered.sized
  · exact hsound.delivered hone
  · intro k later s' hlater hcount
    exact hsound.prompt hone hmax hlater hcount
  · exact hsound.awake hone
  · exact Service.undisturbed hrun
  · intro pre post results k result hevents hother
    subst hevents
    exact Service.unseen_result hrun hother

/-! ### Three clients and one pass -/

namespace Pooled

def config : BatchConfig :=
  ⟨1000, 2, 2⟩

/-- Each query is given back; a whole batch may fail. -/
def echo (queries : List Query) (outcome : Outcome) : Prop :=
  outcome = .answered (queries.map Except.ok) ∨ ∃ e, outcome = .failed e

def first : Job :=
  ⟨[1], 1⟩

def second : Job :=
  ⟨[2], 2⟩

def third : Job :=
  ⟨[3], 3⟩

/-- The third client finds the queue full and the second one leaves. -/
def events : List Event :=
  [.submit first, .submit second, .submit third, .work, .depart 2, .work,
    .work, .respond (.answered [.ok [1], .ok [2]]), .work, .work, .work]

def finish : Service :=
  ⟨0, 1, [], .idle, [2], [first, second], [⟨3, .overloaded, 2⟩],
    [([first, second], .answered [.ok [1], .ok [2]])],
    [(1, .ok [1]), (2, .ok [2])]⟩

theorem onePerQuery_echo : OnePerQuery echo fun query reply =>
    reply = .ok query := by
  intro queries results h
  rcases h with h | ⟨e, h⟩
  · cases h
    rw [List.forall₂_map_right_iff]
    exact List.forall₂_same.mpr fun query _ => rfl
  · cases h

theorem run : Run (Service.Step config echo) .spawn events finish :=
  .cons ⟨rfl, trivial⟩ <| .cons ⟨rfl, trivial⟩ <| .cons ⟨rfl, trivial⟩ <|
    .cons ⟨rfl, trivial⟩ <| .cons ⟨rfl, trivial⟩ <| .cons ⟨rfl, trivial⟩ <|
    .cons ⟨rfl, trivial⟩ <| .cons ⟨rfl, .inl rfl⟩ <| .cons ⟨rfl, trivial⟩ <|
    .cons ⟨rfl, trivial⟩ <| .cons ⟨rfl, trivial⟩ <| .nil _

theorem batcher_serves_once_pooled : finish.ServesOnce config echo
    (fun query reply => reply = .ok query) events :=
  batcher_serves_once onePerQuery_echo (by decide) run

end Pooled

end UsdtPir
