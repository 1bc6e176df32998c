import UsdtPir.QueryBatches

/-!
# What the batcher keeps

Every event is one of a dozen moves.  Along any run the accepted jobs are the
jobs of the finished batches, the batch in hand and the queue, in that order,
and the replies are those of the finished batches.
-/

namespace UsdtPir

open Machine

/-- The batch the worker has taken and not yet answered. -/
def Worker.hand : Worker → List Job
  | .collecting batch _ => batch
  | .waiting batch _ => batch
  | .answering batch => batch
  | _ => []

def Worker.unsent : Worker → List (ℕ × Reply)
  | .sending rest => rest
  | _ => []

/-- A batch has a job, and one that still grows has room. -/
def Worker.Sized (limit : ℕ) : Worker → Prop
  | .collecting batch _ => 1 ≤ batch.length ∧ batch.length ≤ limit
  | .waiting batch _ => 1 ≤ batch.length ∧ batch.length < limit
  | .answering batch => 1 ≤ batch.length ∧ batch.length ≤ limit
  | _ => True

/-- Everything an event can do. -/
inductive Service.Moved (cfg : BatchConfig) (s : Service) :
    Event → Service → Prop
  | accepted {job : Job} (hfresh : job.reply ∉ s.taken)
      (hruns : s.worker ≠ .stopped)
      (hroom : s.queue.length < max cfg.queueDepth 1) :
      Moved cfg s (.submit job) { s with
        queue := s.queue ++ [job]
        accepted := s.accepted ++ [job] }
  | refused {job : Job} {why : Rejected} (hfresh : job.reply ∉ s.taken)
      (hwhy : (why = .stopped ∧ s.worker = .stopped) ∨
        (why = .overloaded ∧ max cfg.queueDepth 1 ≤ s.queue.length)) :
      Moved cfg s (.submit job) { s with
        refused := s.refused ++ [⟨job.reply, why, s.queue.length⟩] }
  | departed (reply : ℕ) :
      Moved cfg s (.depart reply) { s with gone := reply :: s.gone }
  | joined (hsenders : 0 < s.senders) :
      Moved cfg s .join { s with senders := s.senders + 1 }
  | left (hsenders : 0 < s.senders) :
      Moved cfg s .leave { s with senders := s.senders - 1 }
  | ticked : Moved cfg s .tick { s with now := s.now + 1 }
  | began {first : Job} {rest : List Job} (hworker : s.worker = .idle)
      (hqueue : s.queue = first :: rest) :
      Moved cfg s .work { s with
        queue := rest
        worker := .collecting [first] (s.now + cfg.window) }
  | halted (hworker : s.worker = .idle) (hqueue : s.queue = [])
      (hsenders : s.senders = 0) :
      Moved cfg s .work { s with worker := .stopped }
  | pooled {batch rest : List Job} {job : Job} {deadline : ℕ}
      (hworker : (s.worker = .collecting batch deadline ∧
          batch.length < cfg.max) ∨ s.worker = .waiting batch deadline)
      (hqueue : s.queue = job :: rest) :
      Moved cfg s .work { s with
        queue := rest
        worker := .collecting (batch ++ [job]) deadline }
  | dried {batch : List Job} {deadline : ℕ}
      (hworker : s.worker = .collecting batch deadline)
      (hroom : batch.length < cfg.max) :
      Moved cfg s .work { s with worker := .waiting batch deadline }
  | closed {e : Event} {batch : List Job} {deadline : ℕ}
      (hevent : e = .work ∨ e = .expire)
      (hworker : s.worker = .collecting batch deadline ∨
        s.worker = .waiting batch deadline) :
      Moved cfg s e { s with worker := .answering batch }
  | responded {batch : List Job} {outcome : Outcome}
      (hworker : s.worker = .answering batch) :
      Moved cfg s (.respond outcome) { s with
        worker := .sending (answer batch outcome)
        batches := s.batches ++ [(batch, outcome)] }
  | replied {next : ℕ × Reply} {rest : List (ℕ × Reply)}
      (hworker : s.worker = .sending (next :: rest)) :
      Moved cfg s .work { s with
        worker := .sending rest
        sent := s.sent ++ [next] }
  | rested (hworker : s.worker = .sending []) :
      Moved cfg s .work { s with worker := .idle }

section Moves

variable {cfg : BatchConfig} {responder : List Query → Outcome → Prop}
    {s s' : Service} {e : Event} {events : List Event}

theorem Service.moved_submit {job : Job} (hfresh : job.reply ∉ s.taken) :
    Moved cfg s (.submit job) (s.submit cfg job) := by
  unfold submit trySend
  by_cases hstopped : s.worker = .stopped
  · simp only [if_pos hstopped]
    exact .refused hfresh (.inl ⟨rfl, hstopped⟩)
  · by_cases hroom : s.queue.length < max cfg.queueDepth 1
    · simp only [if_neg hstopped, if_pos hroom]
      exact .accepted hfresh hstopped hroom
    · simp only [if_neg hstopped, if_neg hroom]
      exact .refused hfresh (.inr ⟨rfl, Nat.le_of_not_lt hroom⟩)

theorem Service.moved_work (h : s.work cfg = some s') :
    Moved cfg s .work s' := by
  cases hworker : s.worker with
  | idle =>
      cases hqueue : s.queue with
      | nil =>
          simp only [work, hworker, hqueue] at h
          rw [← hqueue] at h
          split at h
          · rename_i hsenders
            cases h
            exact .halted hworker hqueue hsenders
          · cases h
      | cons first rest =>
          simp only [work, hworker, hqueue, Option.some.injEq] at h
          subst h
          exact .began hworker hqueue
  | collecting batch deadline =>
      by_cases hroom : batch.length < cfg.max
      · cases hqueue : s.queue with
        | nil =>
            simp only [work, hworker, hqueue, if_pos hroom] at h
            rw [← hqueue] at h
            split at h
            · cases h
              exact .closed (.inl rfl) (.inl hworker)
            · cases h
              exact .dried hworker hroom
        | cons job rest =>
            simp only [work, hworker, hqueue, if_pos hroom,
              Option.some.injEq] at h
            subst h
            exact .pooled (.inl ⟨hworker, hroom⟩) hqueue
      · simp only [work, hworker, if_neg hroom, Option.some.injEq] at h
        subst h
        exact .closed (.inl rfl) (.inl hworker)
  | waiting batch deadline =>
      cases hqueue : s.queue with
      | nil =>
          simp only [work, hworker, hqueue] at h
          rw [← hqueue] at h
          split at h
          · cases h
            exact .closed (.inl rfl) (.inr hworker)
          · cases h
      | cons job rest =>
          simp only [work, hworker, hqueue, Option.some.injEq] at h
          subst h
          exact .pooled (.inr hworker) hqueue
  | answering batch => simp [work, hworker] at h
  | sending rest =>
      cases rest with
      | nil =>
          simp only [work, hworker, Option.some.injEq] at h
          subst h
          exact .rested hworker
      | cons next rest =>
          simp only [work, hworker, Option.some.injEq] at h
          subst h
          exact .replied hworker
  | stopped => simp [work, hworker] at h

theorem Service.moved_expire (h : s.expire = some s') :
    Moved cfg s .expire s' := by
  unfold expire at h
  split at h
  · rename_i batch deadline hworker
    split at h
    · cases h
      exact .closed (.inr rfl) (.inr hworker)
    · cases h
  · cases h

theorem Service.moved_respond {outcome : Outcome}
    (h : s.respond outcome = some s') : Moved cfg s (.respond outcome) s' := by
  unfold respond at h
  split at h
  · rename_i batch hworker
    cases h
    exact .responded hworker
  · cases h

theorem Service.moved (h : s.step cfg e = some s') : Moved cfg s e s' := by
  cases e with
  | submit job =>
      simp only [step] at h
      split at h
      · rename_i hguard
        cases h
        exact moved_submit hguard.2
      · cases h
  | depart reply =>
      cases h
      exact .departed reply
  | join =>
      simp only [step] at h
      split at h
      · rename_i hsenders
        cases h
        exact .joined hsenders
      · cases h
  | leave =>
      simp only [step] at h
      split at h
      · rename_i hsenders
        cases h
        exact .left hsenders
      · cases h
  | tick =>
      cases h
      exact .ticked
  | work => exact moved_work h
  | expire => exact moved_expire h
  | respond outcome => exact moved_respond h

/-! ## The invariants -/

structure Service.Ordered (cfg : BatchConfig) (s : Service) : Prop where
  in_turn : s.accepted =
    s.batches.flatMap Prod.fst ++ s.worker.hand ++ s.queue
  in_hand : s.worker.Sized cfg.max
  sized : ∀ b ∈ s.batches, 1 ≤ b.1.length ∧ b.1.length ≤ cfg.max
  replies : s.sent ++ s.worker.unsent =
    s.batches.flatMap fun b => answer b.1 b.2

theorem Service.ordered_spawn (cfg : BatchConfig) : Ordered cfg spawn := by
  refine ⟨rfl, trivial, ?_, rfl⟩
  intro b hb
  cases hb

theorem Service.Ordered.moved (h : s.Ordered cfg) (hmax : 1 ≤ cfg.max)
    (hmoved : Moved cfg s e s') : s'.Ordered cfg := by
  rcases h with ⟨hturn, hhand, hsized, hreplies⟩
  cases hmoved with
  | accepted hfresh hruns hroom =>
      refine ⟨?_, hhand, hsized, hreplies⟩
      dsimp only
      rw [hturn, List.append_assoc]
  | refused hfresh hwhy => exact ⟨hturn, hhand, hsized, hreplies⟩
  | departed reply => exact ⟨hturn, hhand, hsized, hreplies⟩
  | joined hsenders => exact ⟨hturn, hhand, hsized, hreplies⟩
  | left hsenders => exact ⟨hturn, hhand, hsized, hreplies⟩
  | ticked => exact ⟨hturn, hhand, hsized, hreplies⟩
  | began hworker hqueue =>
      rw [hworker] at hturn hreplies
      refine ⟨?_, ⟨Nat.le_refl 1, hmax⟩, hsized, hreplies⟩
      rw [hturn, hqueue]
      simp [Worker.hand]
  | halted hworker hqueue hsenders =>
      rw [hworker] at hturn hreplies
      exact ⟨hturn, trivial, hsized, hreplies⟩
  | @pooled batch rest job deadline hworker hqueue =>
      have hroom : 1 ≤ batch.length ∧ batch.length < cfg.max := by
        rcases hworker with ⟨hworker, hroom⟩ | hworker
        · rw [hworker] at hhand
          exact ⟨hhand.1, hroom⟩
        · rw [hworker] at hhand
          exact hhand
      have hbatch : s.worker.hand = batch ∧ s.worker.unsent = [] := by
        rcases hworker with ⟨hworker, -⟩ | hworker
        · rw [hworker]
          exact ⟨rfl, rfl⟩
        · rw [hworker]
          exact ⟨rfl, rfl⟩
      rw [hbatch.1, hqueue] at hturn
      rw [hbatch.2] at hreplies
      refine ⟨?_, ?_, hsized, hreplies⟩
      · rw [hturn]
        simp [Worker.hand]
      · simp only [Worker.Sized, List.length_append, List.length_singleton]
        omega
  | dried hworker hroom =>
      rw [hworker] at hturn hhand hreplies
      exact ⟨hturn, ⟨hhand.1, hroom⟩, hsized, hreplies⟩
  | @closed e batch deadline hevent hworker =>
      have hbatch : 1 ≤ batch.length ∧ batch.length ≤ cfg.max := by
        rcases hworker with hworker | hworker
        · rw [hworker] at hhand
          exact hhand
        · rw [hworker] at hhand
          exact ⟨hhand.1, Nat.le_of_lt hhand.2⟩
      have hkept : s.worker.hand = batch ∧ s.worker.unsent = [] := by
        rcases hworker with hworker | hworker
        · rw [hworker]
          exact ⟨rfl, rfl⟩
        · rw [hworker]
          exact ⟨rfl, rfl⟩
      rw [hkept.1] at hturn
      rw [hkept.2] at hreplies
      exact ⟨hturn, hbatch, hsized, hreplies⟩
  | @responded batch outcome hworker =>
      rw [hworker] at hturn hhand hreplies
      refine ⟨?_, trivial, ?_, ?_⟩
      · rw [hturn]
        simp [Worker.hand]
      · intro b hb
        rcases List.mem_append.mp hb with hb | hb
        · exact hsized b hb
        · rw [List.mem_singleton] at hb
          subst hb
          exact hhand
      · simp only [Worker.unsent, List.append_nil] at hreplies
        simp [Worker.unsent, hreplies]
  | replied hworker =>
      rw [hworker] at hturn hreplies
      refine ⟨hturn, trivial, hsized, ?_⟩
      rw [← hreplies]
      simp [Worker.unsent]
  | rested hworker =>
      rw [hworker] at hturn hreplies
      exact ⟨hturn, trivial, hsized, hreplies⟩

/-- No channel is used twice. -/
theorem Service.nodup_taken (h : s.taken.Nodup) (hmoved : Moved cfg s e s') :
    s'.taken.Nodup := by
  cases hmoved with
  | @accepted job hfresh hruns hroom =>
      have hperm : (s.accepted.map Job.reply ++ [job.reply] ++
          s.refused.map Refusal.reply).Perm (job.reply :: s.taken) := by
        unfold taken
        rw [List.append_assoc]
        exact List.perm_middle
      simp only [taken, List.map_append, List.map_singleton]
      rw [hperm.nodup_iff, List.nodup_cons]
      exact ⟨hfresh, h⟩
  | @refused job why hfresh hwhy =>
      simp only [taken, List.map_append, List.map_singleton]
      rw [← List.append_assoc, (List.perm_append_singleton _ _).nodup_iff,
        List.nodup_cons]
      exact ⟨hfresh, h⟩
  | _ => exact h

theorem Service.queue_le (h : s.queue.length ≤ max cfg.queueDepth 1)
    (hmoved : Moved cfg s e s') : s'.queue.length ≤ max cfg.queueDepth 1 := by
  cases hmoved with
  | accepted hfresh hruns hroom =>
      rw [List.length_append, List.length_singleton]
      exact hroom
  | began hworker hqueue =>
      rw [hqueue, List.length_cons] at h
      exact Nat.le_of_succ_le h
  | pooled hworker hqueue =>
      rw [hqueue, List.length_cons] at h
      exact Nat.le_of_succ_le h
  | _ => exact h

/-- A refusal met a full queue, or a worker that had stopped. -/
def Refusal.Just (cfg : BatchConfig) (worker : Worker) (r : Refusal) : Prop :=
  (r.why = .overloaded ∧ r.waiting = max cfg.queueDepth 1) ∨
    (r.why = .stopped ∧ worker = .stopped)

theorem Service.moved_of_stopped (h : s.worker = .stopped)
    (hmoved : Moved cfg s e s') :
    s'.worker = .stopped ∧ s'.queue = s.queue := by
  cases hmoved with
  | accepted hfresh hruns hroom => exact absurd h hruns
  | refused hfresh hwhy => exact ⟨h, rfl⟩
  | departed reply => exact ⟨h, rfl⟩
  | joined hsenders => exact ⟨h, rfl⟩
  | left hsenders => exact ⟨h, rfl⟩
  | ticked => exact ⟨h, rfl⟩
  | began hworker hqueue =>
      rw [h] at hworker
      cases hworker
  | halted hworker hqueue hsenders => exact ⟨rfl, rfl⟩
  | pooled hworker hqueue =>
      rw [h] at hworker
      rcases hworker with ⟨hworker, -⟩ | hworker
      · cases hworker
      · cases hworker
  | dried hworker hroom =>
      rw [h] at hworker
      cases hworker
  | closed hevent hworker =>
      rw [h] at hworker
      rcases hworker with hworker | hworker
      · cases hworker
      · cases hworker
  | responded hworker =>
      rw [h] at hworker
      cases hworker
  | replied hworker =>
      rw [h] at hworker
      cases hworker
  | rested hworker =>
      rw [h] at hworker
      cases hworker

theorem Service.refused_just
    (h : ∀ r ∈ s.refused, r.Just cfg s.worker)
    (hqueue : s.queue.length ≤ max cfg.queueDepth 1)
    (hmoved : Moved cfg s e s') : ∀ r ∈ s'.refused, r.Just cfg s'.worker := by
  have hkept : ∀ r ∈ s.refused, r.Just cfg s'.worker := by
    intro r hr
    rcases h r hr with hfull | ⟨hwhy, hstopped⟩
    · exact .inl hfull
    · exact .inr ⟨hwhy, (moved_of_stopped hstopped hmoved).1⟩
  cases hmoved with
  | @refused job why hfresh hwhy =>
      intro r hr
      rcases List.mem_append.mp hr with hr | hr
      · exact hkept r hr
      · rw [List.mem_singleton] at hr
        subst hr
        rcases hwhy with ⟨rfl, hstopped⟩ | ⟨rfl, hfull⟩
        · exact .inr ⟨rfl, hstopped⟩
        · exact .inl ⟨rfl, Nat.le_antisymm hqueue hfull⟩
  | _ => exact hkept

/-- A worker that stopped left nothing behind. -/
theorem Service.stopped_empty (h : s.worker = .stopped → s.queue = [])
    (hmoved : Moved cfg s e s') : s'.worker = .stopped → s'.queue = [] := by
  intro hstopped
  by_cases hbefore : s.worker = .stopped
  · rw [(moved_of_stopped hbefore hmoved).2]
    exact h hbefore
  · cases hmoved with
    | halted hworker hqueue hsenders => exact hqueue
    | began hworker hqueue => cases hstopped
    | pooled hworker hqueue => cases hstopped
    | dried hworker hroom => cases hstopped
    | closed hevent hworker => cases hstopped
    | responded hworker => cases hstopped
    | replied hworker => cases hstopped
    | rested hworker => cases hstopped
    | _ => exact absurd hstopped hbefore

theorem Service.faithful_step
    (h : ∀ b ∈ s.batches, responder (b.1.map Job.query) b.2)
    (hstep : s.Step cfg responder e s') :
    ∀ b ∈ s'.batches, responder (b.1.map Job.query) b.2 := by
  rcases hstep with ⟨hstep, hpermitted⟩
  cases moved hstep with
  | @responded batch outcome hworker =>
      intro b hb
      rcases List.mem_append.mp hb with hb | hb
      · exact h b hb
      · rw [List.mem_singleton] at hb
        subst hb
        simp only [Event.Permitted, asked, hworker] at hpermitted
        exact hpermitted
  | _ => exact h

/-- Everything that holds of a batcher at any time. -/
structure Service.Sound (cfg : BatchConfig)
    (responder : List Query → Outcome → Prop) (s : Service) : Prop where
  ordered : s.Ordered cfg
  distinct : s.taken.Nodup
  bounded : s.queue.length ≤ max cfg.queueDepth 1
  refusals : ∀ r ∈ s.refused, r.Just cfg s.worker
  stopped : s.worker = .stopped → s.queue = []
  faithful : ∀ b ∈ s.batches, responder (b.1.map Job.query) b.2

theorem Service.sound_spawn (cfg : BatchConfig)
    (responder : List Query → Outcome → Prop) : Sound cfg responder spawn := by
  refine ⟨ordered_spawn cfg, List.nodup_nil, Nat.zero_le _, ?_, ?_, ?_⟩
  · intro r hr
    cases hr
  · intro _
    rfl
  · intro b hb
    cases hb

theorem Service.Sound.step (h : s.Sound cfg responder) (hmax : 1 ≤ cfg.max)
    (hstep : s.Step cfg responder e s') : s'.Sound cfg responder := by
  have hmoved := moved hstep.1
  exact ⟨h.ordered.moved hmax hmoved, nodup_taken h.distinct hmoved,
    queue_le h.bounded hmoved, refused_just h.refusals h.bounded hmoved,
    stopped_empty h.stopped hmoved, faithful_step h.faithful hstep⟩

theorem Service.Sound.run (h : s.Sound cfg responder) (hmax : 1 ≤ cfg.max)
    (hrun : Run (Step cfg responder) s events s') : s'.Sound cfg responder :=
  hrun.invariant h fun hstep hs => hs.step hmax hstep

/-- Every submission so far was accepted or refused. -/
theorem Service.taken_perm {past : List Event}
    (h : s.taken.Perm (past.filterMap Event.submitted))
    (hmoved : Moved cfg s e s') :
    s'.taken.Perm ((past ++ [e]).filterMap Event.submitted) := by
  rw [List.filterMap_append]
  have hquiet : s.taken.Perm (past.filterMap Event.submitted ++ []) := by
    rw [List.append_nil]
    exact h
  cases hmoved with
  | @accepted job hfresh hruns hroom =>
      have hperm : (s.accepted.map Job.reply ++ [job.reply] ++
          s.refused.map Refusal.reply).Perm (s.taken ++ [job.reply]) := by
        unfold taken
        rw [List.append_assoc, List.append_assoc]
        exact List.perm_append_comm.append_left _
      simp only [taken, List.map_append, List.map_singleton]
      exact hperm.trans (h.append_right _)
  | @refused job why hfresh hwhy =>
      simp only [taken, List.map_append, List.map_singleton]
      rw [← List.append_assoc]
      exact h.append_right _
  | @closed e batch deadline hevent hworker =>
      rcases hevent with rfl | rfl
      · exact hquiet
      · exact hquiet
  | _ => exact hquiet

end Moves

end UsdtPir
