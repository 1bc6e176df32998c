import UsdtPir.BatchInvariants
import Mathlib.Data.List.Forall2

/-!
# Clients that do not see each other

A run without the refused submissions and without the clients that left is a
run to the same batches and the same replies.  A run in which the responder
gave one query of a batch another result differs in that one reply.
-/

namespace UsdtPir

open Machine

/-- The batcher as if nobody had been refused and nobody had left. -/
def Service.alone (s : Service) : Service :=
  { s with gone := [], refused := [] }

/-- What a client has received, if it is still there. -/
def Service.received (s : Service) (channel : ℕ) : Option Reply :=
  if channel ∈ s.gone then none else s.sent.lookup channel

section Alone

variable {cfg : BatchConfig} {responder : List Query → Outcome → Prop}
    {s s' : Service} {e : Event} {events : List Event}

theorem Service.work_alone :
    s.alone.work cfg = (s.work cfg).map Service.alone := by
  cases hworker : s.worker with
  | idle =>
      cases hqueue : s.queue with
      | nil =>
          simp only [work, alone, hworker, hqueue]
          split
          · rfl
          · rfl
      | cons first rest => simp [work, alone, hworker, hqueue]
  | collecting batch deadline =>
      simp only [work, alone, hworker]
      split
      · cases hqueue : s.queue with
        | nil =>
            dsimp only
            split
            · rfl
            · rfl
        | cons job rest => rfl
      · rfl
  | waiting batch deadline =>
      cases hqueue : s.queue with
      | nil =>
          simp only [work, alone, hworker, hqueue]
          split
          · rfl
          · rfl
      | cons job rest => simp [work, alone, hworker, hqueue]
  | answering batch => simp [work, alone, hworker]
  | sending rest =>
      cases rest with
      | nil => simp [work, alone, hworker]
      | cons next rest => simp [work, alone, hworker]
  | stopped => simp [work, alone, hworker]

theorem Service.expire_alone :
    s.alone.expire = s.expire.map Service.alone := by
  cases hworker : s.worker with
  | waiting batch deadline =>
      simp only [expire, alone, hworker]
      split
      · rfl
      · rfl
  | _ => simp [expire, alone, hworker]

theorem Service.respond_alone {outcome : Outcome} :
    s.alone.respond outcome = (s.respond outcome).map Service.alone := by
  cases hworker : s.worker with
  | answering batch => simp [respond, alone, hworker]
  | _ => simp [respond, alone, hworker]

theorem Service.trySend_alone {job : Job} (h : s.trySend cfg job = .ok s') :
    s.alone.trySend cfg job = .ok s'.alone := by
  unfold trySend at h ⊢
  by_cases hstopped : s.worker = .stopped
  · rw [if_pos hstopped] at h
    cases h
  · have hruns : s.alone.worker ≠ .stopped := hstopped
    rw [if_neg hstopped] at h
    rw [if_neg hruns]
    by_cases hroom : s.queue.length < max cfg.queueDepth 1
    · have hroom' : s.alone.queue.length < max cfg.queueDepth 1 := hroom
      rw [if_pos hroom] at h
      rw [if_pos hroom']
      cases h
      rfl
    · rw [if_neg hroom] at h
      cases h

/-- An event is unseen, or the batcher does the same without the others. -/
theorem Service.step_alone (h : s.step cfg e = some s') :
    s'.alone = s.alone ∨ s.alone.step cfg e = some s'.alone := by
  cases e with
  | submit job =>
      simp only [step] at h
      split at h
      · rename_i hguard
        rw [Option.some.injEq] at h
        subst h
        unfold submit
        cases hsend : s.trySend cfg job with
        | error why => exact .inl rfl
        | ok t =>
            right
            have hfresh : job.reply ∉ s.alone.taken := by
              intro hmem
              apply hguard.2
              unfold taken at hmem ⊢
              rcases List.mem_append.mp hmem with hmem | hmem
              · exact List.mem_append_left _ hmem
              · cases hmem
            have hguard' : 0 < s.alone.senders ∧ job.reply ∉ s.alone.taken :=
              ⟨hguard.1, hfresh⟩
            simp only [step, if_pos hguard', submit, trySend_alone hsend]
      · cases h
  | depart reply =>
      cases h
      exact .inl rfl
  | join =>
      right
      simp only [step] at h ⊢
      split at h
      · rename_i hsenders
        cases h
        exact if_pos hsenders
      · cases h
  | leave =>
      right
      simp only [step] at h ⊢
      split at h
      · rename_i hsenders
        cases h
        exact if_pos hsenders
      · cases h
  | tick =>
      cases h
      exact .inr rfl
  | work =>
      right
      simp only [step] at h ⊢
      rw [work_alone, h]
      rfl
  | expire =>
      right
      simp only [step] at h ⊢
      rw [expire_alone, h]
      rfl
  | respond outcome =>
      right
      simp only [step] at h ⊢
      rw [respond_alone, h]
      rfl

theorem Service.undisturbed
    (hrun : Run (Step cfg responder) spawn events s) :
    ∃ kept, kept.Sublist events ∧
      Run (Step cfg responder) spawn kept s.alone := by
  have herase : ∃ kept t, kept.Sublist events ∧
      Run (Step cfg responder) spawn kept t ∧ t = s.alone := by
    refine hrun.erase (R := fun s t => t = s.alone) rfl ?_
    rintro s e s' t ⟨hstep, hpermitted⟩ rfl
    rcases step_alone hstep with hsame | hsame
    · exact .inl hsame.symm
    · refine .inr ⟨s'.alone, ⟨hsame, ?_⟩, rfl⟩
      cases e with
      | respond outcome => exact hpermitted
      | _ => trivial
  rcases herase with ⟨kept, t, hsub, hkept, rfl⟩
  exact ⟨kept, hsub, hkept⟩

end Alone

/-! ## One query is answered otherwise -/

/-- The same channels, and the same replies but for some of them. -/
def SameBut (hit : ℕ → Prop) (l l' : List (ℕ × Reply)) : Prop :=
  List.Forall₂ (fun x y => x.1 = y.1 ∧ (¬ hit x.1 → x.2 = y.2)) l l'

inductive Worker.Apart (hit : ℕ → Prop) : Worker → Worker → Prop
  | same {w : Worker} (hw : ∀ rest, w ≠ .sending rest) : Apart hit w w
  | sending {rest rest' : List (ℕ × Reply)} (hrest : SameBut hit rest rest') :
      Apart hit (.sending rest) (.sending rest')

def Service.dress (s : Service) (worker : Worker)
    (batches : List (List Job × Outcome)) (sent : List (ℕ × Reply)) :
    Service :=
  { s with worker := worker, batches := batches, sent := sent }

/-- Two batchers that differ in what they send to some channels. -/
def Service.Apart (hit : ℕ → Prop) (s t : Service) : Prop :=
  ∃ worker batches sent, t = s.dress worker batches sent ∧
    s.worker.Apart hit worker ∧ SameBut hit s.sent sent

section Apart

variable {hit : ℕ → Prop} {cfg : BatchConfig}
    {responder : List Query → Outcome → Prop} {s s' t : Service} {e : Event}
    {events : List Event} {l l' : List (ℕ × Reply)} {w w' : Worker}
    {batch : List Job} {results : List Reply} {k : ℕ} {result : Reply}

theorem SameBut.refl (hit : ℕ → Prop) (l : List (ℕ × Reply)) :
    SameBut hit l l := by
  apply List.forall₂_same.mpr
  intro x _
  exact ⟨rfl, fun _ => rfl⟩

theorem SameBut.lookup (h : SameBut hit l l') {channel : ℕ}
    (hchannel : ¬ hit channel) : l'.lookup channel = l.lookup channel := by
  induction h with
  | nil => rfl
  | @cons x y l l' hxy hrest ih =>
      rcases x with ⟨c, r⟩
      rcases y with ⟨c', r'⟩
      rcases hxy with ⟨hc, hr⟩
      dsimp only at hc hr
      subst hc
      by_cases heq : channel = c
      · subst heq
        simp [hr hchannel]
      · have hne : (channel == c) = false := by
          simpa using heq
        simp only [List.lookup_cons, hne]
        exact ih

/-- Replacing one result changes one reply. -/
theorem sameBut_zip :
    SameBut (fun c => ∃ job, batch[k]? = some job ∧ job.reply = c)
      ((batch.map Job.reply).zip results)
      ((batch.map Job.reply).zip (results.set k result)) := by
  unfold SameBut
  induction batch generalizing results k with
  | nil => exact .nil
  | cons job rest ih =>
      cases results with
      | nil => exact .nil
      | cons first others =>
          cases k with
          | zero =>
              refine .cons ⟨rfl, ?_⟩ (List.forall₂_same.mpr ?_)
              · intro hnot
                exact absurd ⟨job, rfl, rfl⟩ hnot
              · intro x _
                exact ⟨rfl, fun _ => rfl⟩
          | succ k => exact .cons ⟨rfl, fun _ => rfl⟩ ih

theorem Worker.Apart.stopped_iff (h : w.Apart hit w') :
    w' = .stopped ↔ w = .stopped := by
  cases h with
  | same hw => rfl
  | sending hrest => simp

theorem Service.quiet_dress {batches : List (List Job × Outcome)}
    (h : s.step cfg e = some s') (hquiet : e.isWork = false)
    (hstopped : w = .stopped ↔ s.worker = .stopped) :
    (s.dress w batches l).step cfg e = some (s'.dress w batches l) ∧
      s'.worker = s.worker ∧ s'.sent = s.sent := by
  cases e with
  | submit job =>
      simp only [step] at h ⊢
      split at h
      · rename_i hguard
        rw [Option.some.injEq] at h
        subst h
        have hguard' : 0 < (s.dress w batches l).senders ∧
            job.reply ∉ (s.dress w batches l).taken := hguard
        rw [if_pos hguard']
        unfold submit trySend
        by_cases hworker : s.worker = .stopped
        · have hworker' : (s.dress w batches l).worker = .stopped :=
            hstopped.mpr hworker
          simp only [if_pos hworker, if_pos hworker']
          exact ⟨rfl, trivial, trivial⟩
        · have hworker' : (s.dress w batches l).worker ≠ .stopped :=
            fun heq => hworker (hstopped.mp heq)
          simp only [if_neg hworker, if_neg hworker']
          by_cases hroom : s.queue.length < max cfg.queueDepth 1
          · have hroom' : (s.dress w batches l).queue.length <
                max cfg.queueDepth 1 := hroom
            simp only [if_pos hroom, if_pos hroom']
            exact ⟨rfl, trivial, trivial⟩
          · have hroom' : ¬ (s.dress w batches l).queue.length <
                max cfg.queueDepth 1 := hroom
            simp only [if_neg hroom, if_neg hroom']
            exact ⟨rfl, trivial, trivial⟩
      · cases h
  | depart reply =>
      cases h
      exact ⟨rfl, rfl, rfl⟩
  | join =>
      simp only [step] at h ⊢
      split at h
      · rename_i hsenders
        cases h
        exact ⟨if_pos hsenders, rfl, rfl⟩
      · cases h
  | leave =>
      simp only [step] at h ⊢
      split at h
      · rename_i hsenders
        cases h
        exact ⟨if_pos hsenders, rfl, rfl⟩
      · cases h
  | tick =>
      cases h
      exact ⟨rfl, rfl, rfl⟩
  | work => cases hquiet
  | expire => cases hquiet
  | respond outcome => cases hquiet

theorem Service.work_dress {batches : List (List Job × Outcome)}
    (hworker : ∀ rest, s.worker ≠ .sending rest) :
    (s.dress s.worker batches l).work cfg =
      (s.work cfg).map fun s' => s'.dress s'.worker batches l := by
  cases hcase : s.worker with
  | idle =>
      cases hqueue : s.queue with
      | nil =>
          simp only [work, dress, hcase, hqueue]
          split
          · rfl
          · rfl
      | cons first rest => simp [work, dress, hcase, hqueue]
  | collecting batch deadline =>
      by_cases hroom : batch.length < cfg.max
      · cases hqueue : s.queue with
        | nil =>
            by_cases hsenders : s.senders = 0
            · simp [work, dress, hcase, hroom, hqueue, hsenders]
            · simp [work, dress, hcase, hroom, hqueue, hsenders]
        | cons job rest => simp [work, dress, hcase, hroom, hqueue]
      · simp [work, dress, hcase, hroom]
  | waiting batch deadline =>
      cases hqueue : s.queue with
      | nil =>
          simp only [work, dress, hcase, hqueue]
          split
          · rfl
          · rfl
      | cons job rest => simp [work, dress, hcase, hqueue]
  | answering batch => simp [work, dress, hcase]
  | sending rest => exact absurd hcase (hworker rest)
  | stopped => simp [work, dress, hcase]

theorem Service.work_quiet (h : s.work cfg = some s')
    (hworker : ∀ rest, s.worker ≠ .sending rest) :
    s'.sent = s.sent ∧ ∀ rest, s'.worker ≠ .sending rest := by
  cases moved_work h with
  | replied hsending => exact absurd hsending (hworker _)
  | rested hsending => exact absurd hsending (hworker _)
  | began hidle hqueue => exact ⟨rfl, fun rest heq => by cases heq⟩
  | halted hidle hqueue hsenders => exact ⟨rfl, fun rest heq => by cases heq⟩
  | pooled hcase hqueue => exact ⟨rfl, fun rest heq => by cases heq⟩
  | dried hcase hroom => exact ⟨rfl, fun rest heq => by cases heq⟩
  | closed hevent hcase => exact ⟨rfl, fun rest heq => by cases heq⟩

theorem Service.work_apart (h : s.work cfg = some s')
    (happart : Apart hit s t) :
    ∃ t', t.work cfg = some t' ∧ Apart hit s' t' := by
  rcases happart with ⟨w, batches, sent, rfl, hw, hsent⟩
  cases hcase : s.worker with
  | sending rest =>
      rw [hcase] at hw
      cases hw with
      | same hnot => exact absurd rfl (hnot rest)
      | @sending _ rest' hrest =>
          cases hrest with
          | nil =>
              simp only [work, hcase, Option.some.injEq] at h
              subst h
              refine ⟨_, rfl, .idle, batches, sent, rfl, .same ?_, hsent⟩
              intro rest heq
              cases heq
          | @cons x y rest rest' hxy hrest =>
              simp only [work, hcase, Option.some.injEq] at h
              subst h
              refine ⟨_, rfl, .sending rest', batches, sent ++ [y], rfl,
                .sending hrest, ?_⟩
              exact List.rel_append hsent (.cons hxy .nil)
  | _ =>
      have hnot : ∀ rest, s.worker ≠ .sending rest := by
        intro rest heq
        rw [hcase] at heq
        cases heq
      have hsame : w = s.worker := by
        rw [hcase] at hw ⊢
        cases hw with
        | same _ => rfl
      subst hsame
      rcases work_quiet h hnot with ⟨hsent', hnot'⟩
      refine ⟨s'.dress s'.worker batches sent, ?_, s'.worker, batches, sent,
        rfl, .same hnot', ?_⟩
      · rw [work_dress hnot, h]
        rfl
      · rw [hsent']
        exact hsent

theorem Service.expire_apart (h : s.expire = some s')
    (happart : Apart hit s t) : ∃ t', t.expire = some t' ∧ Apart hit s' t' := by
  rcases happart with ⟨w, batches, sent, rfl, hw, hsent⟩
  cases hcase : s.worker with
  | waiting batch deadline =>
      have hsame : w = .waiting batch deadline := by
        rw [hcase] at hw
        cases hw with
        | same _ => rfl
      subst hsame
      simp only [expire, hcase] at h
      split at h
      · rename_i hclosed
        cases h
        refine ⟨_, if_pos hclosed, .answering batch, batches, sent, rfl,
          .same ?_, hsent⟩
        intro rest heq
        cases heq
      · cases h
  | _ => simp [expire, hcase] at h

theorem Service.respond_apart {outcome : Outcome}
    (h : s.respond outcome = some s') (happart : Apart hit s t) :
    ∃ t', t.respond outcome = some t' ∧ Apart hit s' t' := by
  rcases happart with ⟨w, batches, sent, rfl, hw, hsent⟩
  cases hcase : s.worker with
  | answering batch =>
      have hsame : w = .answering batch := by
        rw [hcase] at hw
        cases hw with
        | same _ => rfl
      subst hsame
      simp only [respond, hcase, Option.some.injEq] at h
      subst h
      exact ⟨_, rfl, .sending (answer batch outcome),
        batches ++ [(batch, outcome)], sent, rfl, .sending (.refl hit _), hsent⟩
  | _ => simp [respond, hcase] at h

theorem Service.Apart.asked (happart : Apart hit s t) : t.asked = s.asked := by
  rcases happart with ⟨w, batches, sent, rfl, hw, -⟩
  unfold Service.asked dress
  cases hcase : s.worker with
  | sending rest =>
      rw [hcase] at hw
      cases hw with
      | same _ => rfl
      | sending hrest => rfl
  | _ =>
      rw [hcase] at hw
      cases hw with
      | same _ => rfl

theorem Service.step_apart (hstep : s.Step cfg responder e s')
    (happart : Apart hit s t) :
    ∃ t', t.Step cfg responder e t' ∧ Apart hit s' t' := by
  rcases hstep with ⟨hstep, hpermitted⟩
  cases e with
  | work =>
      rcases work_apart hstep happart with ⟨t', hstep', happart'⟩
      exact ⟨t', ⟨hstep', trivial⟩, happart'⟩
  | expire =>
      rcases expire_apart hstep happart with ⟨t', hstep', happart'⟩
      exact ⟨t', ⟨hstep', trivial⟩, happart'⟩
  | respond outcome =>
      rcases respond_apart hstep happart with ⟨t', hstep', happart'⟩
      refine ⟨t', ⟨hstep', ?_⟩, happart'⟩
      unfold Event.Permitted at hpermitted ⊢
      rw [happart.asked]
      exact hpermitted
  | _ =>
      rcases happart with ⟨w, batches, sent, rfl, hw, hsent⟩
      rcases quiet_dress hstep rfl hw.stopped_iff with ⟨hstep', hworker, hsame⟩
      refine ⟨s'.dress w batches sent, ⟨hstep', trivial⟩, w, batches, sent, rfl,
        ?_, ?_⟩
      · rw [hworker]
        exact hw
      · rw [hsame]
        exact hsent

theorem Service.Moved.batches_grow (hmoved : Moved cfg s e s') :
    s.batches <+: s'.batches := by
  cases hmoved with
  | responded hworker => exact List.prefix_append _ _
  | _ => exact List.prefix_rfl

/-- Had the responder answered one query of a batch otherwise, everybody else
would have received the same. -/
theorem Service.unseen_result {pre post : List Event}
    (hrun : Run (Step cfg responder) spawn
      (pre ++ .respond (.answered results) :: post) s)
    (hother : ∀ queries, responder queries (.answered results) →
      responder queries (.answered (results.set k result))) :
    ∃ batch t, (batch, .answered results) ∈ s.batches ∧
      Run (Step cfg responder) spawn
        (pre ++ .respond (.answered (results.set k result)) :: post) t ∧
      ∀ channel, (∀ job, batch[k]? = some job → job.reply ≠ channel) →
        t.received channel = s.received channel := by
  rcases hrun.split with ⟨s₁, hpre, hrest⟩
  cases hrest with
  | @cons _ s₂ _ _ _ hstep hpost =>
      rcases hstep with ⟨hstep, hpermitted⟩
      cases moved hstep with
      | closed hevent hworker => simp at hevent
      | @responded batch _ hworker =>
          have hmem : (batch, Outcome.answered results) ∈ s.batches := by
            apply hpost.invariant (P := fun t =>
              (batch, Outcome.answered results) ∈ t.batches)
            · exact List.mem_append_right _ (List.mem_singleton.mpr rfl)
            · intro s e s' hstep hmem
              exact (moved hstep.1).batches_grow.subset hmem
          have happart : Apart
              (fun c => ∃ job, batch[k]? = some job ∧ job.reply = c)
              { s₁ with
                worker := .sending (answer batch (.answered results))
                batches := s₁.batches ++ [(batch, .answered results)] }
              { s₁ with
                worker := .sending
                  (answer batch (.answered (results.set k result)))
                batches := s₁.batches ++
                  [(batch, .answered (results.set k result))] } :=
            ⟨_, _, s₁.sent, rfl, .sending sameBut_zip, .refl _ _⟩
          rcases hpost.mirror happart step_apart with ⟨t, hpost', happart'⟩
          have hstep' : s₁.Step cfg responder
              (.respond (.answered (results.set k result)))
              { s₁ with
                worker := .sending
                  (answer batch (.answered (results.set k result)))
                batches := s₁.batches ++
                  [(batch, .answered (results.set k result))] } := by
            constructor
            · simp only [step, respond, hworker]
            · exact hother _ hpermitted
          refine ⟨batch, t, hmem, hpre.append (.cons hstep' hpost'), ?_⟩
          intro channel hchannel
          rcases happart' with ⟨w, batches, sent, rfl, -, hsent⟩
          unfold received dress
          rw [hsent.lookup]
          rintro ⟨job, hjob, hreply⟩
          exact hchannel job hjob hreply

end Apart

end UsdtPir
