import UsdtPir.AccountedQueries

/-!
# Nobody waits for long

What is ahead of a query when it gets into the queue is bounded: a full queue,
and the batch in hand or what is left to send of the last one.  So the worker
comes to its reply after a number of steps that depends on the configuration
alone, whatever the other clients do.
-/

namespace UsdtPir

open Machine

namespace Service

variable {cfg : BatchConfig} {responder : List Query → Outcome → Prop}
    {answers : Query → Reply → Prop} {s s' : Service} {e : Event}
    {events : List Event} {k : ℕ}

/-- The replies of a batch are as many as its jobs. -/
theorem Sound.unsent_le (h : s.Sound cfg responder)
    (hone : OnePerQuery responder answers) (hstep : s.Step cfg responder e s')
    (hle : s.worker.unsent.length ≤ cfg.max) :
    s'.worker.unsent.length ≤ cfg.max := by
  cases moved hstep.1 with
  | @responded batch outcome hworker =>
      have hhand := h.ordered.in_hand
      have hpermitted := hstep.2
      rw [hworker] at hhand
      simp only [Event.Permitted, asked, hworker] at hpermitted
      have hlength := (forall₂_answer hone hpermitted).length_eq
      simp only [Worker.unsent, ← hlength]
      exact hhand.2
  | replied hworker =>
      rw [hworker] at hle
      exact Nat.le_of_succ_le hle
  | began hworker hqueue => exact Nat.zero_le _
  | halted hworker hqueue hsenders => exact Nat.zero_le _
  | pooled hworker hqueue => exact Nat.zero_le _
  | dried hworker hroom => exact Nat.zero_le _
  | closed hevent hworker => exact Nat.zero_le _
  | rested hworker => exact Nat.zero_le _
  | _ => exact hle

/-- The steps of the worker within which a reply is sent. -/
def patience (cfg : BatchConfig) : ℕ :=
  (max cfg.queueDepth 1 + cfg.max + 1) * (2 * cfg.max + 4)

theorem Sound.hand_le (h : s.Sound cfg responder)
    (hle : s.worker.unsent.length ≤ cfg.max) :
    s.worker.hand.length + s.worker.unsent.length ≤ cfg.max := by
  have hhand := h.ordered.in_hand
  cases hworker : s.worker with
  | collecting batch deadline =>
      rw [hworker] at hhand
      exact hhand.2
  | waiting batch deadline =>
      rw [hworker] at hhand
      exact Nat.le_of_lt hhand.2
  | answering batch =>
      rw [hworker] at hhand
      exact hhand.2
  | sending rest =>
      rw [hworker] at hle
      simpa [Worker.hand] using hle
  | idle => exact Nat.zero_le _
  | stopped => exact Nat.zero_le _

theorem stepsLeft_le (worker : Worker) (limit : ℕ) :
    worker.stepsLeft limit ≤ 2 * limit + 3 := by
  cases worker with
  | sending rest =>
      cases rest with
      | nil => exact Nat.le_refl _
      | cons next rest => exact Nat.zero_le _
  | _ =>
      simp only [Worker.stepsLeft]
      omega

/-- Whatever has been accepted is answered within that many steps. -/
theorem Sound.answered_within (h : s.Sound cfg responder)
    (hone : OnePerQuery responder answers) (hmax : 1 ≤ cfg.max)
    (hle : s.worker.unsent.length ≤ cfg.max) (hk : k < s.accepted.length)
    (hrun : Run (Step cfg responder) s events s')
    (hcount : patience cfg ≤ events.countP Event.isWork) :
    k < s'.sent.length := by
  have hsound : Run (fun s e s' => s.Step cfg responder e s' ∧
      s.Sound cfg responder) s events s' := by
    apply hrun.within h
    intro s e s' hstep hs
    exact hs.step hmax hstep
  have hlt : s.stepsUntil cfg k < events.countP Event.isWork := by
    have hlength := h.accepted_length hone
    have hhand := h.hand_le hle
    have hqueue := h.bounded
    have hleft := stepsLeft_le s.worker cfg.max
    have hahead : k + 1 - s.sent.length ≤ max cfg.queueDepth 1 + cfg.max := by
      omega
    calc
      s.stepsUntil cfg k ≤
          (max cfg.queueDepth 1 + cfg.max) * (2 * cfg.max + 4) +
            (2 * cfg.max + 3) :=
        Nat.add_le_add (Nat.mul_le_mul_right _ hahead) hleft
      _ < (max cfg.queueDepth 1 + cfg.max) * (2 * cfg.max + 4) +
            (2 * cfg.max + 4) :=
        Nat.add_lt_add_left (Nat.lt_succ_self _) _
      _ = patience cfg := (Nat.succ_mul _ _).symm
      _ ≤ events.countP Event.isWork := hcount
  refine hsound.reached (G := fun t => k < t.sent.length) hlt ?_ ?_
  · rintro s e s' ⟨hstep, -⟩ hsent
    exact Nat.lt_of_lt_of_le hsent (moved hstep.1).sent_le
  · rintro s e s' ⟨hstep, hs⟩
    exact hs.spends hone hmax hstep

theorem Moved.accepted_grows (hmoved : Moved cfg s e s') :
    s.accepted <+: s'.accepted := by
  cases hmoved with
  | accepted hfresh hruns hroom => exact List.prefix_append _ _
  | _ => exact List.prefix_refl _

end Service

namespace Api

variable {cfg : BatchConfig} {responder : List Query → Outcome → Prop}
    {answers : Query → Reply → Prop} {limit : RateLimit} {api api' : Api}
    {e : ApiEvent} {events : List ApiEvent} {id : ℕ} {request : HttpRequest}

/-- A run of the endpoint is a run of its batcher. -/
theorem Sound.run_batcher (h : api.Sound cfg responder answers limit)
    (hone : OnePerQuery responder answers) (hmax : 1 ≤ cfg.max)
    (hrun : Run (Step cfg responder) api events api') :
    ∃ es, Run (Service.Step cfg responder) api.batcher es api'.batcher ∧
      es.countP Event.isWork = events.countP ApiEvent.isWork := by
  induction hrun with
  | nil api => exact ⟨[], .nil _, rfl⟩
  | @cons api next api' e events hstep hrest ih =>
      obtain ⟨es, hfirst, hcount⟩ := moved_batcher h.tracked h.staged hstep
      obtain ⟨es', hlater, hcount'⟩ := ih (h.step hone hmax hstep)
      refine ⟨es ++ es', hfirst.append hlater, ?_⟩
      rw [List.countP_append, hcount, hcount', ← List.countP_append]
      rfl

/-- A handler that waits waits until it returns or is dropped. -/
theorem Moved.waits (hmoved : Moved cfg api e api') (htracked : api.Tracked)
    (hopen : api.handlers.lookup id = some ⟨request, .wait⟩) :
    api'.handlers.lookup id = some ⟨request, .wait⟩ ∨ id ∉ api'.handlers := by
  have herase : ∀ other, (api.handlers.erase other).lookup id =
      some ⟨request, .wait⟩ ∨ id ∉ api.handlers.erase other := by
    intro other
    by_cases heq : id = other
    · right
      rw [AList.mem_erase]
      exact fun hkept => hkept.1 heq
    · left
      rw [AList.lookup_erase_ne heq]
      exact hopen
  have hinsert : ∀ other handler, other ≠ id →
      (api.handlers.insert other handler).lookup id =
        some ⟨request, .wait⟩ := by
    intro other handler hne
    rw [AList.lookup_insert_ne (Ne.symm hne)]
    exact hopen
  cases hmoved with
  | @received other asked hfresh =>
      left
      apply hinsert
      intro heq
      subst heq
      exact hfresh (mem_of_lookup (htracked.known _ _ hopen))
  | oversized hother hlarge => exact herase _
  | empty hother hbody => exact herase _
  | limited hother hfits hcheck => exact herase _
  | @admitted other now asked limiter hother hfits hcheck =>
      left
      apply hinsert
      intro heq
      subst heq
      rw [hopen] at hother
      cases hother
  | @queued other asked hother hruns hroom =>
      left
      apply hinsert
      intro heq
      subst heq
      rw [hopen] at hother
      cases hother
  | refused hother hwhy => exact herase _
  | replied hother hsent => exact herase _
  | dropped hother hsent habandoned => exact herase _
  | hungUp hother => exact herase _
  | served hserved hinner => exact .inl hopen

/-- Nobody takes up a request again. -/
theorem Moved.stays_closed (hmoved : Moved cfg api e api')
    (hreceived : id ∈ api.received) (hclosed : id ∉ api.handlers) :
    id ∈ api'.received ∧ id ∉ api'.handlers := by
  have herase : ∀ other, id ∉ api.handlers.erase other := by
    intro other
    rw [AList.mem_erase]
    exact fun hkept => hclosed hkept.2
  have hinsert : ∀ {other handler held}, api.handlers.lookup other = some held →
      id ∉ api.handlers.insert other handler := by
    intro other handler held hother
    rw [AList.mem_insert]
    intro hopen
    obtain hself | hheld := hopen
    · exact hclosed (hself ▸ mem_of_lookup hother)
    · exact hclosed hheld
  cases hmoved with
  | received hfresh =>
      dsimp only [Api.receive]
      rw [AList.mem_insert, AList.mem_insert]
      refine ⟨.inr hreceived, ?_⟩
      intro hopen
      obtain hself | hheld := hopen
      · exact hfresh (hself ▸ hreceived)
      · exact hclosed hheld
  | oversized hother hlarge => exact ⟨hreceived, herase _⟩
  | empty hother hbody => exact ⟨hreceived, herase _⟩
  | limited hother hfits hcheck => exact ⟨hreceived, herase _⟩
  | admitted hother hfits hcheck => exact ⟨hreceived, hinsert hother⟩
  | queued hother hruns hroom => exact ⟨hreceived, hinsert hother⟩
  | refused hother hwhy => exact ⟨hreceived, herase _⟩
  | replied hother hsent => exact ⟨hreceived, herase _⟩
  | dropped hother hsent habandoned => exact ⟨hreceived, herase _⟩
  | hungUp hother => exact ⟨hreceived, herase _⟩
  | served hserved hinner => exact ⟨hreceived, hclosed⟩

theorem waits_run (htracked : api.Tracked)
    (hopen : api.handlers.lookup id = some ⟨request, .wait⟩)
    (hrun : Run (Step cfg responder) api events api') :
    api'.handlers.lookup id = some ⟨request, .wait⟩ ∨ id ∉ api'.handlers := by
  have hreceived : id ∈ api.received :=
    mem_of_lookup (htracked.known _ _ hopen)
  have hboth : api'.Tracked ∧ id ∈ api'.received ∧
      (api'.handlers.lookup id = some ⟨request, .wait⟩ ∨
        id ∉ api'.handlers) := by
    apply hrun.invariant (P := fun api => api.Tracked ∧ id ∈ api.received ∧
      (api.handlers.lookup id = some ⟨request, .wait⟩ ∨ id ∉ api.handlers))
    · exact ⟨htracked, hreceived, .inl hopen⟩
    · rintro s e s' hstep ⟨hs, hknown, hstage⟩
      have hmoved := moved hstep.1
      refine ⟨hs.moved hmoved, ?_⟩
      obtain hopen | hclosed := hstage
      · obtain ⟨asked, hasked⟩ := Option.isSome_iff_exists.mp
          (AList.lookup_isSome.mpr hknown)
        exact ⟨mem_of_lookup (hmoved.lookup_received hasked),
          hmoved.waits hs hopen⟩
      · obtain ⟨hknown, hclosed⟩ := hmoved.stays_closed hknown hclosed
        exact ⟨hknown, .inr hclosed⟩
  exact hboth.2.2

theorem unsent_le_run (hone : OnePerQuery responder answers)
    (hmax : 1 ≤ cfg.max)
    (hrun : Run (Step cfg responder) (.new limit) events api) :
    api.batcher.worker.unsent.length ≤ cfg.max := by
  obtain ⟨es, hbatcher, -⟩ :=
    (sound_new cfg responder answers limit).run_batcher hone hmax hrun
  have hboth : api.batcher.Sound cfg responder ∧
      api.batcher.worker.unsent.length ≤ cfg.max := by
    apply hbatcher.invariant (P := fun s => s.Sound cfg responder ∧
      s.worker.unsent.length ≤ cfg.max)
    · exact ⟨Service.sound_spawn cfg responder, Nat.zero_le _⟩
    · rintro s e s' hstep ⟨hs, hle⟩
      exact ⟨hs.step hmax hstep, hs.unsent_le hone hstep hle⟩
  exact hboth.2

end Api

/-- A handler that waits can return after so many steps of the worker, unless it
has returned before or the client has hung up, and it returns the reply. -/
theorem waiting_query_answered {cfg : BatchConfig}
    {responder : List Query → Outcome → Prop} {answers : Query → Reply → Prop}
    {limit : RateLimit} {events later : List ApiEvent} {api api' : Api}
    {id : ℕ} {request : HttpRequest}
    (hone : OnePerQuery responder answers) (hmax : 1 ≤ cfg.max)
    (hrun : Run (Api.Step cfg responder) (.new limit) events api)
    (hopen : api.handlers.lookup id = some ⟨request, .wait⟩)
    (hlater : Run (Api.Step cfg responder) api later api')
    (hcount : Service.patience cfg ≤ later.countP ApiEvent.isWork) :
    id ∉ api'.handlers ∨ ∃ reply,
      (∃ b ∈ api'.batcher.batches, ⟨request.body, id⟩ ∈ b.1 ∧
        OwnReply answers b.2 ⟨request.body, id⟩ reply) ∧
      api'.step cfg (.reply id) = some (api'.respond id (.ofReply reply)) := by
  have hsound := (Api.sound_new cfg responder answers limit).run hone hmax hrun
  have hsound' := hsound.run hone hmax hlater
  obtain hwaits | hclosed := Api.waits_run hsound.tracked hopen hlater
  · right
    obtain ⟨es, hbatcher, hwork⟩ := hsound.run_batcher hone hmax hlater
    have hjob := hsound.staged.waiting id request hopen
    obtain ⟨k, hk, hget⟩ := List.mem_iff_getElem.mp hjob
    rw [← hwork] at hcount
    have hsent := hsound.batcher.answered_within hone hmax
      (Api.unsent_le_run hone hmax hrun) hk hbatcher hcount
    have hgrows : api.batcher.accepted <+: api'.batcher.accepted := by
      apply hbatcher.invariant (P := fun s =>
        api.batcher.accepted <+: s.accepted) (List.prefix_refl _)
      intro s e s' hstep hs
      exact hs.trans (Service.moved hstep.1).accepted_grows
    obtain ⟨done, rest, haccepted, hdelivered⟩ :=
      hsound'.batcher.delivered hone
    have hkdone : k < done.length := by
      rw [hdelivered.length_eq]
      exact hsent
    have hsame : done[k] = ⟨request.body, id⟩ := by
      have hleft : api'.batcher.accepted[k]? = some done[k] := by
        rw [haccepted, List.getElem?_append_left hkdone,
          List.getElem?_eq_getElem hkdone]
      obtain ⟨more, hmore⟩ := hgrows
      have hright : api'.batcher.accepted[k]? = some ⟨request.body, id⟩ := by
        rw [← hmore, List.getElem?_append_left hk,
          List.getElem?_eq_getElem hk, hget]
      rw [hleft, Option.some.injEq] at hright
      exact hright
    obtain ⟨hchannel, hreply⟩ :=
      (List.forall₂_iff_get.mp hdelivered).2 k hkdone hsent
    rw [List.get_eq_getElem, List.get_eq_getElem, hsame] at hchannel hreply
    have hmem : id ∈ api'.batcher.sent.map Prod.fst :=
      List.mem_map.mpr ⟨_, List.getElem_mem hsent, hchannel⟩
    cases hlookup : api'.batcher.sent.lookup id with
    | none =>
        rw [List.lookup_eq_none_iff] at hlookup
        obtain ⟨sent, hany, hid⟩ := List.mem_map.mp hmem
        have hne := hlookup sent hany
        rw [hid, bne_self_eq_false] at hne
        cases hne
    | some reply =>
        obtain ⟨sents, more, hsents, -⟩ :=
          List.lookup_eq_some_iff.mp hlookup
        have hany : (id, reply) ∈ api'.batcher.sent := by
          rw [hsents]
          exact List.mem_append_right _ List.mem_cons_self
        have hown := Api.delivered_of_sent hsound'.batcher hone
          (hsound'.staged.waiting id request hwaits) hany
        refine ⟨reply, hown.2, ?_⟩
        simp only [Api.step, hwaits, Api.reply, hlookup]
  · exact .inl hclosed

/-! ### A client that does not fetch its reply -/

namespace Unhurried

open Pooled (echo onePerQuery_echo)

def config : BatchConfig :=
  ⟨0, 1, 1⟩

def asking (id : ℕ) : List ApiEvent :=
  [.receive id ⟨.v4 1, [7]⟩, .check id 0, .submit id]

def answering : List ApiEvent :=
  [.work, .work, .respond (.failed "busy"), .work, .work]

def others : List ApiEvent :=
  answering ++ [1, 2, 3].flatMap fun id => asking id ++ answering

def start : Api :=
  ((Api.new ⟨0, 1⟩).after config (asking 0)).getD (.new ⟨0, 1⟩)

def finish : Api :=
  (start.after config others).getD start

theorem waiting_query_answered_unhurried :
    0 ∉ finish.handlers ∨ ∃ reply,
      (∃ b ∈ finish.batcher.batches, ⟨[7], 0⟩ ∈ b.1 ∧
        OwnReply (fun query reply => reply = .ok query) b.2 ⟨[7], 0⟩ reply) ∧
      finish.step config (.reply 0) =
        some (finish.respond 0 (.ofReply reply)) := by
  have hstart : Run (Api.Step config echo) (.new ⟨0, 1⟩) (asking 0) start :=
    Api.run_of_after (eq_some_getD (by decide +kernel)) (by simp [asking])
  have hothers : Run (Api.Step config echo) start others finish := by
    apply Api.run_of_after (eq_some_getD (by decide +kernel))
    intro outcome hmem queries
    have hfailed : outcome = .failed "busy" := by
      simpa [others, answering, asking] using hmem
    exact .inr ⟨"busy", hfailed⟩
  have hopen : start.handlers.lookup 0 = some ⟨⟨.v4 1, [7]⟩, .wait⟩ := by
    decide +kernel
  exact waiting_query_answered onePerQuery_echo (by decide) hstart hopen
    hothers (by decide)

end Unhurried

end UsdtPir
