import UsdtPir.AccountedQueries

/-!
# Where replies come from

What the responder answers from changes between one batch and the next.  A reply
with bytes comes from what there was when its batch was answered, and the
response to a request is a good one exactly if its query has such a reply.
-/

namespace UsdtPir

open Machine

/-- A reply with bytes, and what it was made from. -/
structure Origin (D : Type) where
  reply : ℕ
  bytes : List UInt8
  source : D

section Origins

variable {D : Type}

def Origin.sent (o : Origin D) : ℕ × Reply :=
  (o.reply, .ok o.bytes)

def hasBytes : ℕ × Reply → Bool
  | (_, .ok _) => true
  | (_, .error _) => false

def originOf (source : D) : ℕ × Reply → Option (Origin D)
  | (id, .ok bytes) => some ⟨id, bytes, source⟩
  | (_, .error _) => none

/-- What an event of the endpoint adds. -/
def ApiEvent.origins (e : ApiEvent) (source : D) (api : Api) :
    List (Origin D) :=
  match e with
  | .respond _ => api.batcher.worker.unsent.filterMap (originOf source)
  | _ => []

def originFor (origins : List (Origin D)) (id : ℕ) : Option (Origin D) :=
  origins.find? fun o => o.reply == id

/-- For some source. -/
def OfAny {α β : Type} (relates : D → α → β → Prop) (a : α) (b : β) : Prop :=
  ∃ source, relates source a b

/-- `fetch` resolves with a good response. -/
def HttpResponse.ok (response : HttpResponse) : Bool :=
  200 ≤ response.status && response.status ≤ 299

variable {responder : D → List Query → Outcome → Prop}
    {answers : D → Query → Reply → Prop} {source : D} {o o' : Origin D}
    {origins : List (Origin D)} {id : ℕ}

theorem onePerQuery_ofAny
    (h : ∀ source, OnePerQuery (responder source) (answers source)) :
    OnePerQuery (OfAny responder) (OfAny answers) := by
  intro queries results hresponder
  obtain ⟨source, hresponder⟩ := hresponder
  exact (h source queries results hresponder).imp
    fun query reply hanswers => ⟨source, hanswers⟩

theorem map_sent_origins (source : D) (replies : List (ℕ × Reply)) :
    (replies.filterMap (originOf source)).map Origin.sent =
      replies.filter hasBytes := by
  induction replies with
  | nil => rfl
  | cons sent rest ih =>
      obtain ⟨id, reply⟩ := sent
      cases reply with
      | ok bytes => exact congrArg (List.cons (id, .ok bytes)) ih
      | error e => exact ih

theorem originOf_eq_some {sent : ℕ × Reply} :
    originOf source sent = some o ↔ sent = o.sent ∧ o.source = source := by
  obtain ⟨id, reply⟩ := sent
  obtain ⟨reply', bytes, source'⟩ := o
  cases reply with
  | ok bytes => simp [originOf, Origin.sent, and_assoc, eq_comm]
  | error e => simp [originOf, Origin.sent]

theorem ApiEvent.source_of_origins {e : ApiEvent} {api : Api}
    (ho : o ∈ e.origins source api) : o.source = source := by
  cases e with
  | respond outcome =>
      obtain ⟨sent, -, horigin⟩ := List.mem_filterMap.mp ho
      exact (originOf_eq_some.mp horigin).2
  | _ => cases ho

theorem originFor_some (h : originFor origins id = some o) :
    o ∈ origins ∧ o.reply = id :=
  ⟨List.mem_of_find?_eq_some h, by simpa using List.find?_some h⟩

theorem originFor_none (h : originFor origins id = none) (ho : o ∈ origins) :
    o.reply ≠ id := by
  have hne := List.find?_eq_none.mp h o ho
  simpa using hne

theorem originFor_append (origins new : List (Origin D)) (id : ℕ) :
    originFor (origins ++ new) id =
      (originFor origins id).or (originFor new id) :=
  List.find?_append

/-- The origins are those of the replies with bytes, and each was made for a
job that was accepted. -/
structure Service.Sourced (answers : D → Query → Reply → Prop)
    (origins : List (Origin D)) (s : Service) : Prop where
  replies : origins.map Origin.sent =
    (s.sent ++ s.worker.unsent).filter hasBytes
  made : ∀ o ∈ origins, ∃ job ∈ s.accepted, job.reply = o.reply ∧
    answers o.source job.query (.ok o.bytes)

/-- Only the responder makes replies. -/
theorem Service.Moved.replies {s s' : Service} {cfg : BatchConfig} {e : Event}
    (hmoved : Service.Moved cfg s e s')
    (hrespond : ∀ outcome, e ≠ .respond outcome) :
    s'.sent ++ s'.worker.unsent = s.sent ++ s.worker.unsent := by
  cases hmoved with
  | responded hworker => exact absurd rfl (hrespond _)
  | pooled hworker hqueue =>
      obtain ⟨hworker, -⟩ | hworker := hworker
      · simp [hworker, Worker.unsent]
      · simp [hworker, Worker.unsent]
  | closed hevent hworker =>
      obtain hworker | hworker := hworker
      · simp [hworker, Worker.unsent]
      · simp [hworker, Worker.unsent]
  | began hworker | halted hworker | dried hworker | replied hworker
  | rested hworker => simp [hworker, Worker.unsent]
  | _ => rfl

namespace Service.Sourced

variable {s s' : Service} {cfg : BatchConfig} {inner : Event} {batch : List Job}
    {outcome : Outcome}

theorem spawn : Sourced answers ([] : List (Origin D)) .spawn := by
  refine ⟨rfl, ?_⟩
  intro o ho
  cases ho

theorem mem_origins (h : s.Sourced answers origins) {id : ℕ}
    {bytes : List UInt8}
    (hsent : (id, .ok bytes) ∈ s.sent ++ s.worker.unsent) :
    ∃ o ∈ origins, o.reply = id ∧ o.bytes = bytes := by
  have hmem : ((id, .ok bytes) : ℕ × Reply) ∈ origins.map Origin.sent := by
    rw [h.replies, List.mem_filter]
    exact ⟨hsent, rfl⟩
  obtain ⟨o, ho, heq⟩ := List.mem_map.mp hmem
  cases heq
  exact ⟨o, ho, rfl, rfl⟩

/-- The replies go on their way, and nothing is answered. -/
theorem keep (h : s.Sourced answers origins)
    (hreplies : s'.sent ++ s'.worker.unsent = s.sent ++ s.worker.unsent)
    (haccepted : s.accepted ⊆ s'.accepted) : s'.Sourced answers origins := by
  constructor
  · rw [hreplies]
    exact h.replies
  · intro o ho
    obtain ⟨job, hjob, hmade⟩ := h.made o ho
    exact ⟨job, haccepted hjob, hmade⟩

/-- A batch is answered. -/
theorem respond (h : s.Sourced answers origins)
    (hone : OnePerQuery (responder source) (answers source))
    (hworker : s.worker = .answering batch)
    (hresponder : responder source (batch.map Job.query) outcome)
    (haccepted : ∀ job ∈ batch, job ∈ s.accepted) :
    Sourced answers
      (origins ++ (answer batch outcome).filterMap (originOf source))
      { s with
        worker := .sending (answer batch outcome)
        batches := s.batches ++ [(batch, outcome)] } := by
  have hown := forall₂_answer hone hresponder
  constructor
  · have hbefore := h.replies
    rw [hworker] at hbefore
    dsimp only [Worker.unsent] at hbefore ⊢
    rw [List.map_append, hbefore, map_sent_origins, List.append_nil,
      List.filter_append]
  · intro o ho
    obtain hold | hnew := List.mem_append.mp ho
    · exact h.made o hold
    · obtain ⟨sent, hsent, horigin⟩ := List.mem_filterMap.mp hnew
      obtain ⟨rfl, rfl⟩ := originOf_eq_some.mp horigin
      obtain ⟨job, hjob, hchannel, hreply⟩ := Api.forall₂_mem_right hown hsent
      refine ⟨job, haccepted job hjob, hchannel.symm, ?_⟩
      cases outcome with
      | answered results => exact hreply
      | failed e => cases hreply
      | panicked e => cases hreply

/-- What the batcher does by itself, but for asking the responder. -/
theorem moved (h : s.Sourced answers origins)
    (hmoved : Service.Moved cfg s inner s')
    (hrespond : ∀ outcome, inner ≠ .respond outcome) :
    s'.Sourced answers origins :=
  h.keep (hmoved.replies hrespond) hmoved.extends.accepted

/-- No channel has two replies. -/
theorem channels_nodup {any : List Query → Outcome → Prop}
    {anyAnswers : Query → Reply → Prop} (hsound : s.Sound cfg any)
    (hone : OnePerQuery any anyAnswers) :
    ((s.sent ++ s.worker.unsent).map Prod.fst).Nodup := by
  have hall := forall₂_delivered hone (fun b hb => hb) hsound.faithful
  rw [← hsound.ordered.replies] at hall
  have hchannels : (s.batches.flatMap Prod.fst).map Job.reply =
      (s.sent ++ s.worker.unsent).map Prod.fst := by
    rw [← List.forall₂_eq_eq_eq, List.forall₂_map_left_iff,
      List.forall₂_map_right_iff]
    exact hall.imp fun job sent hown => hown.1.symm
  have hnodup : (s.accepted.map Job.reply).Nodup :=
    (List.nodup_append.mp hsound.distinct).1
  rw [hsound.ordered.in_turn, List.map_append, List.map_append] at hnodup
  rw [← hchannels]
  exact (List.nodup_append.mp (List.nodup_append.mp hnodup).1).1

/-- An origin is the one that is found for its channel. -/
theorem originFor_reply (h : s.Sourced answers origins)
    (hnodup : ((s.sent ++ s.worker.unsent).map Prod.fst).Nodup)
    (ho : o ∈ origins) : originFor origins o.reply = some o := by
  have hchannels : (origins.map Origin.reply).Nodup := by
    have hsub : ((s.sent ++ s.worker.unsent).filter hasBytes).Sublist
        (s.sent ++ s.worker.unsent) :=
      List.filter_sublist
    rw [← h.replies] at hsub
    have hfirst := hnodup.sublist (hsub.map Prod.fst)
    rw [List.map_map] at hfirst
    exact hfirst
  cases hfound : originFor origins o.reply with
  | none => exact absurd rfl (originFor_none hfound ho)
  | some other =>
      obtain ⟨hother, hreply⟩ := originFor_some hfound
      rw [List.inj_on_of_nodup_map hchannels hother ho hreply]

end Service.Sourced

namespace Api

variable {cfg : BatchConfig} {limit : RateLimit} {api api' : Api}
    {e : ApiEvent} {response : HttpResponse}

theorem Step.ofAny (h : api.Step cfg (responder source) e api') :
    api.Step cfg (OfAny responder) e api' := by
  refine ⟨h.1, ?_⟩
  intro inner hserved
  have hpermitted := h.2 inner hserved
  cases inner with
  | respond outcome => exact ⟨source, hpermitted⟩
  | _ => trivial

theorem sourced_step (hone : OnePerQuery (responder source) (answers source))
    (hsound : api.batcher.Sound cfg (OfAny responder))
    (hstep : api.Step cfg (responder source) e api')
    (h : api.batcher.Sourced answers origins) :
    api'.batcher.Sourced answers (origins ++ e.origins source api') := by
  have hquiet : e.origins source api' = [] →
      api'.batcher.Sourced answers origins →
      api'.batcher.Sourced answers (origins ++ e.origins source api') := by
    intro hnone hkept
    rw [hnone, List.append_nil]
    exact hkept
  cases Api.moved hstep.1 with
  | @served e inner batcher hserved hinner =>
      cases e with
      | respond outcome =>
          cases hserved
          have hpermitted := hstep.2 (.respond outcome) rfl
          cases Service.moved hinner with
          | closed hevent => simp at hevent
          | @responded batch outcome hworker =>
              dsimp only [Event.Permitted] at hpermitted
              rw [Service.asked, hworker] at hpermitted
              apply h.respond hone hworker hpermitted
              intro job hjob
              rw [hsound.ordered.in_turn, hworker]
              exact List.mem_append_left _ (List.mem_append_right _ hjob)
      | tick =>
          cases hserved
          apply hquiet rfl (h.moved (Service.moved hinner) _)
          intro outcome heq
          cases heq
      | work =>
          cases hserved
          apply hquiet rfl (h.moved (Service.moved hinner) _)
          intro outcome heq
          cases heq
      | expire =>
          cases hserved
          apply hquiet rfl (h.moved (Service.moved hinner) _)
          intro outcome heq
          cases heq
      | _ => cases hserved
  | queued hopen hruns hroom =>
      exact hquiet rfl (h.keep rfl (List.subset_append_left _ _))
  | _ => exact hquiet rfl (h.keep rfl (List.Subset.refl _))

variable {any : List Query → Outcome → Prop} {anyAnswers : Query → Reply → Prop}

/-- A good response has the bytes of the reply to its query. -/
theorem origin_of_ok (hsound : api.Sound cfg any anyAnswers limit)
    (hsourced : api.batcher.Sourced answers origins)
    (hmem : (id, response) ∈ api.responses) (hok : response.ok = true) :
    ∃ o ∈ origins, o.reply = id ∧ response = .blob o.bytes := by
  obtain ⟨request, -, hwhy⟩ := hsound.explained id response hmem
  cases hwhy with
  | oversized hlarge => cases hok
  | empty hbody => cases hok
  | limited hcheck => cases hok
  | overloaded hrefused => cases hok
  | @answered reply hjob hsent hown =>
      cases reply with
      | error e => cases hok
      | ok bytes =>
          obtain ⟨o, ho, hreply, rfl⟩ :=
            hsourced.mem_origins (List.mem_append_left _ hsent)
          exact ⟨o, ho, hreply, rfl⟩

/-- A query whose reply has bytes is not turned away. -/
theorem blob_of_origin (hone : OnePerQuery any anyAnswers)
    (hsound : api.Sound cfg any anyAnswers limit)
    (hsourced : api.batcher.Sourced answers origins) (ho : o ∈ origins)
    (hmem : (o.reply, response) ∈ api.responses) : response = .blob o.bytes := by
  obtain ⟨job, hjob, hreply, -⟩ := hsourced.made o ho
  have htaken : o.reply ∈ api.batcher.taken :=
    mem_taken.mpr (.inl ⟨job, hjob, hreply⟩)
  obtain ⟨c, hc, hid, hletIn⟩ := hsound.staged.paid o.reply htaken
  obtain ⟨asked, hasked, hfits, -⟩ := hsound.metered.checked c hc
  obtain ⟨request, hreceived, hwhy⟩ := hsound.explained o.reply response hmem
  rw [hid, hreceived, Option.some.injEq] at hasked
  rw [← hasked] at hfits
  cases hwhy with
  | oversized hlarge => exact absurd hfits.2 (Nat.not_le_of_lt hlarge)
  | empty hbody => exact absurd hbody hfits.1
  | limited hcheck =>
      have hsame := checked_inj hsound.metered.distinct hc hcheck hid
      rw [hsame] at hletIn
      cases hletIn
  | overloaded hrefused =>
      have hdisjoint := (List.nodup_append.mp hsound.batcher.distinct).2.2
      exact absurd hreply (hdisjoint _ (List.mem_map_of_mem hjob) _
        (List.mem_map_of_mem hrefused))
  | @answered reply _ hsent hown =>
      have hchannels := Service.Sourced.channels_nodup hsound.batcher hone
      have hmade : o.sent ∈ api.batcher.sent ++ api.batcher.worker.unsent := by
        have hmapped : o.sent ∈ origins.map Origin.sent :=
          List.mem_map_of_mem ho
        rw [hsourced.replies] at hmapped
        exact List.mem_of_mem_filter hmapped
      have hsame := List.inj_on_of_nodup_map hchannels hmade
        (List.mem_append_left _ hsent) rfl
      cases hsame
      rfl

end Api

end Origins

end UsdtPir
