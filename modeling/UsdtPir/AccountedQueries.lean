import UsdtPir.HashMaps
import UsdtPir.QueryEndpoint
import UsdtPir.ServedOnce

/-!
# No query is lost or answered twice

A run of the endpoint is a run of its batcher, in which every handler joins as
a sender and leaves again.  Every request is with its handler, answered once or
gone, every response says what happened to its query, and nothing gets into the
queue that the limiter has not let in.
-/

namespace UsdtPir

open Machine

/-- What a batcher has done stays done. -/
structure Service.Extends (s s' : Service) : Prop where
  accepted : s.accepted ⊆ s'.accepted
  refused : s.refused ⊆ s'.refused
  batches : s.batches ⊆ s'.batches
  sent : s.sent ⊆ s'.sent

namespace Service

variable {cfg : BatchConfig} {answers : Query → Reply → Prop} {s s' : Service}
    {e : Event}

theorem Extends.refl (s : Service) : s.Extends s :=
  ⟨List.Subset.refl _, List.Subset.refl _, List.Subset.refl _,
    List.Subset.refl _⟩

theorem Moved.extends (hmoved : Moved cfg s e s') : s.Extends s' := by
  cases hmoved with
  | accepted hfresh hruns hroom =>
      exact { Extends.refl s with accepted := List.subset_append_left _ _ }
  | refused hfresh hwhy =>
      exact { Extends.refl s with refused := List.subset_append_left _ _ }
  | responded hworker =>
      exact { Extends.refl s with batches := List.subset_append_left _ _ }
  | replied hworker =>
      exact { Extends.refl s with sent := List.subset_append_left _ _ }
  | _ =>
      exact ⟨List.Subset.refl _, List.Subset.refl _, List.Subset.refl _,
        List.Subset.refl _⟩

theorem Delivered.mono {job : Job} {sent : ℕ × Reply}
    (h : s.Delivered answers job sent) (hextends : s.Extends s') :
    s'.Delivered answers job sent := by
  obtain ⟨hchannel, b, hb, hjob, hown⟩ := h
  exact ⟨hchannel, b, hextends.batches hb, hjob, hown⟩

/-- The worker and the clock leave the clients alone. -/
theorem Moved.inner (hmoved : Moved cfg s e s')
    (hinner : e = .tick ∨ e.isWork = true) :
    s'.senders = s.senders ∧ s'.gone = s.gone ∧ s'.accepted = s.accepted ∧
      s'.refused = s.refused := by
  cases hmoved with
  | accepted hfresh hruns hroom => simp [Event.isWork] at hinner
  | refused hfresh hwhy => simp [Event.isWork] at hinner
  | departed reply => simp [Event.isWork] at hinner
  | joined hsenders => simp [Event.isWork] at hinner
  | left hsenders => simp [Event.isWork] at hinner
  | _ => exact ⟨rfl, rfl, rfl, rfl⟩

/-- As long as there is a sender the worker goes on. -/
theorem Moved.running (hmoved : Moved cfg s e s') (hsenders : s.senders ≠ 0)
    (h : s.worker ≠ .stopped) : s'.worker ≠ .stopped := by
  cases hmoved with
  | halted hworker hqueue hnone => exact absurd hnone hsenders
  | began hworker hqueue => exact Worker.noConfusion
  | pooled hworker hqueue => exact Worker.noConfusion
  | dried hworker hroom => exact Worker.noConfusion
  | closed hevent hworker => exact Worker.noConfusion
  | responded hworker => exact Worker.noConfusion
  | replied hworker => exact Worker.noConfusion
  | rested hworker => exact Worker.noConfusion
  | _ => exact h

end Service

/-- How a request came to its response. -/
inductive Api.Explained (cfg : BatchConfig) (answers : Query → Reply → Prop)
    (api : Api) (id : ℕ) (request : HttpRequest) : HttpResponse → Prop
  | oversized (hlarge : MAX_QUERY_BYTES < request.body.length) :
      Explained cfg answers api id request .tooLarge
  | empty (hbody : request.body = []) :
      Explained cfg answers api id request (.problem 400 "empty query")
  | limited {now : Instant} {wait : Duration}
      (hcheck : ⟨id, ⟨request.peer, now⟩, .error wait⟩ ∈ api.checks) :
      Explained cfg answers api id request (.tooMany wait)
  | overloaded
      (hrefused : ⟨id, .overloaded, max cfg.queueDepth 1⟩ ∈
        api.batcher.refused) :
      Explained cfg answers api id request
        (.problem 503 "server is at capacity; retry shortly")
  | answered {reply : Reply}
      (hjob : ⟨request.body, id⟩ ∈ api.batcher.accepted)
      (hsent : (id, reply) ∈ api.batcher.sent)
      (hown : api.batcher.Delivered answers ⟨request.body, id⟩ (id, reply)) :
      Explained cfg answers api id request (.ofReply reply)

/-- The handlers at work, and what is over. -/
structure Api.Tracked (api : Api) : Prop where
  senders : api.batcher.senders = api.handlers.keys.length + 1
  running : api.batcher.worker ≠ .stopped
  known : ∀ id handler, api.handlers.lookup id = some handler →
    api.received.lookup id = some handler.request
  closed : ∀ id ∈ api.responses.map Prod.fst,
    id ∉ api.handlers ∧ id ∈ api.received
  once : (api.responses.map Prod.fst).Nodup
  settled : ∀ id ∈ api.received, id ∈ api.handlers ∨
    id ∈ api.responses.map Prod.fst ∨ id ∈ api.batcher.gone

/-- A request that the limiter has let in. -/
def Api.LetIn (api : Api) (id : ℕ) : Prop :=
  ∃ c ∈ api.checks, c.id = id ∧ c.result = .ok ()

/-- The limiter has been asked once for each request that got so far. -/
structure Api.Metered (limit : RateLimit) (limiter : RateLimiter)
    (checks : List Checked) (received : HashMap ℕ HttpRequest) : Prop where
  limiter : limiter = (RateLimiter.new limit).after (checks.map Checked.call)
  results : (RateLimiter.new limit).answered (checks.map Checked.call) =
    checks.map fun c => (c.call, c.result)
  checked : ∀ c ∈ checks, ∃ request, received.lookup c.id = some request ∧
    request.Fits ∧ c.call.client = request.peer
  distinct : (checks.map Checked.id).Nodup

/-- Where a request is, and what has been done for it. -/
structure Api.Staged (api : Api) : Prop where
  paid : ∀ id ∈ api.batcher.taken, api.LetIn id
  own : ∀ job ∈ api.batcher.accepted, ∃ request,
    api.received.lookup job.reply = some request ∧ job.query = request.body
  unasked : ∀ id request, api.handlers.lookup id = some ⟨request, .check⟩ →
    id ∉ api.checks.map Checked.id
  unqueued : ∀ id request, api.handlers.lookup id = some ⟨request, .submit⟩ →
    id ∉ api.batcher.taken ∧ api.LetIn id
  waiting : ∀ id request, api.handlers.lookup id = some ⟨request, .wait⟩ →
    ⟨request.body, id⟩ ∈ api.batcher.accepted

namespace Api

section Steps

variable {cfg : BatchConfig} {responder : List Query → Outcome → Prop}
    {answers : Query → Reply → Prop} {limit : RateLimit} {api api' : Api}
    {e : ApiEvent} {events : List ApiEvent} {id : ℕ} {request : HttpRequest}
    {response : HttpResponse}

/-! ## The handlers -/

theorem tracked_new (limit : RateLimit) : (new limit).Tracked := by
  constructor
  · rfl
  · intro h
    cases h
  · intro id handler h
    cases h
  · intro id h
    cases h
  · exact List.nodup_nil
  · intro id h
    cases h

theorem Tracked.respond {handler : Handler} (h : api.Tracked)
    (hopen : api.handlers.lookup id = some handler) :
    (api.respond id response).Tracked := by
  have hmem : id ∈ api.handlers := mem_of_lookup hopen
  constructor
  · have hless := length_keys_erase_of_mem hmem
    have hsenders := h.senders
    dsimp only [Api.respond]
    omega
  · exact h.running
  · intro other handler hother
    exact h.known other handler (lookup_of_erase hother).2
  · intro other hother
    dsimp only [Api.respond] at hother ⊢
    rw [List.map_append, List.mem_append] at hother
    rw [AList.mem_erase]
    obtain hbefore | hself := hother
    · obtain ⟨hclosed, hreceived⟩ := h.closed other hbefore
      exact ⟨fun hkept => hclosed hkept.2, hreceived⟩
    · rw [List.map_singleton, List.mem_singleton] at hself
      subst hself
      exact ⟨fun hkept => hkept.1 rfl, mem_of_lookup (h.known _ _ hopen)⟩
  · dsimp only [Api.respond]
    rw [List.map_append, List.map_singleton, List.nodup_append]
    refine ⟨h.once, List.nodup_singleton _, ?_⟩
    intro other hother self hself heq
    rw [List.mem_singleton] at hself
    subst heq hself
    exact (h.closed _ hother).1 hmem
  · intro other hother
    dsimp only [Api.respond] at hother ⊢
    rw [List.map_append, List.mem_append, AList.mem_erase]
    by_cases hself : other = id
    · subst hself
      exact .inr (.inl (.inr List.mem_cons_self))
    · obtain hopen | hanswered | hgone := h.settled other hother
      · exact .inl ⟨hself, hopen⟩
      · exact .inr (.inl (.inl hanswered))
      · exact .inr (.inr hgone)

theorem Tracked.enter {stage stage' : QueryStage} (h : api.Tracked)
    (hopen : api.handlers.lookup id = some ⟨request, stage⟩) :
    (api.enter id request stage').Tracked := by
  have hmem : id ∈ api.handlers := mem_of_lookup hopen
  have hsame : ∀ other, other ∈ (api.enter id request stage').handlers ↔
      other ∈ api.handlers := by
    intro other
    dsimp only [Api.enter]
    rw [AList.mem_insert]
    constructor
    · intro hother
      obtain hself | hheld := hother
      · exact hself ▸ hmem
      · exact hheld
    · exact .inr
  constructor
  · dsimp only [Api.enter]
    rw [length_keys_insert_of_mem hmem]
    exact h.senders
  · exact h.running
  · intro other held hother
    obtain ⟨rfl, rfl⟩ | ⟨-, hheld⟩ := lookup_of_insert hother
    · exact h.known other ⟨request, stage⟩ hopen
    · exact h.known other held hheld
  · intro other hother
    rw [hsame]
    exact h.closed other hother
  · exact h.once
  · intro other hother
    rw [hsame]
    exact h.settled other hother

theorem Tracked.receive (h : api.Tracked) (hfresh : id ∉ api.received) :
    (api.receive id request).Tracked := by
  have hnew : id ∉ api.handlers := by
    intro hmem
    obtain ⟨handler, hopen⟩ := Option.isSome_iff_exists.mp
      (AList.lookup_isSome.mpr hmem)
    exact hfresh (mem_of_lookup (h.known id handler hopen))
  constructor
  · dsimp only [Api.receive]
    rw [length_keys_insert_of_not_mem hnew, h.senders]
  · exact h.running
  · intro other handler hother
    dsimp only [Api.receive]
    obtain ⟨rfl, rfl⟩ | ⟨hne, hheld⟩ := lookup_of_insert hother
    · exact AList.lookup_insert _
    · rw [AList.lookup_insert_ne hne]
      exact h.known other handler hheld
  · intro other hother
    obtain ⟨hclosed, hreceived⟩ := h.closed other hother
    dsimp only [Api.receive]
    rw [AList.mem_insert, AList.mem_insert]
    refine ⟨?_, .inr hreceived⟩
    intro hopen
    obtain hself | hheld := hopen
    · exact hfresh (hself ▸ hreceived)
    · exact hclosed hheld
  · exact h.once
  · intro other hother
    dsimp only [Api.receive] at hother ⊢
    rw [AList.mem_insert] at hother ⊢
    obtain hself | hheld := hother
    · exact .inl (.inl hself)
    · obtain hopen | hrest := h.settled other hheld
      · exact .inl (.inr hopen)
      · exact .inr hrest

theorem Tracked.hangUp (h : api.Tracked) (hopen : id ∈ api.handlers) :
    (api.hangUp id).Tracked := by
  constructor
  · have hless := length_keys_erase_of_mem hopen
    have hsenders := h.senders
    dsimp only [Api.hangUp]
    omega
  · exact h.running
  · intro other handler hother
    exact h.known other handler (lookup_of_erase hother).2
  · intro other hother
    obtain ⟨hclosed, hreceived⟩ := h.closed other hother
    dsimp only [Api.hangUp]
    rw [AList.mem_erase]
    exact ⟨fun hkept => hclosed hkept.2, hreceived⟩
  · exact h.once
  · intro other hother
    dsimp only [Api.hangUp] at hother ⊢
    rw [AList.mem_erase]
    by_cases hself : other = id
    · subst hself
      exact .inr (.inr List.mem_cons_self)
    · obtain hheld | hanswered | hgone := h.settled other hother
      · exact .inl ⟨hself, hheld⟩
      · exact .inr (.inl hanswered)
      · exact .inr (.inr (List.mem_cons_of_mem _ hgone))

theorem ApiEvent.served_inner {inner : Event} (h : e.served = some inner) :
    inner = .tick ∨ inner.isWork = true := by
  cases e with
  | tick =>
      cases h
      exact .inl rfl
  | work =>
      cases h
      exact .inr rfl
  | expire =>
      cases h
      exact .inr rfl
  | respond outcome =>
      cases h
      exact .inr rfl
  | _ => cases h

theorem Tracked.moved (h : api.Tracked) (hmoved : Moved cfg api e api') :
    api'.Tracked := by
  cases hmoved with
  | received hfresh => exact h.receive hfresh
  | oversized hopen hlarge => exact h.respond hopen
  | empty hopen hbody => exact h.respond hopen
  | limited hopen hfits hcheck =>
      apply Tracked.respond
      · exact ⟨h.senders, h.running, h.known, h.closed, h.once, h.settled⟩
      · exact hopen
  | admitted hopen hfits hcheck =>
      apply Tracked.enter
      · exact ⟨h.senders, h.running, h.known, h.closed, h.once, h.settled⟩
      · exact hopen
  | queued hopen hruns hroom =>
      apply Tracked.enter
      · exact ⟨h.senders, h.running, h.known, h.closed, h.once, h.settled⟩
      · exact hopen
  | refused hopen hwhy =>
      apply Tracked.respond
      · exact ⟨h.senders, h.running, h.known, h.closed, h.once, h.settled⟩
      · exact hopen
  | replied hopen hsent => exact h.respond hopen
  | dropped hopen hsent habandoned => exact h.respond hopen
  | hungUp hopen => exact h.hangUp hopen
  | served hserved hinner =>
      have hmoved := Service.moved hinner
      obtain ⟨hsenders, hgone, -, -⟩ :=
        hmoved.inner (ApiEvent.served_inner hserved)
      have hsome : api.batcher.senders ≠ 0 := by
        rw [h.senders]
        exact Nat.succ_ne_zero _
      constructor
      · exact hsenders.trans h.senders
      · exact hmoved.running hsome h.running
      · exact h.known
      · exact h.closed
      · exact h.once
      · intro id hid
        dsimp only at hid ⊢
        rw [hgone]
        exact h.settled id hid

/-! ## The limiter -/

theorem lookup_insert_of_fresh {κ υ : Type} [DecidableEq κ] {m : HashMap κ υ}
    {k l : κ} {v w : υ} (hfresh : k ∉ m) (h : m.lookup l = some w) :
    (m.insert k v).lookup l = some w := by
  have hne : l ≠ k := fun heq => hfresh (heq ▸ mem_of_lookup h)
  rw [AList.lookup_insert_ne hne]
  exact h

theorem metered_new (limit : RateLimit) : Metered limit (.new limit) [] ∅ := by
  refine ⟨rfl, rfl, ?_, List.nodup_nil⟩
  intro c hc
  cases hc

variable {limiter limiter' : RateLimiter} {checks : List Checked}
    {received : HashMap ℕ HttpRequest} {now : Instant}
    {result : Except Duration Unit}

theorem Metered.receive (h : Metered limit limiter checks received)
    (hfresh : id ∉ received) :
    Metered limit limiter checks (received.insert id request) := by
  refine ⟨h.limiter, h.results, ?_, h.distinct⟩
  intro c hc
  obtain ⟨asked, hasked, hrest⟩ := h.checked c hc
  exact ⟨asked, lookup_insert_of_fresh hfresh hasked, hrest⟩

theorem Metered.check (h : Metered limit limiter checks received)
    (hreceived : received.lookup id = some request)
    (hfits : request.Fits) (hnew : id ∉ checks.map Checked.id)
    (hcheck : limiter.checkAt request.peer now = (result, limiter')) :
    Metered limit limiter'
      (checks ++ [⟨id, ⟨request.peer, now⟩, result⟩]) received := by
  have hafter := h.limiter
  constructor
  · rw [List.map_append, RateLimiter.after, List.foldl_append]
    rw [RateLimiter.after] at hafter
    rw [← hafter, List.map_singleton, List.foldl_cons, List.foldl_nil, hcheck]
  · rw [List.map_append, RateLimiter.answered_append, ← hafter, h.results,
      List.map_append, List.map_singleton, RateLimiter.answered,
      RateLimiter.answered, hcheck]
    rfl
  · intro c hc
    rw [List.mem_append, List.mem_singleton] at hc
    obtain hbefore | hself := hc
    · exact h.checked c hbefore
    · subst hself
      exact ⟨request, hreceived, hfits, rfl⟩
  · rw [List.map_append, List.map_singleton, List.nodup_append]
    refine ⟨h.distinct, List.nodup_singleton _, ?_⟩
    intro other hother self hself heq
    rw [List.mem_singleton] at hself
    subst heq hself
    exact hnew hother

theorem Metered.moved
    (h : Metered limit api.limiter api.checks api.received)
    (htracked : api.Tracked) (hstaged : api.Staged)
    (hmoved : Moved cfg api e api') :
    Metered limit api'.limiter api'.checks api'.received := by
  cases hmoved with
  | received hfresh => exact h.receive hfresh
  | limited hopen hfits hcheck =>
      exact h.check (htracked.known _ _ hopen) hfits
        (hstaged.unasked _ _ hopen) hcheck
  | admitted hopen hfits hcheck =>
      exact h.check (htracked.known _ _ hopen) hfits
        (hstaged.unasked _ _ hopen) hcheck
  | _ => exact h

/-! ## The stages -/

theorem mem_taken {s : Service} : id ∈ s.taken ↔
    (∃ job ∈ s.accepted, job.reply = id) ∨ ∃ r ∈ s.refused, r.reply = id := by
  unfold Service.taken
  rw [List.mem_append, List.mem_map, List.mem_map]

theorem LetIn.mono (h : api.LetIn id) (hchecks : api.checks ⊆ api'.checks) :
    api'.LetIn id := by
  obtain ⟨c, hc, hcheck⟩ := h
  exact ⟨c, hchecks hc, hcheck⟩

theorem LetIn.asked (h : api.LetIn id) : id ∈ api.checks.map Checked.id := by
  obtain ⟨c, hc, hid, -⟩ := h
  exact List.mem_map.mpr ⟨c, hc, hid⟩

theorem staged_new (limit : RateLimit) : (new limit).Staged := by
  constructor
  · intro id h
    cases h
  · intro job h
    cases h
  · intro id request h
    cases h
  · intro id request h
    cases h
  · intro id request h
    cases h

/-- A handler that leaves takes nothing with it. -/
theorem Staged.leave {batcher : Service} {responses : List (ℕ × HttpResponse)}
    (h : api.Staged) (haccepted : batcher.accepted = api.batcher.accepted)
    (hrefused : batcher.refused = api.batcher.refused) :
    Staged { api with
      batcher
      handlers := api.handlers.erase id
      responses } := by
  have htaken : batcher.taken = api.batcher.taken := by
    unfold Service.taken
    rw [haccepted, hrefused]
  constructor
  · dsimp only
    rw [htaken]
    exact h.paid
  · dsimp only
    rw [haccepted]
    exact h.own
  · intro other asked hother
    exact h.unasked other asked (lookup_of_erase hother).2
  · intro other asked hother
    dsimp only
    rw [htaken]
    exact h.unqueued other asked (lookup_of_erase hother).2
  · intro other asked hother
    dsimp only
    rw [haccepted]
    exact h.waiting other asked (lookup_of_erase hother).2

theorem Staged.respond (h : api.Staged) : (api.respond id response).Staged :=
  h.leave rfl rfl

theorem Staged.receive (h : api.Staged)
    (hmetered : Metered limit api.limiter api.checks api.received)
    (hfresh : id ∉ api.received) : (api.receive id request).Staged := by
  constructor
  · exact h.paid
  · intro job hjob
    obtain ⟨asked, hasked, hquery⟩ := h.own job hjob
    exact ⟨asked, lookup_insert_of_fresh hfresh hasked, hquery⟩
  · intro other asked hother
    obtain ⟨rfl, -⟩ | ⟨-, hheld⟩ := lookup_of_insert hother
    · intro hmem
      obtain ⟨c, hc, hid⟩ := List.mem_map.mp hmem
      obtain ⟨known, hknown, -⟩ := hmetered.checked c hc
      rw [hid] at hknown
      exact hfresh (mem_of_lookup hknown)
    · exact h.unasked other asked hheld
  · intro other asked hother
    obtain ⟨-, hnew⟩ | ⟨-, hheld⟩ := lookup_of_insert hother
    · cases hnew
    · exact h.unqueued other asked hheld
  · intro other asked hother
    obtain ⟨-, hnew⟩ | ⟨-, hheld⟩ := lookup_of_insert hother
    · cases hnew
    · exact h.waiting other asked hheld

/-- A call for a request that has no handler any more. -/
theorem Staged.charge {c : Checked} (h : api.Staged)
    (hclosed : c.id ∉ api.handlers) :
    Staged { api with
      limiter
      checks := api.checks ++ [c] } := by
  have hmono : api.checks ⊆ api.checks ++ [c] := List.subset_append_left _ _
  constructor
  · intro other hother
    exact (h.paid other hother).mono hmono
  · exact h.own
  · intro other asked hother
    dsimp only
    rw [List.map_append, List.map_singleton, List.mem_append,
      List.mem_singleton]
    intro hasked
    obtain hbefore | hself := hasked
    · exact h.unasked other asked hother hbefore
    · exact hclosed (hself ▸ mem_of_lookup hother)
  · intro other asked hother
    obtain ⟨hfree, hletIn⟩ := h.unqueued other asked hother
    exact ⟨hfree, hletIn.mono hmono⟩
  · exact h.waiting

theorem Staged.admit (h : api.Staged)
    (hopen : api.handlers.lookup id = some ⟨request, .check⟩) :
    Staged (enter { api with
      limiter
      checks := api.checks ++ [⟨id, ⟨request.peer, now⟩, .ok ()⟩] }
        id request .submit) := by
  have hmono : api.checks ⊆ api.checks ++
      [⟨id, ⟨request.peer, now⟩, .ok ()⟩] :=
    List.subset_append_left _ _
  have hnew : id ∉ api.checks.map Checked.id := h.unasked id request hopen
  constructor
  · intro other hother
    exact (h.paid other hother).mono hmono
  · exact h.own
  · intro other asked hother
    obtain ⟨-, hsubmit⟩ | ⟨hne, hheld⟩ := lookup_of_insert hother
    · cases hsubmit
    · dsimp only [enter]
      rw [List.map_append, List.map_singleton, List.mem_append,
        List.mem_singleton]
      intro hasked
      obtain hbefore | hself := hasked
      · exact h.unasked other asked hheld hbefore
      · exact hne hself
  · intro other asked hother
    obtain ⟨rfl, -⟩ | ⟨-, hheld⟩ := lookup_of_insert hother
    · constructor
      · intro htaken
        exact hnew (h.paid other htaken).asked
      · exact ⟨_, List.mem_append_right _ List.mem_cons_self, rfl, rfl⟩
    · obtain ⟨hfree, hletIn⟩ := h.unqueued other asked hheld
      exact ⟨hfree, hletIn.mono hmono⟩
  · intro other asked hother
    obtain ⟨-, hsubmit⟩ | ⟨-, hheld⟩ := lookup_of_insert hother
    · cases hsubmit
    · exact h.waiting other asked hheld

theorem Staged.queue (h : api.Staged) (htracked : api.Tracked)
    (hopen : api.handlers.lookup id = some ⟨request, .submit⟩) :
    Staged (enter { api with
      batcher := { api.batcher with
        queue := api.batcher.queue ++ [⟨request.body, id⟩]
        accepted := api.batcher.accepted ++ [⟨request.body, id⟩] } }
          id request .wait) := by
  have hknown : api.received.lookup id = some request :=
    htracked.known _ _ hopen
  obtain ⟨hfree, hletIn⟩ := h.unqueued id request hopen
  constructor
  · intro other hother
    rw [mem_taken] at hother
    obtain ⟨job, hjob, hid⟩ | hrefused := hother
    · rw [enter, List.mem_append, List.mem_singleton] at hjob
      obtain hbefore | hself := hjob
      · exact h.paid other (mem_taken.mpr (.inl ⟨job, hbefore, hid⟩))
      · subst hself
        exact hid ▸ hletIn
    · exact h.paid other (mem_taken.mpr (.inr hrefused))
  · intro job hjob
    rw [enter, List.mem_append, List.mem_singleton] at hjob
    obtain hbefore | hself := hjob
    · exact h.own job hbefore
    · subst hself
      exact ⟨request, hknown, rfl⟩
  · intro other asked hother
    obtain ⟨-, hwait⟩ | ⟨-, hheld⟩ := lookup_of_insert hother
    · cases hwait
    · exact h.unasked other asked hheld
  · intro other asked hother
    obtain ⟨-, hwait⟩ | ⟨hne, hheld⟩ := lookup_of_insert hother
    · cases hwait
    · obtain ⟨hstill, hother'⟩ := h.unqueued other asked hheld
      refine ⟨?_, hother'⟩
      rw [mem_taken]
      intro htaken
      obtain ⟨job, hjob, hid⟩ | hrefused := htaken
      · rw [enter, List.mem_append, List.mem_singleton] at hjob
        obtain hbefore | hself := hjob
        · exact hstill (mem_taken.mpr (.inl ⟨job, hbefore, hid⟩))
        · subst hself
          exact hne hid.symm
      · exact hstill (mem_taken.mpr (.inr hrefused))
  · intro other asked hother
    dsimp only [enter]
    obtain ⟨rfl, heq⟩ | ⟨-, hheld⟩ := lookup_of_insert hother
    · cases heq
      exact List.mem_append_right _ List.mem_cons_self
    · exact List.mem_append_left _ (h.waiting other asked hheld)

/-- A refusal of a request that has no handler any more. -/
theorem Staged.refuse {r : Refusal} (h : api.Staged) (hletIn : api.LetIn r.reply)
    (hclosed : r.reply ∉ api.handlers) :
    Staged { api with
      batcher := { api.batcher with refused := api.batcher.refused ++ [r] } } := by
  constructor
  · intro other hother
    rw [mem_taken] at hother
    obtain haccepted | ⟨refusal, hrefusal, hid⟩ := hother
    · exact h.paid other (mem_taken.mpr (.inl haccepted))
    · rw [List.mem_append, List.mem_singleton] at hrefusal
      obtain hbefore | hself := hrefusal
      · exact h.paid other (mem_taken.mpr (.inr ⟨refusal, hbefore, hid⟩))
      · subst hself
        exact hid ▸ hletIn
  · exact h.own
  · exact h.unasked
  · intro other asked hother
    obtain ⟨hstill, hother'⟩ := h.unqueued other asked hother
    refine ⟨?_, hother'⟩
    rw [mem_taken]
    intro htaken
    obtain haccepted | ⟨refusal, hrefusal, hid⟩ := htaken
    · exact hstill (mem_taken.mpr (.inl haccepted))
    · rw [List.mem_append, List.mem_singleton] at hrefusal
      obtain hbefore | hself := hrefusal
      · exact hstill (mem_taken.mpr (.inr ⟨refusal, hbefore, hid⟩))
      · subst hself
        exact hclosed (hid ▸ mem_of_lookup hother)
  · exact h.waiting

theorem closed_respond : id ∉ (api.respond id response).handlers := by
  dsimp only [Api.respond]
  rw [AList.mem_erase]
  intro hkept
  exact hkept.1 rfl

theorem Staged.moved (h : api.Staged) (htracked : api.Tracked)
    (hmetered : Metered limit api.limiter api.checks api.received)
    (hmoved : Moved cfg api e api') : api'.Staged := by
  cases hmoved with
  | received hfresh => exact h.receive hmetered hfresh
  | oversized hopen hlarge => exact h.respond
  | empty hopen hbody => exact h.respond
  | @limited id now request limiter wait hopen hfits hcheck =>
      have hgone : (api.respond id (.tooMany wait)).Staged := h.respond
      exact hgone.charge (c := ⟨id, ⟨request.peer, now⟩, .error wait⟩)
        closed_respond
  | admitted hopen hfits hcheck => exact h.admit hopen
  | queued hopen hruns hroom => exact h.queue htracked hopen
  | @refused id request why hopen hwhy =>
      have hgone : (api.respond id (.problem 503 why.message)).Staged :=
        h.respond
      exact hgone.refuse (r := ⟨id, why, api.batcher.queue.length⟩)
        (h.unqueued id request hopen).2 closed_respond
  | replied hopen hsent => exact h.respond
  | dropped hopen hsent habandoned => exact h.respond
  | hungUp hopen => exact h.leave rfl rfl
  | served hserved hinner =>
      obtain ⟨-, -, haccepted, hrefused⟩ :=
        (Service.moved hinner).inner (ApiEvent.served_inner hserved)
      constructor
      · dsimp only
        unfold Service.taken
        rw [haccepted, hrefused]
        exact h.paid
      · dsimp only
        rw [haccepted]
        exact h.own
      · exact h.unasked
      · dsimp only
        unfold Service.taken
        rw [haccepted, hrefused]
        exact h.unqueued
      · dsimp only
        rw [haccepted]
        exact h.waiting

/-! ## The batcher -/

/-- The batcher goes through some steps of its own. -/
theorem moved_batcher (htracked : api.Tracked) (hstaged : api.Staged)
    (hstep : api.Step cfg responder e api') :
    ∃ es, Run (Service.Step cfg responder) api.batcher es api'.batcher ∧
      es.countP Event.isWork = [e].countP ApiEvent.isWork := by
  have hsenders : 0 < api.batcher.senders := by
    rw [htracked.senders]
    exact Nat.succ_pos _
  have hleave : Service.Step cfg responder api.batcher .leave
      { api.batcher with senders := api.batcher.senders - 1 } :=
    ⟨if_pos hsenders, trivial⟩
  cases Api.moved hstep.1 with
  | received hfresh =>
      exact ⟨[.join], .cons ⟨if_pos hsenders, trivial⟩ (.nil _), rfl⟩
  | oversized hopen hlarge => exact ⟨[.leave], .cons hleave (.nil _), rfl⟩
  | empty hopen hbody => exact ⟨[.leave], .cons hleave (.nil _), rfl⟩
  | limited hopen hfits hcheck =>
      exact ⟨[.leave], .cons hleave (.nil _), rfl⟩
  | admitted hopen hfits hcheck => exact ⟨[], .nil _, rfl⟩
  | @queued id request hopen hruns hroom =>
      obtain ⟨hfree, -⟩ := hstaged.unqueued id request hopen
      refine ⟨[.submit ⟨request.body, id⟩], .cons ⟨?_, trivial⟩ (.nil _), rfl⟩
      rw [Service.step, if_pos ⟨hsenders, hfree⟩, Service.submit,
        Service.trySend, if_neg hruns, if_pos hroom]
      rfl
  | @refused id request why hopen hwhy =>
      obtain ⟨hfree, -⟩ := hstaged.unqueued id request hopen
      have hrefuse : Service.Step cfg responder api.batcher
          (.submit ⟨request.body, id⟩) { api.batcher with
            refused := api.batcher.refused ++
              [⟨id, why, api.batcher.queue.length⟩] } := by
        refine ⟨?_, trivial⟩
        rw [Service.step, if_pos ⟨hsenders, hfree⟩, Service.submit,
          Service.trySend]
        obtain ⟨rfl, hstopped⟩ | ⟨rfl, hfull⟩ := hwhy
        · rw [if_pos hstopped]
        · rw [if_neg htracked.running, if_neg (Nat.not_lt.mpr hfull)]
      exact ⟨[.submit ⟨request.body, id⟩, .leave],
        .cons hrefuse (.cons ⟨if_pos hsenders, trivial⟩ (.nil _)), rfl⟩
  | replied hopen hsent => exact ⟨[.leave], .cons hleave (.nil _), rfl⟩
  | dropped hopen hsent habandoned =>
      exact ⟨[.leave], .cons hleave (.nil _), rfl⟩
  | @hungUp id hopen =>
      have hdepart : Service.Step cfg responder api.batcher (.depart id)
          { api.batcher with gone := id :: api.batcher.gone } :=
        ⟨rfl, trivial⟩
      exact ⟨[.depart id, .leave],
        .cons hdepart (.cons ⟨if_pos hsenders, trivial⟩ (.nil _)), rfl⟩
  | @served e inner batcher hserved hinner =>
      refine ⟨[inner], .cons ⟨hinner, hstep.2 inner hserved⟩ (.nil _), ?_⟩
      simp [ApiEvent.isWork, hserved]

/-! ## The responses -/

theorem Explained.mono (h : api.Explained cfg answers id request response)
    (hchecks : api.checks ⊆ api'.checks)
    (hextends : api.batcher.Extends api'.batcher) :
    api'.Explained cfg answers id request response := by
  cases h with
  | oversized hlarge => exact .oversized hlarge
  | empty hbody => exact .empty hbody
  | limited hcheck => exact .limited (hchecks hcheck)
  | overloaded hrefused => exact .overloaded (hextends.refused hrefused)
  | answered hjob hsent hown =>
      exact .answered (hextends.accepted hjob) (hextends.sent hsent)
        (hown.mono hextends)

theorem Moved.checks_subset (hmoved : Moved cfg api e api') :
    api.checks ⊆ api'.checks := by
  cases hmoved with
  | limited hopen hfits hcheck => exact List.subset_append_left _ _
  | admitted hopen hfits hcheck => exact List.subset_append_left _ _
  | _ => exact List.Subset.refl _

theorem Moved.lookup_received (hmoved : Moved cfg api e api')
    (h : api.received.lookup id = some request) :
    api'.received.lookup id = some request := by
  cases hmoved with
  | received hfresh => exact lookup_insert_of_fresh hfresh h
  | _ => exact h

theorem extends_of_run {s s' : Service} {es : List Event}
    (hrun : Run (Service.Step cfg responder) s es s') : s.Extends s' := by
  apply hrun.invariant (P := s.Extends) (Service.Extends.refl s)
  intro t e t' hstep h
  have hnext := (Service.moved hstep.1).extends
  exact ⟨fun _ hmem => hnext.accepted (h.accepted hmem),
    fun _ hmem => hnext.refused (h.refused hmem),
    fun _ hmem => hnext.batches (h.batches hmem),
    fun _ hmem => hnext.sent (h.sent hmem)⟩

theorem forall₂_mem_right {α β : Type} {R : α → β → Prop} {as : List α}
    {bs : List β} {b : β} (h : List.Forall₂ R as bs) (hb : b ∈ bs) :
    ∃ a ∈ as, R a b := by
  induction h with
  | nil => cases hb
  | cons hfirst hrest ih =>
      obtain heq | hlater := List.mem_cons.mp hb
      · exact ⟨_, List.mem_cons_self, heq ▸ hfirst⟩
      · obtain ⟨a, ha, hrelated⟩ := ih hlater
        exact ⟨a, List.mem_cons_of_mem _ ha, hrelated⟩

/-- What was sent on a channel is the reply of the job that waits there. -/
theorem delivered_of_sent {s : Service} {job : Job} {reply : Reply}
    (h : s.Sound cfg responder) (hone : OnePerQuery responder answers)
    (hjob : job ∈ s.accepted) (hsent : (job.reply, reply) ∈ s.sent) :
    s.Delivered answers job (job.reply, reply) := by
  obtain ⟨done, rest, haccepted, hdelivered⟩ := h.delivered hone
  obtain ⟨other, hother, hown⟩ := forall₂_mem_right hdelivered hsent
  have hnodup : (s.accepted.map Job.reply).Nodup :=
    (List.nodup_append.mp h.distinct).1
  have hmem : other ∈ s.accepted := by
    rw [haccepted]
    exact List.mem_append_left _ hother
  have hsame : other = job :=
    List.inj_on_of_nodup_map hnodup hmem hjob hown.1.symm
  exact hsame ▸ hown

/-- A job that was accepted is on its way, or its reply has been sent. -/
theorem not_abandoned (h : api.batcher.Sound cfg responder)
    (hone : OnePerQuery responder answers) {job : Job}
    (hjob : job ∈ api.batcher.accepted)
    (hsent : job.reply ∉ api.batcher.sent.map Prod.fst) :
    api.abandoned job.reply = false := by
  have hall := forall₂_delivered hone (fun b hb => hb) h.faithful
  rw [← h.ordered.replies] at hall
  rw [h.ordered.in_turn, List.mem_append, List.mem_append] at hjob
  unfold abandoned
  rw [decide_eq_false_iff_not, not_not, List.mem_append, List.map_append,
    List.mem_append]
  obtain (hdone | hhand) | hqueue := hjob
  · right
    obtain ⟨sent, hmem, hown⟩ := forall₂_mem_right hall.flip hdone
    rw [List.mem_append] at hmem
    obtain hbefore | hstill := hmem
    · exact absurd (hown.1 ▸ List.mem_map_of_mem hbefore) hsent
    · exact hown.1 ▸ List.mem_map_of_mem hstill
  · exact .inl (.inr (List.mem_map_of_mem hhand))
  · exact .inl (.inl (List.mem_map_of_mem hqueue))

/-! ## Runs -/

/-- Everything that holds of the endpoint at any time. -/
structure Sound (cfg : BatchConfig) (responder : List Query → Outcome → Prop)
    (answers : Query → Reply → Prop) (limit : RateLimit) (api : Api) :
    Prop where
  batcher : api.batcher.Sound cfg responder
  tracked : api.Tracked
  metered : Metered limit api.limiter api.checks api.received
  staged : api.Staged
  explained : ∀ id response, (id, response) ∈ api.responses → ∃ request,
    api.received.lookup id = some request ∧
      api.Explained cfg answers id request response

theorem sound_new (cfg : BatchConfig) (responder : List Query → Outcome → Prop)
    (answers : Query → Reply → Prop) (limit : RateLimit) :
    Sound cfg responder answers limit (new limit) := by
  refine ⟨Service.sound_spawn cfg responder, tracked_new limit,
    metered_new limit, staged_new limit, ?_⟩
  intro id response h
  cases h

/-- The response that a step gives, if it gives one. -/
theorem Sound.responds (h : api.Sound cfg responder answers limit)
    (hone : OnePerQuery responder answers) (hmoved : Moved cfg api e api')
    (hmem : (id, response) ∈ api'.responses) :
    (id, response) ∈ api.responses ∨ ∃ request,
      api.received.lookup id = some request ∧
        api'.Explained cfg answers id request response := by
  have hlast : ∀ {entry : ℕ × HttpResponse},
      (id, response) ∈ api.responses ++ [entry] →
        (id, response) ∈ api.responses ∨ (id, response) = entry := by
    intro entry hentry
    rw [List.mem_append, List.mem_singleton] at hentry
    exact hentry
  cases hmoved with
  | oversized hopen hlarge =>
      obtain hbefore | hnew := hlast hmem
      · exact .inl hbefore
      · cases hnew
        exact .inr ⟨_, h.tracked.known _ _ hopen, .oversized hlarge⟩
  | empty hopen hbody =>
      obtain hbefore | hnew := hlast hmem
      · exact .inl hbefore
      · cases hnew
        exact .inr ⟨_, h.tracked.known _ _ hopen, .empty hbody⟩
  | limited hopen hfits hcheck =>
      obtain hbefore | hnew := hlast hmem
      · exact .inl hbefore
      · cases hnew
        exact .inr ⟨_, h.tracked.known _ _ hopen,
          .limited (List.mem_append_right _ List.mem_cons_self)⟩
  | refused hopen hwhy =>
      obtain hbefore | hnew := hlast hmem
      · exact .inl hbefore
      · cases hnew
        obtain ⟨-, hstopped⟩ | ⟨rfl, hfull⟩ := hwhy
        · exact absurd hstopped h.tracked.running
        · right
          refine ⟨_, h.tracked.known _ _ hopen, .overloaded ?_⟩
          rw [← Nat.le_antisymm h.batcher.bounded hfull]
          exact List.mem_append_right _ List.mem_cons_self
  | @replied id request reply hopen hsent =>
      obtain hbefore | hnew := hlast hmem
      · exact .inl hbefore
      · cases hnew
        have hjob := h.staged.waiting _ _ hopen
        obtain ⟨sents, later, hsents, -⟩ := List.lookup_eq_some_iff.mp hsent
        have hmem : (id, reply) ∈ api.batcher.sent := by
          rw [hsents]
          exact List.mem_append_right _ List.mem_cons_self
        have hown := delivered_of_sent h.batcher hone hjob hmem
        exact .inr ⟨_, h.tracked.known _ _ hopen, .answered hjob hmem hown⟩
  | @dropped id request hopen hsent habandoned =>
      have hnone : id ∉ api.batcher.sent.map Prod.fst := by
        intro hany
        obtain ⟨sent, hmem, hid⟩ := List.mem_map.mp hany
        rw [List.lookup_eq_none_iff] at hsent
        have hne := hsent sent hmem
        rw [hid, bne_self_eq_false] at hne
        cases hne
      rw [not_abandoned h.batcher hone (h.staged.waiting _ _ hopen) hnone]
        at habandoned
      cases habandoned
  | received hfresh => exact .inl hmem
  | admitted hopen hfits hcheck => exact .inl hmem
  | queued hopen hruns hroom => exact .inl hmem
  | hungUp hopen => exact .inl hmem
  | served hserved hinner => exact .inl hmem

theorem Sound.step (h : api.Sound cfg responder answers limit)
    (hone : OnePerQuery responder answers) (hmax : 1 ≤ cfg.max)
    (hstep : api.Step cfg responder e api') :
    api'.Sound cfg responder answers limit := by
  have hmoved := Api.moved hstep.1
  obtain ⟨es, hrun, -⟩ := moved_batcher h.tracked h.staged hstep
  constructor
  · exact h.batcher.run hmax hrun
  · exact h.tracked.moved hmoved
  · exact h.metered.moved h.tracked h.staged hmoved
  · exact h.staged.moved h.tracked h.metered hmoved
  · intro id response hmem
    obtain hbefore | ⟨request, hreceived, hwhy⟩ :=
      h.responds hone hmoved hmem
    · obtain ⟨request, hreceived, hwhy⟩ := h.explained id response hbefore
      exact ⟨request, hmoved.lookup_received hreceived,
        hwhy.mono hmoved.checks_subset (extends_of_run hrun)⟩
    · exact ⟨request, hmoved.lookup_received hreceived, hwhy⟩

theorem Sound.run (h : api.Sound cfg responder answers limit)
    (hone : OnePerQuery responder answers) (hmax : 1 ≤ cfg.max)
    (hrun : Run (Step cfg responder) api events api') :
    api'.Sound cfg responder answers limit :=
  hrun.invariant h fun hstep hs => hs.step hone hmax hstep

end Steps

end Api

/-! ## The endpoint as its clients see it -/

/-- What is true of the endpoint after any run. -/
structure Api.AnswersOnce (cfg : BatchConfig) (answers : Query → Reply → Prop)
    (api : Api) : Prop where
  running : api.batcher.worker ≠ .stopped
  once : (api.responses.map Prod.fst).Nodup
  settled : ∀ id ∈ api.received,
    (id ∈ api.handlers ∧ id ∉ api.responses.map Prod.fst) ∨
      id ∈ api.responses.map Prod.fst ∨ id ∈ api.batcher.gone
  explained : ∀ id response, (id, response) ∈ api.responses → ∃ request,
    api.received.lookup id = some request ∧
      api.Explained cfg answers id request response
  distinct : (api.checks.map Checked.id).Nodup
  free : ∀ id request, api.received.lookup id = some request →
    ¬ request.Fits → id ∉ api.checks.map Checked.id
  turned_away : ∀ c ∈ api.checks, c.result ≠ .ok () → c.id ∉ api.batcher.taken
  let_in : ∀ job ∈ api.batcher.accepted, ∃ c ∈ api.checks, ∃ request,
    c.id = job.reply ∧ c.result = .ok () ∧
      api.received.lookup job.reply = some request ∧
        c.call.client = request.peer ∧ job.query = request.body

theorem Api.checked_inj {api : Api} {c d : Checked}
    (h : (api.checks.map Checked.id).Nodup) (hc : c ∈ api.checks)
    (hd : d ∈ api.checks) (hid : c.id = d.id) : c = d :=
  List.inj_on_of_nodup_map h hc hd hid

/-- Every response is the only one to its request and says what happened to it;
nothing is queued but what the limiter let in, once. -/
theorem queries_answered_once {cfg : BatchConfig}
    {responder : List Query → Outcome → Prop} {answers : Query → Reply → Prop}
    {limit : RateLimit} {events : List ApiEvent} {api : Api}
    (hone : OnePerQuery responder answers) (hmax : 1 ≤ cfg.max)
    (hrun : Run (Api.Step cfg responder) (.new limit) events api) :
    api.AnswersOnce cfg answers := by
  have hsound := (Api.sound_new cfg responder answers limit).run hone hmax hrun
  have htracked := hsound.tracked
  have hmetered := hsound.metered
  have hstaged := hsound.staged
  constructor
  · exact htracked.running
  · exact htracked.once
  · intro id hid
    obtain hopen | hrest := htracked.settled id hid
    · exact .inl ⟨hopen, fun hclosed => (htracked.closed id hclosed).1 hopen⟩
    · exact .inr hrest
  · exact hsound.explained
  · exact hmetered.distinct
  · intro id request hreceived hrefused hasked
    obtain ⟨c, hc, hid⟩ := List.mem_map.mp hasked
    obtain ⟨asked, hasked, hfits, -⟩ := hmetered.checked c hc
    rw [hid, hreceived, Option.some.injEq] at hasked
    exact hrefused (hasked ▸ hfits)
  · intro c hc hresult htaken
    obtain ⟨d, hd, hid, hok⟩ := hstaged.paid c.id htaken
    have hsame := Api.checked_inj hmetered.distinct hd hc hid
    exact hresult (hsame ▸ hok)
  · intro job hjob
    obtain ⟨request, hreceived, hquery⟩ := hstaged.own job hjob
    have htaken : job.reply ∈ api.batcher.taken :=
      Api.mem_taken.mpr (.inl ⟨job, hjob, rfl⟩)
    obtain ⟨c, hc, hid, hok⟩ := hstaged.paid job.reply htaken
    obtain ⟨asked, hasked, -, hpeer⟩ := hmetered.checked c hc
    rw [hid, hreceived, Option.some.injEq] at hasked
    exact ⟨c, hc, request, hid, hok, hreceived, hasked ▸ hpeer, hquery⟩

/-- The state after some events, where they can happen. -/
def Api.after (cfg : BatchConfig) (api : Api) (events : List ApiEvent) :
    Option Api :=
  events.foldlM (fun api e => api.step cfg e) api

/-- For outcomes that are possible whatever the queries are. -/
theorem Api.run_of_after {cfg : BatchConfig}
    {responder : List Query → Outcome → Prop} {api api' : Api}
    {events : List ApiEvent} (h : api.after cfg events = some api')
    (hresponses : ∀ outcome, .respond outcome ∈ events →
      ∀ queries, responder queries outcome) :
    Run (Step cfg responder) api events api' := by
  induction events generalizing api with
  | nil =>
      cases h
      exact .nil _
  | cons e events ih =>
      unfold after at h
      rw [List.foldlM_cons, Option.bind_eq_bind, Option.bind_eq_some_iff] at h
      obtain ⟨next, hstep, hrest⟩ := h
      refine .cons ⟨hstep, ?_⟩ (ih hrest ?_)
      · intro inner hserved
        cases e with
        | respond outcome =>
            cases hserved
            exact hresponses outcome List.mem_cons_self _
        | tick =>
            cases hserved
            trivial
        | work =>
            cases hserved
            trivial
        | expire =>
            cases hserved
            trivial
        | _ => cases hserved
      · intro outcome hmem
        exact hresponses outcome (List.mem_cons_of_mem e hmem)

theorem eq_some_getD {α : Type} {o : Option α} {d : α} (h : o.isSome = true) :
    o = some (o.getD d) := by
  obtain ⟨a, ha⟩ := Option.isSome_iff_exists.mp h
  rw [ha, Option.getD_some]

/-! ### Four requests and a queue for one -/

namespace Contended

open Pooled (echo onePerQuery_echo)

def config : BatchConfig :=
  ⟨0, 2, 1⟩

def arrivals : List ApiEvent :=
  [.receive 0 ⟨.v4 1, []⟩, .receive 1 ⟨.v4 1, [7]⟩, .receive 2 ⟨.v4 1, [8]⟩,
    .receive 3 ⟨.v4 2, [9]⟩, .check 0 0, .check 1 0, .check 2 0, .check 3 0,
    .submit 1, .submit 3, .work, .work, .expire]

def departures : List ApiEvent :=
  [.work, .reply 1, .work]

def asking : Api :=
  ((Api.new ⟨60, 1⟩).after config arrivals).getD (.new ⟨60, 1⟩)

def answered : Api :=
  (asking.step config (.respond (.answered [.ok [7]]))).getD asking

def finish : Api :=
  (answered.after config departures).getD answered

theorem run : Run (Api.Step config echo) (.new ⟨60, 1⟩)
    (arrivals ++ .respond (.answered [.ok [7]]) :: departures) finish := by
  have harrivals : (Api.new ⟨60, 1⟩).after config arrivals = some asking :=
    eq_some_getD (by decide +kernel)
  have hresponse : asking.step config (.respond (.answered [.ok [7]])) =
      some answered :=
    eq_some_getD (by decide +kernel)
  have hdepartures : answered.after config departures = some finish :=
    eq_some_getD (by decide +kernel)
  have hasked : asking.batcher.asked = [[7]] := by decide +kernel
  have hbefore : Run (Api.Step config echo) (.new ⟨60, 1⟩) arrivals asking :=
    Api.run_of_after harrivals (by simp [arrivals])
  have hbehind : Run (Api.Step config echo) answered departures finish :=
    Api.run_of_after hdepartures (by simp [departures])
  refine hbefore.append (.cons ⟨hresponse, ?_⟩ hbehind)
  intro inner hinner
  cases hinner
  left
  rw [hasked]
  rfl

theorem queries_answered_once_contended : finish.AnswersOnce config
    (fun query reply => reply = .ok query) :=
  queries_answered_once onePerQuery_echo (by decide) run

end Contended

end UsdtPir
