import UsdtPir.RateLimiter
import UsdtPir.BatchInvariants

/-!
# The query endpoint

Every request has a handler of its own.  A body that is too large never gets
to it; it turns an empty body away, asks the limiter, puts the query into the queue of the batcher and waits for the reply;
between any two of these the other handlers and the worker may move.  The
router holds one sender of the queue and each handler another one.
-/

namespace UsdtPir

open Machine

def MAX_QUERY_BYTES : ℕ := 4 * 1024 * 1024

/-! ## Responses -/

inductive Body
  | text (message : String)
  | bytes (bytes : List UInt8)
  deriving DecidableEq

structure HttpResponse where
  status : ℕ
  headers : List (String × String)
  body : Body
  deriving DecidableEq

namespace HttpResponse

def CONTENT_TYPE : String := "content-type"

def CACHE_CONTROL : String := "cache-control"

def RETRY_AFTER : String := "retry-after"

def json : String := "application/json"

def text : String := "text/plain; charset=utf-8"

def octetStream : String := "application/octet-stream"

def noStore : String := "no-store"

def blob (bytes : List UInt8) : HttpResponse :=
  ⟨200, [(CONTENT_TYPE, octetStream), (CACHE_CONTROL, noStore)], .bytes bytes⟩

def problem (code : ℕ) (message : String) : HttpResponse :=
  ⟨code, [(CONTENT_TYPE, text)], .text message⟩

/-- The answer of the body limit that `bind` sets for its routes. -/
def tooLarge : HttpResponse :=
  problem 413 "Failed to buffer the request body: length limit exceeded"

/-- The seconds of a `Retry-After` header. -/
def retryAfter (wait : Duration) : ℕ :=
  max ⌈Duration.asSecs wait⌉₊ 1

def tooMany (wait : Duration) : HttpResponse :=
  let secs := retryAfter wait
  ⟨429, [(CONTENT_TYPE, text), (RETRY_AFTER, s!"{secs}")],
    .text s!"rate limit reached; retry in {secs}s\n"⟩

/-- What `query` makes of a reply. -/
def ofReply : Reply → HttpResponse
  | .ok bytes => blob bytes
  | .error e => problem 400 s!"query rejected: {e}"

end HttpResponse

/-! ## Handlers -/

structure HttpRequest where
  peer : IpAddr
  body : Query
  deriving DecidableEq

/-- The body is there and within the limit. -/
def HttpRequest.Fits (request : HttpRequest) : Prop :=
  request.body ≠ [] ∧ request.body.length ≤ MAX_QUERY_BYTES

/-- What a handler does next. -/
inductive QueryStage
  | check
  | submit
  | wait
  deriving DecidableEq

structure Handler where
  request : HttpRequest
  stage : QueryStage
  deriving DecidableEq

/-- A call of the limiter, for the request it was made for. -/
structure Checked where
  id : ℕ
  call : Call
  result : Except Duration Unit

/-- The limiter, the batcher and the handlers at work.  `received`, `checks` and
`responses` are ghosts. -/
structure Api where
  limiter : RateLimiter
  batcher : Service
  handlers : HashMap ℕ Handler
  received : HashMap ℕ HttpRequest
  checks : List Checked
  responses : List (ℕ × HttpResponse)

namespace Api

/-- The router has a sender of its own, as `Batcher::spawn` gives it. -/
def new (limit : RateLimit) : Api :=
  ⟨.new limit, .spawn, ∅, ∅, [], []⟩

/-- The handler returns, and its clone of the state is dropped. -/
def respond (api : Api) (id : ℕ) (response : HttpResponse) : Api :=
  { api with
    batcher := { api.batcher with senders := api.batcher.senders - 1 }
    handlers := api.handlers.erase id
    responses := api.responses ++ [(id, response)] }

def enter (api : Api) (id : ℕ) (request : HttpRequest) (stage : QueryStage) : Api :=
  { api with handlers := api.handlers.insert id ⟨request, stage⟩ }

def receive (api : Api) (id : ℕ) (request : HttpRequest) : Api :=
  { api with
    batcher := { api.batcher with senders := api.batcher.senders + 1 }
    handlers := api.handlers.insert id ⟨request, .check⟩
    received := api.received.insert id request }

/-- The body is buffered before the handler sees the request. -/
def check (api : Api) (id : ℕ) (request : HttpRequest) (now : Instant) : Api :=
  if MAX_QUERY_BYTES < request.body.length then
    api.respond id .tooLarge
  else if request.body = [] then
    api.respond id (.problem 400 "empty query")
  else
    let (result, limiter) := api.limiter.checkAt request.peer now
    let api : Api := { api with
      limiter
      checks := api.checks ++ [⟨id, ⟨request.peer, now⟩, result⟩] }
    match result with
    | .error wait => api.respond id (.tooMany wait)
    | .ok () => api.enter id request .submit

def submit (cfg : BatchConfig) (api : Api) (id : ℕ) (request : HttpRequest) :
    Api :=
  let job : Job := ⟨request.body, id⟩
  let next := { api with batcher := api.batcher.submit cfg job }
  match api.batcher.trySend cfg job with
  | .ok _ => next.enter id request .wait
  | .error why => next.respond id (.problem 503 why.message)

/-- Nobody holds the other end of the channel any more. -/
def abandoned (api : Api) (id : ℕ) : Bool :=
  id ∉ (api.batcher.queue ++ api.batcher.worker.hand).map Job.reply ++
    api.batcher.worker.unsent.map Prod.fst

/-- The reply that was sent, or the error of a channel that nobody will use. -/
def reply (api : Api) (id : ℕ) : Option Api :=
  match api.batcher.sent.lookup id with
  | some reply => some (api.respond id (.ofReply reply))
  | none =>
      if api.abandoned id then
        some (api.respond id (.problem 503 Rejected.stopped.message))
      else none

/-- The connection is gone, and the handler with it. -/
def hangUp (api : Api) (id : ℕ) : Api :=
  { api with
    batcher := { api.batcher with
      senders := api.batcher.senders - 1
      gone := id :: api.batcher.gone }
    handlers := api.handlers.erase id }

end Api

/-! ## Events -/

inductive ApiEvent
  | receive (id : ℕ) (request : HttpRequest)
  | check (id : ℕ) (now : Instant)
  | submit (id : ℕ)
  | reply (id : ℕ)
  | hangUp (id : ℕ)
  | tick
  | work
  | expire
  | respond (outcome : Outcome)

/-- The worker and the clock move by themselves. -/
def ApiEvent.served : ApiEvent → Option Event
  | tick => some .tick
  | work => some .work
  | expire => some .expire
  | respond outcome => some (.respond outcome)
  | _ => none

def ApiEvent.isWork (e : ApiEvent) : Bool :=
  e.served.any Event.isWork

namespace Api

def serve (cfg : BatchConfig) (api : Api) (e : Event) : Option Api :=
  (api.batcher.step cfg e).map fun batcher => { api with batcher }

def step (cfg : BatchConfig) (api : Api) : ApiEvent → Option Api
  | .receive id request =>
      if id ∈ api.received then none else some (api.receive id request)
  | .check id now =>
      match api.handlers.lookup id with
      | some ⟨request, .check⟩ => some (api.check id request now)
      | _ => none
  | .submit id =>
      match api.handlers.lookup id with
      | some ⟨request, .submit⟩ => some (api.submit cfg id request)
      | _ => none
  | .reply id =>
      match api.handlers.lookup id with
      | some ⟨_, .wait⟩ => api.reply id
      | _ => none
  | .hangUp id => if id ∈ api.handlers then some (api.hangUp id) else none
  | .tick => api.serve cfg .tick
  | .work => api.serve cfg .work
  | .expire => api.serve cfg .expire
  | .respond outcome => api.serve cfg (.respond outcome)

/-- The responder's outcomes are outcomes for the batch. -/
def Step (cfg : BatchConfig) (responder : List Query → Outcome → Prop)
    (api : Api) (e : ApiEvent) (api' : Api) : Prop :=
  api.step cfg e = some api' ∧
    ∀ inner, e.served = some inner → inner.Permitted responder api.batcher

/-! ## What an event can do -/

inductive Moved (cfg : BatchConfig) (api : Api) : ApiEvent → Api → Prop
  | received {id : ℕ} {request : HttpRequest} (hfresh : id ∉ api.received) :
      Moved cfg api (.receive id request) (api.receive id request)
  | oversized {id : ℕ} {now : Instant} {request : HttpRequest}
      (hopen : api.handlers.lookup id = some ⟨request, .check⟩)
      (hlarge : MAX_QUERY_BYTES < request.body.length) :
      Moved cfg api (.check id now) (api.respond id .tooLarge)
  | empty {id : ℕ} {now : Instant} {request : HttpRequest}
      (hopen : api.handlers.lookup id = some ⟨request, .check⟩)
      (hbody : request.body = []) :
      Moved cfg api (.check id now) (api.respond id (.problem 400 "empty query"))
  | limited {id : ℕ} {now : Instant} {request : HttpRequest}
      {limiter : RateLimiter} {wait : Duration}
      (hopen : api.handlers.lookup id = some ⟨request, .check⟩)
      (hfits : request.Fits)
      (hcheck : api.limiter.checkAt request.peer now = (.error wait, limiter)) :
      Moved cfg api (.check id now) (respond { api with
        limiter
        checks := api.checks ++ [⟨id, ⟨request.peer, now⟩, .error wait⟩] }
          id (.tooMany wait))
  | admitted {id : ℕ} {now : Instant} {request : HttpRequest}
      {limiter : RateLimiter}
      (hopen : api.handlers.lookup id = some ⟨request, .check⟩)
      (hfits : request.Fits)
      (hcheck : api.limiter.checkAt request.peer now = (.ok (), limiter)) :
      Moved cfg api (.check id now) (enter { api with
        limiter
        checks := api.checks ++ [⟨id, ⟨request.peer, now⟩, .ok ()⟩] }
          id request .submit)
  | queued {id : ℕ} {request : HttpRequest}
      (hopen : api.handlers.lookup id = some ⟨request, .submit⟩)
      (hruns : api.batcher.worker ≠ .stopped)
      (hroom : api.batcher.queue.length < max cfg.queueDepth 1) :
      Moved cfg api (.submit id) (enter { api with
        batcher := { api.batcher with
          queue := api.batcher.queue ++ [⟨request.body, id⟩]
          accepted := api.batcher.accepted ++ [⟨request.body, id⟩] } }
            id request .wait)
  | refused {id : ℕ} {request : HttpRequest} {why : Rejected}
      (hopen : api.handlers.lookup id = some ⟨request, .submit⟩)
      (hwhy : (why = .stopped ∧ api.batcher.worker = .stopped) ∨
        (why = .overloaded ∧
          max cfg.queueDepth 1 ≤ api.batcher.queue.length)) :
      Moved cfg api (.submit id) (respond { api with
        batcher := { api.batcher with
          refused := api.batcher.refused ++
            [⟨id, why, api.batcher.queue.length⟩] } }
              id (.problem 503 why.message))
  | replied {id : ℕ} {request : HttpRequest} {reply : Reply}
      (hopen : api.handlers.lookup id = some ⟨request, .wait⟩)
      (hsent : api.batcher.sent.lookup id = some reply) :
      Moved cfg api (.reply id) (api.respond id (.ofReply reply))
  | dropped {id : ℕ} {request : HttpRequest}
      (hopen : api.handlers.lookup id = some ⟨request, .wait⟩)
      (hsent : api.batcher.sent.lookup id = none)
      (habandoned : api.abandoned id = true) :
      Moved cfg api (.reply id)
        (api.respond id (.problem 503 Rejected.stopped.message))
  | hungUp {id : ℕ} (hopen : id ∈ api.handlers) :
      Moved cfg api (.hangUp id) (api.hangUp id)
  | served {e : ApiEvent} {inner : Event} {batcher : Service}
      (hserved : e.served = some inner)
      (hinner : api.batcher.step cfg inner = some batcher) :
      Moved cfg api e { api with batcher }

variable {cfg : BatchConfig} {api api' : Api} {e : ApiEvent} {id : ℕ}
    {request : HttpRequest} {now : Instant}

theorem moved_check (hopen : api.handlers.lookup id = some ⟨request, .check⟩) :
    Moved cfg api (.check id now) (api.check id request now) := by
  unfold check
  by_cases hlarge : MAX_QUERY_BYTES < request.body.length
  · rw [if_pos hlarge]
    exact .oversized hopen hlarge
  · rw [if_neg hlarge]
    by_cases hbody : request.body = []
    · rw [if_pos hbody]
      exact .empty hopen hbody
    · rw [if_neg hbody]
      have hfits : request.Fits := ⟨hbody, Nat.le_of_not_lt hlarge⟩
      cases hcheck : api.limiter.checkAt request.peer now with
      | mk result limiter =>
          cases result with
          | error wait => exact .limited hopen hfits hcheck
          | ok room => exact .admitted hopen hfits hcheck

theorem moved_submit (hopen : api.handlers.lookup id = some ⟨request, .submit⟩) :
    Moved cfg api (.submit id) (api.submit cfg id request) := by
  unfold submit Service.submit Service.trySend
  by_cases hstopped : api.batcher.worker = .stopped
  · simp only [if_pos hstopped]
    exact .refused hopen (.inl ⟨rfl, hstopped⟩)
  · by_cases hroom : api.batcher.queue.length < max cfg.queueDepth 1
    · simp only [if_neg hstopped, if_pos hroom]
      exact .queued hopen hstopped hroom
    · simp only [if_neg hstopped, if_neg hroom]
      exact .refused hopen (.inr ⟨rfl, Nat.le_of_not_lt hroom⟩)

theorem moved_reply (hopen : api.handlers.lookup id = some ⟨request, .wait⟩)
    (h : api.reply id = some api') : Moved cfg api (.reply id) api' := by
  unfold reply at h
  split at h
  · rename_i reply hsent
    cases h
    exact .replied hopen hsent
  · rename_i hsent
    split at h
    · rename_i habandoned
      cases h
      exact .dropped hopen hsent habandoned
    · cases h

theorem moved_serve {inner : Event} (hserved : e.served = some inner)
    (h : api.serve cfg inner = some api') : Moved cfg api e api' := by
  obtain ⟨batcher, hinner, hnext⟩ := Option.map_eq_some_iff.mp h
  subst hnext
  exact .served hserved hinner

theorem moved (h : api.step cfg e = some api') : Moved cfg api e api' := by
  cases e with
  | receive id request =>
      simp only [step] at h
      split at h
      · cases h
      · rename_i hfresh
        cases h
        exact .received hfresh
  | check id now =>
      simp only [step] at h
      split at h
      · rename_i request hopen
        cases h
        exact moved_check hopen
      · cases h
  | submit id =>
      simp only [step] at h
      split at h
      · rename_i request hopen
        cases h
        exact moved_submit hopen
      · cases h
  | reply id =>
      simp only [step] at h
      split at h
      · rename_i request hopen
        exact moved_reply hopen h
      · cases h
  | hangUp id =>
      simp only [step] at h
      split at h
      · rename_i hopen
        cases h
        exact .hungUp hopen
      · cases h
  | tick => exact moved_serve rfl h
  | work => exact moved_serve rfl h
  | expire => exact moved_serve rfl h
  | respond outcome => exact moved_serve rfl h

end Api

end UsdtPir
