import UsdtPir.Machine
import Mathlib.Data.List.Nodup
import Mathlib.Tactic.Common

/-!
# Pooling queries

Clients put their queries into a bounded queue.  One worker takes the first,
collects more until the batch is full, the window has closed or every sender is
gone, asks the responder once for the whole batch, and sends the replies back.
The responder is code outside the service; its outcomes come with the events.
-/

namespace UsdtPir

open Machine

/-- The window in milliseconds. -/
structure BatchConfig where
  window : ℕ
  max : ℕ
  queueDepth : ℕ

abbrev Query := List UInt8

/-- What a client that was not refused receives. -/
abbrev Reply := Except String (List UInt8)

/-- `reply` names the channel on which the client waits. -/
structure Job where
  query : Query
  reply : ℕ
  deriving DecidableEq

inductive Rejected
  | overloaded
  | stopped
  deriving DecidableEq

def Rejected.message : Rejected → String
  | overloaded => "server is at capacity; retry shortly"
  | stopped => "query service is not running"

/-- How `try_respond_batch_bytes` in a blocking task can end; errors are given
as their texts. -/
inductive Outcome
  | answered (results : List Reply)
  | failed (e : String)
  | panicked (e : String)
  deriving DecidableEq

def fail (replies : List ℕ) (message : String) : List (ℕ × Reply) :=
  replies.map fun reply => (reply, .error message)

/-- What `answer` sends, channel by channel. -/
def answer (batch : List Job) (outcome : Outcome) : List (ℕ × Reply) :=
  let replies := batch.map Job.reply
  match outcome with
  | .answered results => replies.zip results
  | .failed e => fail replies e
  | .panicked e => fail replies s!"batch worker panicked: {e}"

/-! ## The worker -/

/-- Where the worker is.  `collecting` is the head of the loop of `collect`,
`waiting` its wait on the clock. -/
inductive Worker
  | idle
  | collecting (batch : List Job) (deadline : ℕ)
  | waiting (batch : List Job) (deadline : ℕ)
  | answering (batch : List Job)
  | sending (rest : List (ℕ × Reply))
  | stopped
  deriving DecidableEq

/-- A refusal, with the length of the queue at that moment. -/
structure Refusal where
  reply : ℕ
  why : Rejected
  waiting : ℕ
  deriving DecidableEq

/-- The batcher, its clock and its clients.  `accepted`, `refused`, `batches`
and `sent` are ghosts: what happened so far, which no code reads. -/
structure Service where
  now : ℕ
  senders : ℕ
  queue : List Job
  worker : Worker
  gone : List ℕ
  accepted : List Job
  refused : List Refusal
  batches : List (List Job × Outcome)
  sent : List (ℕ × Reply)
  deriving DecidableEq

/-- `Batcher::spawn`. -/
def Service.spawn : Service :=
  ⟨0, 1, [], .idle, [], [], [], [], []⟩

/-- The channels already in use. -/
def Service.taken (s : Service) : List ℕ :=
  s.accepted.map Job.reply ++ s.refused.map Refusal.reply

/-- `try_send`: a bounded queue that the worker has not dropped. -/
def Service.trySend (cfg : BatchConfig) (s : Service) (job : Job) :
    Except Rejected Service :=
  if s.worker = .stopped then
    .error .stopped
  else if s.queue.length < max cfg.queueDepth 1 then
    .ok { s with
      queue := s.queue ++ [job]
      accepted := s.accepted ++ [job] }
  else
    .error .overloaded

def Service.submit (cfg : BatchConfig) (s : Service) (job : Job) : Service :=
  match s.trySend cfg job with
  | .ok s' => s'
  | .error why => { s with
      refused := s.refused ++ [⟨job.reply, why, s.queue.length⟩] }

/-- What the worker does next by itself: it takes a job that is waiting, gives
up on a queue whose senders are gone, or sends the next reply.  A reply to a
client that is gone is sent in vain. -/
def Service.work (cfg : BatchConfig) (s : Service) : Option Service :=
  match s.worker with
  | .idle =>
      match s.queue with
      | first :: rest => some { s with
          queue := rest
          worker := .collecting [first] (s.now + cfg.window) }
      | [] => if s.senders = 0 then some { s with worker := .stopped } else none
  | .collecting batch deadline =>
      if batch.length < cfg.max then
        match s.queue with
        | job :: rest => some { s with
            queue := rest
            worker := .collecting (batch ++ [job]) deadline }
        | [] =>
            if s.senders = 0 then some { s with worker := .answering batch }
            else some { s with worker := .waiting batch deadline }
      else
        some { s with worker := .answering batch }
  | .waiting batch deadline =>
      match s.queue with
      | job :: rest => some { s with
          queue := rest
          worker := .collecting (batch ++ [job]) deadline }
      | [] =>
          if s.senders = 0 then some { s with worker := .answering batch }
          else none
  | .answering _ => none
  | .sending (next :: rest) => some { s with
      worker := .sending rest
      sent := s.sent ++ [next] }
  | .sending [] => some { s with worker := .idle }
  | .stopped => none

/-- The window closes.  A job that arrived just then may or may not have been
taken before. -/
def Service.expire (s : Service) : Option Service :=
  match s.worker with
  | .waiting batch deadline =>
      if deadline ≤ s.now then some { s with worker := .answering batch }
      else none
  | _ => none

def Service.respond (s : Service) (outcome : Outcome) : Option Service :=
  match s.worker with
  | .answering batch => some { s with
      worker := .sending (answer batch outcome)
      batches := s.batches ++ [(batch, outcome)] }
  | _ => none

/-! ## Events -/

inductive Event
  | submit (job : Job)
  | depart (reply : ℕ)
  | join
  | leave
  | tick
  | work
  | expire
  | respond (outcome : Outcome)
  deriving DecidableEq

/-- The events that move the worker. -/
def Event.isWork : Event → Bool
  | .work => true
  | .expire => true
  | .respond _ => true
  | _ => false

/-- The channel of a submission. -/
def Event.submitted : Event → Option ℕ
  | .submit job => some job.reply
  | _ => none

def Service.step (cfg : BatchConfig) (s : Service) : Event → Option Service
  | .submit job =>
      if 0 < s.senders ∧ job.reply ∉ s.taken then some (s.submit cfg job)
      else none
  | .depart reply => some { s with gone := reply :: s.gone }
  | .join =>
      if 0 < s.senders then some { s with senders := s.senders + 1 } else none
  | .leave =>
      if 0 < s.senders then some { s with senders := s.senders - 1 } else none
  | .tick => some { s with now := s.now + 1 }
  | .work => s.work cfg
  | .expire => s.expire
  | .respond outcome => s.respond outcome

/-- The queries the responder is asked for. -/
def Service.asked (s : Service) : List Query :=
  match s.worker with
  | .answering batch => batch.map Job.query
  | _ => []

/-- The responder's outcomes are outcomes for the batch. -/
def Event.Permitted (responder : List Query → Outcome → Prop) (s : Service) :
    Event → Prop
  | .respond outcome => responder s.asked outcome
  | _ => True

def Service.Step (cfg : BatchConfig) (responder : List Query → Outcome → Prop)
    (s : Service) (e : Event) (s' : Service) : Prop :=
  s.step cfg e = some s' ∧ e.Permitted responder s

/-- One result for each query, in order, or a failure of the whole batch. -/
def OnePerQuery (responder : List Query → Outcome → Prop)
    (answers : Query → Reply → Prop) : Prop :=
  ∀ queries results, responder queries (.answered results) →
    List.Forall₂ answers queries results

end UsdtPir
