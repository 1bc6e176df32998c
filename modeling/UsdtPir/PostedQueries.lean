import UsdtPir.Deployment
import UsdtPir.ReplyOrigins
import UsdtPir.SnapshotFormat

/-!
# Posted queries

For the page a query is answered in one step.  In the service it is posted,
passes the limiter, waits in the queue and in a batch, and its reply comes back
while the database and the directory move on.  Still the service does nothing
but what it would do if every query were answered in the moment in which the
responder is asked for its batch.
-/

namespace UsdtPir

open Interaction
open Machine

/-- What the bytes on the wire mean.  A query is made at random. -/
structure Wire (P : EthPir) where
  sends : Exchange P → Query → Prop
  responder : Database P.Mphf → List Query → Outcome → Prop
  answers : Database P.Mphf → Query → Reply → Prop
  opens : Exchange P → List UInt8 → Option (Address × Entry)

/-- A batch is answered query by query, and an answer opens to the record in
the slot that was asked for. -/
structure Wire.Correct {P : EthPir} (wire : Wire P) : Prop where
  batched : ∀ database,
    OnePerQuery (wire.responder database) (wire.answers database)
  opened : ∀ {exchange : Exchange P} {query : Query}
    {database : Database P.Mphf} {bytes : List UInt8},
    wire.sends exchange query → wire.answers database query (.ok bytes) →
    wire.opens exchange bytes = database.record exchange.lookup.slot

/-- `serve` with its query endpoint, and a page.  A lookup that was posted is
waiting for a request; the origins are a ghost. -/
structure Site (P : EthPir) (ω : Type) where
  deployment : Deployment P ω
  api : Api
  posts : HashMap ℕ ℕ
  origins : List (Origin (Database P.Mphf))

inductive SiteEvent (P : EthPir)
  | direct (e : DeploymentEvent P)
  | api (e : ApiEvent)
  | post (i id : ℕ) (peer : IpAddr) (query : Query)
  | arrive (i : ℕ)
  | refuse (i : ℕ)

section Sites

variable {P : EthPir} {ω : Type}

def Site.launched (world : ω) (process : Process) (thread : PirThread P)
    (left : Leftover) (limit : RateLimit) : Site P ω :=
  ⟨.launched world process thread left, .new limit, ∅, []⟩

/-- What the responder answers from. -/
def Site.database (c : Site P ω) : Database P.Mphf :=
  P.database c.deployment.pipeline.thread.server

def DeploymentEvent.isAnswer : DeploymentEvent P → Bool
  | .page (.answer _) => true
  | _ => false

def DeploymentEvent.isRefuse : DeploymentEvent P → Bool
  | .page (.refuse _) => true
  | _ => false

/-- A lookup that begins has not been posted. -/
def DeploymentEvent.posts (e : DeploymentEvent P) (posts : HashMap ℕ ℕ) :
    HashMap ℕ ℕ :=
  match e with
  | .page (.run i _) => posts.erase i
  | _ => posts

/-- What an event is for the page. -/
def SiteEvent.seen : SiteEvent P → List (DeploymentEvent P)
  | .direct e => [e]
  | .refuse i => [.page (.refuse i)]
  | _ => []

/-- The handlers are other tasks than the thread, and other clients send
requests too. -/
inductive SiteStep {P : EthPir} {ω : Type} (wire : Wire P) (cfg : BatchConfig)
    (env : Environment Request Answer ω) (follow : FollowConfig)
    (pir : PirConfig) : Site P ω → SiteEvent P → Site P ω → Prop
  | direct {c : Site P ω} {e : DeploymentEvent P} {deployment : Deployment P ω}
      (hanswer : e.isAnswer = false) (hrefuse : e.isRefuse = false)
      (hstep : DeploymentStep env follow P pir c.deployment e deployment) :
      SiteStep wire cfg env follow pir c (.direct e)
        { c with deployment, posts := e.posts c.posts }
  | api {c : Site P ω} {e : ApiEvent} {api : Api}
      (hlistens : c.deployment.portal.listening = true)
      (hstep : c.api.Step cfg (wire.responder c.database) e api) :
      SiteStep wire cfg env follow pir c (.api e)
        { c with api, origins := c.origins ++ e.origins c.database api }
  | post {c : Site P ω} {i id : ℕ} {peer : IpAddr} {query : Query}
      {a : Address} {status : Directory P} {exchange : Exchange P} {api : Api}
      (hlistens : c.deployment.portal.listening = true)
      (hrun : c.deployment.portal.runs.lookup i =
        some (.sent a status exchange))
      (hnew : i ∉ c.posts) (hsends : wire.sends exchange query)
      (hstep : c.api.Step cfg (wire.responder c.database)
        (.receive id ⟨peer, query⟩) api) :
      SiteStep wire cfg env follow pir c (.post i id peer query)
        { c with api, posts := c.posts.insert i id }
  | arrive {c : Site P ω} {i id : ℕ} {a : Address} {status : Directory P}
      {exchange : Exchange P} {response : HttpResponse} {bytes : List UInt8}
      {o : Origin (Database P.Mphf)}
      (hrun : c.deployment.portal.runs.lookup i =
        some (.sent a status exchange))
      (hpost : c.posts.lookup i = some id)
      (hresponse : (id, response) ∈ c.api.responses)
      (hok : response.ok = true) (hbody : response.body = .bytes bytes)
      (horigin : originFor c.origins id = some o) :
      SiteStep wire cfg env follow pir c (.arrive i)
        { c with
          deployment := { c.deployment with
            portal := c.deployment.portal.enter i (.answered a status
              ⟨exchange, o.source, wire.opens exchange bytes⟩) } }
  | refuse {c : Site P ω} {i id : ℕ} {a : Address} {status : Directory P}
      {exchange : Exchange P} {response : HttpResponse} {client : Client P}
      (hrun : c.deployment.portal.runs.lookup i =
        some (.sent a status exchange))
      (hpost : c.posts.lookup i = some id)
      (hresponse : (id, response) ∈ c.api.responses)
      (hbad : response.ok = false)
      (hclient : c.deployment.portal.client = some client) :
      SiteStep wire cfg env follow pir c (.refuse i)
        { c with
          deployment := { c.deployment with
            portal := { c.deployment.portal.leave i with
              client := some (client.cancel exchange.id).2 } } }

/-! ## Lookups that are ahead -/

/-- A lookup as if its reply had come, where there is one. -/
def RunTask.advance (now : Option (Database P.Mphf)) : RunTask P → RunTask P
  | .sent a status exchange =>
      match now with
      | some database => .answered a status
          ⟨exchange, database, database.record exchange.lookup.slot⟩
      | none => .sent a status exchange
  | task => task

/-- What the reply of a lookup comes from, once there is one. -/
def Site.ahead (c : Site P ω) (i : ℕ) : Option (Database P.Mphf) :=
  (c.posts.lookup i).bind fun id =>
    (originFor c.origins id).map Origin.source

/-- The same lookups, but that the replies have come. -/
def RunsAhead (ahead : ℕ → Option (Database P.Mphf))
    (runs runs' : HashMap ℕ (RunTask P)) : Prop :=
  ∀ i, runs'.lookup i = (runs.lookup i).map (RunTask.advance (ahead i))

variable {task task' : RunTask P} {now later : Option (Database P.Mphf)}
    {ahead ahead' : ℕ → Option (Database P.Mphf)}
    {runs runs' : HashMap ℕ (RunTask P)} {i : ℕ}

@[simp] theorem RunTask.advance_none : task.advance none = task := by
  cases task with
  | _ => rfl

theorem RunTask.advance_advance :
    (task.advance now).advance later = task.advance (now.or later) := by
  cases task with
  | sent a status exchange =>
      cases now with
      | none => rfl
      | some database => rfl
  | _ => rfl

theorem RunsAhead.insert (h : RunsAhead ahead runs runs')
    (htask : task.advance (ahead i) = task') :
    RunsAhead ahead (runs.insert i task) (runs'.insert i task') := by
  intro j
  by_cases heq : j = i
  · rw [heq, AList.lookup_insert, AList.lookup_insert, Option.map_some, htask]
  · rw [AList.lookup_insert_ne heq, AList.lookup_insert_ne heq]
    exact h j

theorem RunsAhead.erase (h : RunsAhead ahead runs runs') (i : ℕ) :
    RunsAhead ahead (runs.erase i) (runs'.erase i) := by
  intro j
  by_cases heq : j = i
  · rw [heq, AList.lookup_erase, AList.lookup_erase]
    rfl
  · rw [AList.lookup_erase_ne heq, AList.lookup_erase_ne heq]
    exact h j

theorem RunsAhead.congr (h : RunsAhead ahead runs runs')
    (hsame : ∀ i task, runs.lookup i = some task →
      task.advance (ahead i) = task.advance (ahead' i)) :
    RunsAhead ahead' runs runs' := by
  intro i
  rw [h i]
  cases hlookup : runs.lookup i with
  | none => rfl
  | some task => rw [Option.map_some, Option.map_some, hsame i task hlookup]

theorem RunsAhead.lookup (h : RunsAhead ahead runs runs')
    (hlookup : runs.lookup i = some task) :
    runs'.lookup i = some (task.advance (ahead i)) := by
  rw [h i, hlookup, Option.map_some]

theorem RunsAhead.notMem (h : RunsAhead ahead runs runs') (hnew : i ∉ runs) :
    i ∉ runs' := by
  rw [← AList.lookup_eq_none] at hnew ⊢
  rw [h i, hnew, Option.map_none]

/-! ## The steps of the page -/

variable {pir : PirConfig} {s s' : Portal P}

/-- Nothing but an answer and a refusal cares for whether a lookup is ahead. -/
theorem PortalStep.mirror {e : PortalEvent P}
    (hstep : PortalStep P pir s e s')
    (hanswer : DeploymentEvent.isAnswer (.page e) = false)
    (hrefuse : DeploymentEvent.isRefuse (.page e) = false)
    (hquery : ∀ i, e = .query i → ahead i = none)
    (h : RunsAhead ahead s.runs runs) :
    ∃ runs', PortalStep P pir { s with runs } e { s' with runs := runs' } ∧
      RunsAhead ahead s'.runs runs' := by
  cases hstep with
  | server hstep => exact ⟨runs, .server hstep, h⟩
  | sync hidle => exact ⟨runs, .sync hidle, h⟩
  | serveStatus hlistens hup hsync =>
      exact ⟨runs, .serveStatus hlistens hup hsync, h⟩
  | fetch hsync hplan => exact ⟨runs, .fetch hsync hplan, h⟩
  | upToDate hsync hclient hplan =>
      exact ⟨runs, .upToDate hsync hclient hplan, h⟩
  | serveDirectory hlistens hup hsync =>
      exact ⟨runs, .serveDirectory hlistens hup hsync, h⟩
  | install hsync hcall => exact ⟨runs, .install hsync hcall, h⟩
  | syncFails hsync => exact ⟨runs, .syncFails hsync, h⟩
  | run hnew => exact ⟨_, .run (h.notMem hnew), h.insert rfl⟩
  | serveCheck hlistens hup hrun =>
      exact ⟨_, .serveCheck hlistens hup (h.lookup hrun), h.insert rfl⟩
  | check hrun hclient hneed =>
      exact ⟨_, .check (h.lookup hrun) hclient hneed, h.insert rfl⟩
  | @query i a status client hrun hclient =>
      refine ⟨_, .query (h.lookup hrun) hclient, h.insert ?_⟩
      rw [hquery i rfl, RunTask.advance_none]
  | answer => cases hanswer
  | refuse => cases hrefuse
  | decode hrun hclient hcall =>
      exact ⟨_, .decode (h.lookup hrun) hclient hcall, h.erase _⟩
  | decodeFails hrun hclient hcall =>
      exact ⟨_, .decodeFails (h.lookup hrun) hclient hcall, h.erase _⟩
  | runFails => exact ⟨_, .runFails, h.erase _⟩
  | refreshStatus hlistens hup => exact ⟨runs, .refreshStatus hlistens hup, h⟩

/-- A lookup goes on as it was, is a new one, or has not sent its query
before. -/
theorem PortalStep.task_cases {e : PortalEvent P}
    (hstep : PortalStep P pir s e s')
    (hanswer : DeploymentEvent.isAnswer (.page e) = false)
    (hlookup : s'.runs.lookup i = some task') :
    (∃ a, e = .run i a) ∨ ∃ task, s.runs.lookup i = some task ∧
      (task.exchange = none ∨ task = task') := by
  have hentered : ∀ {j : ℕ} {before after : RunTask P},
      s.runs.lookup j = some before → before.exchange = none →
      (s.runs.insert j after).lookup i = some task' →
      ∃ task, s.runs.lookup i = some task ∧
        (task.exchange = none ∨ task = task') := by
    intro j before after hrun hnone hinserted
    obtain ⟨rfl, -⟩ | ⟨-, hold⟩ := lookup_of_insert hinserted
    · exact ⟨before, hrun, .inl hnone⟩
    · exact ⟨task', hold, .inr rfl⟩
  cases hstep with
  | answer => cases hanswer
  | @run j a hnew =>
      obtain ⟨rfl, -⟩ | ⟨-, hold⟩ := lookup_of_insert hlookup
      · exact .inl ⟨a, rfl⟩
      · exact .inr ⟨task', hold, .inr rfl⟩
  | serveCheck hlistens hup hrun => exact .inr (hentered hrun rfl hlookup)
  | check hrun hclient hneed => exact .inr (hentered hrun rfl hlookup)
  | query hrun hclient => exact .inr (hentered hrun rfl hlookup)
  | refuse | decode | decodeFails | runFails =>
      exact .inr ⟨task', (lookup_of_erase hlookup).2, .inr rfl⟩
  | _ => exact .inr ⟨task', hlookup, .inr rfl⟩

variable {env : Environment Request Answer ω} {follow : FollowConfig}
    {v : Deployment P ω} {thread : PirThread P} {left : Leftover}

variable (pir env follow) in
/-- A lookup is answered, if it waits for that. -/
theorem answer_run (hlistens : v.portal.listening = true)
    (hup : v.portal.endpoint.host = .up thread left)
    (hnow : ∀ database, now = some database →
      database = P.database thread.server) (i : ℕ) :
    ∃ events runs', Run (DeploymentStep env follow P pir) v events
        { v with portal := { v.portal with runs := runs' } } ∧
      events.filter (fun e => !e.isAnswer) = [] ∧
      ∀ j, runs'.lookup j = if j = i then
        (v.portal.runs.lookup j).map (RunTask.advance now)
      else v.portal.runs.lookup j := by
  by_cases hadvances : (v.portal.runs.lookup i).map (RunTask.advance now) =
      v.portal.runs.lookup i
  · refine ⟨[], v.portal.runs, .nil v, rfl, ?_⟩
    intro j
    split
    · rename_i heq
      rw [heq, hadvances]
    · rfl
  · cases hlookup : v.portal.runs.lookup i with
    | none =>
        rw [hlookup] at hadvances
        exact absurd rfl hadvances
    | some task =>
        rw [hlookup] at hadvances
        cases now with
        | none =>
            rw [Option.map_some, RunTask.advance_none] at hadvances
            exact absurd rfl hadvances
        | some database =>
            cases task with
            | sent a status exchange =>
                refine ⟨[.page (.answer i)], _,
                  .cons (.page rfl (.answer hlistens hup hlookup)) (.nil _),
                  rfl, ?_⟩
                intro j
                by_cases heq : j = i
                · rw [heq, AList.lookup_insert, if_pos rfl, hlookup,
                    ← hnow database rfl]
                  rfl
                · rw [AList.lookup_insert_ne heq, if_neg heq]
            | _ => exact absurd rfl hadvances

variable (pir env follow) in
/-- Some lookups are answered, one after the other. -/
theorem answers_run {new : ℕ → Option (Database P.Mphf)}
    (hlistens : v.portal.listening = true)
    (hup : v.portal.endpoint.host = .up thread left)
    (hnew : ∀ i database, new i = some database →
      database = P.database thread.server) (is : List ℕ) :
    ∃ events runs', Run (DeploymentStep env follow P pir) v events
        { v with portal := { v.portal with runs := runs' } } ∧
      events.filter (fun e => !e.isAnswer) = [] ∧
      ∀ j, runs'.lookup j = if j ∈ is then
        (v.portal.runs.lookup j).map (RunTask.advance (new j))
      else v.portal.runs.lookup j := by
  induction is generalizing v with
  | nil => exact ⟨[], v.portal.runs, .nil v, rfl, fun j => rfl⟩
  | cons i is ih =>
      obtain ⟨first, runs₁, hfirst, hnone, hone⟩ :=
        answer_run pir env follow hlistens hup (hnew i) i
      obtain ⟨rest, runs₂, hrest, hnone', hothers⟩ :=
        ih (v := { v with portal := { v.portal with runs := runs₁ } })
          hlistens hup
      refine ⟨first ++ rest, runs₂, hfirst.append hrest, ?_, ?_⟩
      · rw [List.filter_append, hnone, hnone']
        rfl
      · intro j
        rw [hothers j]
        dsimp only
        rw [hone j]
        by_cases heq : j = i
        · subst heq
          rw [if_pos rfl, if_pos List.mem_cons_self, Option.map_map]
          split
          · congr 1
            funext task
            rw [Function.comp_apply, RunTask.advance_advance, Option.or_self]
          · rfl
        · rw [if_neg heq]
          simp only [List.mem_cons, heq, false_or]

/-! ## The site -/

variable {wire : Wire P} {cfg : BatchConfig} {limit : RateLimit}
    {c c' : Site P ω} {event : SiteEvent P} {events : List (SiteEvent P)}

/-- What holds of a site at any time. -/
structure Site.Sound (wire : Wire P) (cfg : BatchConfig) (limit : RateLimit)
    (c : Site P ω) : Prop where
  joined : c.deployment.Joined
  api : c.api.Sound cfg (OfAny wire.responder) (OfAny wire.answers) limit
  sourced : c.api.batcher.Sourced wire.answers c.origins
  posted : ∀ i id task, c.posts.lookup i = some id →
    c.deployment.portal.runs.lookup i = some task →
    ∃ exchange request, task.exchange = some exchange ∧
      c.api.received.lookup id = some request ∧
      wire.sends exchange request.body

theorem Site.sound_launched (wire : Wire P) (cfg : BatchConfig) (world : ω)
    (process : Process) (thread : PirThread P) (left : Leftover)
    (limit : RateLimit) :
    (launched world process thread left limit).Sound wire cfg limit := by
  refine ⟨⟨left, rfl⟩, Api.sound_new cfg _ _ limit, .spawn, ?_⟩
  intro i id task hpost
  cases hpost

namespace Site.Sound

/-- A lookup that has no query yet has not been posted. -/
theorem unposted (h : c.Sound wire cfg limit)
    (hlookup : c.deployment.portal.runs.lookup i = some task)
    (hexchange : task.exchange = none) : c.posts.lookup i = none := by
  cases hpost : c.posts.lookup i with
  | none => rfl
  | some id =>
      obtain ⟨exchange, -, hsome, -⟩ := h.posted i id task hpost hlookup
      rw [hexchange] at hsome
      cases hsome

theorem posted_direct {e : DeploymentEvent P} {deployment : Deployment P ω}
    (hanswer : e.isAnswer = false)
    (hstep : DeploymentStep env follow P pir c.deployment e deployment)
    (h : c.Sound wire cfg limit) {id : ℕ}
    (hpost : (e.posts c.posts).lookup i = some id)
    (hlookup : deployment.portal.runs.lookup i = some task) :
    ∃ exchange request, task.exchange = some exchange ∧
      c.api.received.lookup id = some request ∧
      wire.sends exchange request.body := by
  cases hstep with
  | round hround => exact h.posted i id task hpost hlookup
  | thread hthread hserver hup =>
      cases hserver with
      | server => exact h.posted i id task hpost hlookup
  | @page e portal hpage hportal =>
      obtain ⟨a, rfl⟩ | ⟨before, hbefore, hkept⟩ :=
        hportal.task_cases hanswer hlookup
      · dsimp only [DeploymentEvent.posts] at hpost
        rw [AList.lookup_erase] at hpost
        cases hpost
      · have hposted : c.posts.lookup i = some id := by
          cases e with
          | run j a => exact (lookup_of_erase hpost).2
          | _ => exact hpost
        obtain hnone | rfl := hkept
        · rw [h.unposted hbefore hnone] at hposted
          cases hposted
        · exact h.posted i id before hposted hbefore

theorem step (hcorrect : wire.Correct) (hmax : 1 ≤ cfg.max)
    (hstep : SiteStep wire cfg env follow pir c event c')
    (h : c.Sound wire cfg limit) : c'.Sound wire cfg limit := by
  have hone := onePerQuery_ofAny hcorrect.batched
  cases hstep with
  | @direct e deployment hanswer hrefuse hstep =>
      refine ⟨h.joined.step hstep, h.api, h.sourced, ?_⟩
      intro i id task hpost hlookup
      exact h.posted_direct hanswer hstep hpost hlookup
  | @api e api hlistens hstep =>
      refine ⟨h.joined, h.api.step hone hmax hstep.ofAny,
        Api.sourced_step (hcorrect.batched _) h.api.batcher hstep h.sourced, ?_⟩
      intro i id task hpost hlookup
      obtain ⟨exchange, request, hsome, hreceived, hsends⟩ :=
        h.posted i id task hpost hlookup
      exact ⟨exchange, request, hsome,
        (Api.moved hstep.1).lookup_received hreceived, hsends⟩
  | @post i id peer query a status exchange api hlistens hrun hnew hsends
      hstep =>
      have hsourced := Api.sourced_step (hcorrect.batched _) h.api.batcher hstep
        h.sourced
      dsimp only [ApiEvent.origins] at hsourced
      rw [List.append_nil] at hsourced
      refine ⟨h.joined, h.api.step hone hmax hstep.ofAny, hsourced, ?_⟩
      intro j other task hpost hlookup
      obtain ⟨rfl, rfl⟩ | ⟨-, hold⟩ := lookup_of_insert hpost
      · rw [hrun, Option.some.injEq] at hlookup
        rw [← hlookup]
        refine ⟨exchange, ⟨peer, query⟩, rfl, ?_, hsends⟩
        cases Api.moved hstep.1 with
        | received hfresh => exact AList.lookup_insert _
        | served hserved => cases hserved
      · obtain ⟨exchange, request, hsome, hreceived, hsends⟩ :=
          h.posted j other task hold hlookup
        exact ⟨exchange, request, hsome,
          (Api.moved hstep.1).lookup_received hreceived, hsends⟩
  | arrive hrun hpost hresponse hok hbody horigin =>
      refine ⟨h.joined, h.api, h.sourced, ?_⟩
      intro j other task hother hlookup
      obtain ⟨rfl, rfl⟩ | ⟨-, hold⟩ := lookup_of_insert hlookup
      · have hsent := h.posted _ _ _ hother hrun
        exact hsent
      · exact h.posted _ _ _ hother hold
  | refuse hrun hpost hresponse hbad hclient =>
      refine ⟨h.joined, h.api, h.sourced, ?_⟩
      intro j other task hother hlookup
      exact h.posted _ _ _ hother (lookup_of_erase hlookup).2

end Site.Sound

/-! ## The deployment behind the site -/

/-- The deployment, with other lookups. -/
def Site.picture (c : Site P ω) (runs : HashMap ℕ (RunTask P)) :
    Deployment P ω :=
  { c.deployment with portal := { c.deployment.portal with runs } }

/-- To the page, a reply has come when it was made. -/
def Site.Pictures (c : Site P ω) (v : Deployment P ω) : Prop :=
  ∃ runs, v = c.picture runs ∧
    RunsAhead c.ahead c.deployment.portal.runs runs

namespace Site.Sound

theorem picture_direct {e : DeploymentEvent P} {deployment : Deployment P ω}
    (hanswer : e.isAnswer = false) (hrefuse : e.isRefuse = false)
    (hstep : DeploymentStep env follow P pir c.deployment e deployment)
    (h : c.Sound wire cfg limit)
    (hruns : RunsAhead c.ahead c.deployment.portal.runs runs) :
    ∃ runs', DeploymentStep env follow P pir (c.picture runs) e
        (Site.picture { c with deployment, posts := e.posts c.posts } runs') ∧
      RunsAhead (Site.ahead { c with deployment, posts := e.posts c.posts })
        deployment.portal.runs runs' := by
  cases hstep with
  | round hround =>
      cases hround with
      | round hround => exact ⟨runs, .round (.round hround), hruns⟩
  | thread hthread hserver hup =>
      cases hserver with
      | server hserver =>
          exact ⟨runs, .thread hthread (.server hserver) hup, hruns⟩
  | @page e portal hpage hportal =>
      have hquery : ∀ i, e = .query i → c.ahead i = none := by
        intro i heq
        subst heq
        cases hportal with
        | query hrun hclient =>
            unfold Site.ahead
            rw [h.unposted hrun rfl]
            rfl
      obtain ⟨runs', hmirror, hahead⟩ :=
        hportal.mirror hanswer hrefuse hquery hruns
      refine ⟨runs', .page hpage hmirror, hahead.congr ?_⟩
      intro j task hlookup
      cases hportal with
      | @run i a hnew =>
          obtain ⟨rfl, rfl⟩ | ⟨hne, -⟩ := lookup_of_insert hlookup
          · rfl
          · unfold Site.ahead
            dsimp only [DeploymentEvent.posts]
            rw [AList.lookup_erase_ne hne]
      | _ => rfl

/-- When the responder is asked, the lookups in the batch are answered. -/
theorem picture_api {e : ApiEvent} {api : Api}
    (hlistens : c.deployment.portal.listening = true)
    (h : c.Sound wire cfg limit)
    (hruns : RunsAhead c.ahead c.deployment.portal.runs runs) :
    ∃ steps runs', Run (DeploymentStep env follow P pir) (c.picture runs) steps
        (c.picture runs') ∧
      steps.filter (fun e => !e.isAnswer) = [] ∧
      RunsAhead
        (Site.ahead
          { c with api, origins := c.origins ++ e.origins c.database api })
        c.deployment.portal.runs runs' := by
  obtain ⟨left, hup⟩ := h.joined
  let new : ℕ → Option (Database P.Mphf) := fun i =>
    (c.posts.lookup i).bind fun id =>
      (originFor (e.origins c.database api) id).map Origin.source
  have hnew : ∀ i database, new i = some database →
      database = P.database c.deployment.pipeline.thread.server := by
    intro i database hsome
    obtain ⟨id, -, hfound⟩ := Option.bind_eq_some_iff.mp hsome
    obtain ⟨o, ho, rfl⟩ := Option.map_eq_some_iff.mp hfound
    exact ApiEvent.source_of_origins (originFor_some ho).1
  have hahead : ∀ i, Site.ahead
      { c with api, origins := c.origins ++ e.origins c.database api } i =
        (c.ahead i).or (new i) := by
    intro i
    unfold Site.ahead
    dsimp only [new]
    cases hpost : c.posts.lookup i with
    | none => rfl
    | some id =>
        dsimp only [Option.bind_some]
        rw [originFor_append]
        cases originFor c.origins id with
        | none => rfl
        | some o => rfl
  obtain ⟨steps, runs', hrun, hnone, hlookup⟩ :=
    answers_run pir env follow (v := c.picture runs) hlistens hup hnew runs.keys
  refine ⟨steps, runs', hrun, hnone, ?_⟩
  intro i
  rw [hlookup i, hahead i]
  dsimp only [Site.picture]
  rw [hruns i]
  split
  · rw [Option.map_map]
    congr 1
    funext task
    exact RunTask.advance_advance
  · rename_i hnot
    have hnone : runs.lookup i = none :=
      AList.lookup_eq_none.mpr fun hmem => hnot (AList.mem_keys.mp hmem)
    rw [hruns i, Option.map_eq_none_iff] at hnone
    rw [hnone]
    rfl

/-- The channel of a new request has no reply. -/
theorem picture_post {id : ℕ} {api : Api} (h : c.Sound wire cfg limit)
    (hnew : i ∉ c.posts) (hfresh : id ∉ c.api.received)
    (hruns : RunsAhead c.ahead c.deployment.portal.runs runs) :
    RunsAhead (Site.ahead { c with api, posts := c.posts.insert i id })
      c.deployment.portal.runs runs := by
  apply hruns.congr
  intro j task hlookup
  unfold Site.ahead
  dsimp only
  by_cases heq : j = i
  · have hnone : originFor c.origins id = none := by
      cases hfound : originFor c.origins id with
      | none => rfl
      | some o =>
          obtain ⟨ho, hreply⟩ := originFor_some hfound
          obtain ⟨job, hjob, hchannel, -⟩ := h.sourced.made o ho
          obtain ⟨request, hreceived, -⟩ := h.api.staged.own job hjob
          rw [hchannel, hreply] at hreceived
          exact absurd (mem_of_lookup hreceived) hfresh
    rw [heq, AList.lookup_insert, AList.lookup_eq_none.mpr hnew]
    dsimp only [Option.bind_some, Option.bind_none]
    rw [hnone]
    rfl
  · rw [AList.lookup_insert_ne heq]

/-- The reply opens to what the lookup had been told by then. -/
theorem picture_arrive {id : ℕ} {a : Address} {status : Directory P}
    {exchange : Exchange P} {response : HttpResponse} {bytes : List UInt8}
    {o : Origin (Database P.Mphf)} (hcorrect : wire.Correct)
    (h : c.Sound wire cfg limit)
    (hrun : c.deployment.portal.runs.lookup i = some (.sent a status exchange))
    (hpost : c.posts.lookup i = some id)
    (hresponse : (id, response) ∈ c.api.responses)
    (hbody : response.body = .bytes bytes)
    (horigin : originFor c.origins id = some o)
    (hruns : RunsAhead c.ahead c.deployment.portal.runs runs) :
    RunsAhead c.ahead (c.deployment.portal.runs.insert i (.answered a status
      ⟨exchange, o.source, wire.opens exchange bytes⟩)) runs := by
  have hone := onePerQuery_ofAny hcorrect.batched
  obtain ⟨ho, rfl⟩ := originFor_some horigin
  have hblob := Api.blob_of_origin hone h.api h.sourced ho hresponse
  rw [hblob] at hbody
  cases hbody
  obtain ⟨job, hjob, hchannel, hanswers⟩ := h.sourced.made o ho
  obtain ⟨asked, hasked, hquery⟩ := h.api.staged.own job hjob
  obtain ⟨sent, request, hsent, hreceived, hsends⟩ :=
    h.posted i o.reply _ hpost hrun
  cases hsent
  rw [hchannel, hreceived, Option.some.injEq] at hasked
  rw [hquery, ← hasked] at hanswers
  have hahead : c.ahead i = some o.source := by
    unfold Site.ahead
    rw [hpost, Option.bind_some, horigin]
    rfl
  intro j
  by_cases heq : j = i
  · rw [heq, AList.lookup_insert, hruns.lookup hrun, hahead,
      hcorrect.opened hsends hanswers]
    rfl
  · rw [AList.lookup_insert_ne heq]
    exact hruns j

/-- What is turned away has no reply. -/
theorem ahead_of_bad {id : ℕ} {response : HttpResponse} (hcorrect : wire.Correct)
    (h : c.Sound wire cfg limit) (hpost : c.posts.lookup i = some id)
    (hresponse : (id, response) ∈ c.api.responses)
    (hbad : response.ok = false) : c.ahead i = none := by
  have hone := onePerQuery_ofAny hcorrect.batched
  unfold Site.ahead
  rw [hpost, Option.bind_some]
  cases hfound : originFor c.origins id with
  | none => rfl
  | some o =>
      obtain ⟨ho, rfl⟩ := originFor_some hfound
      rw [Api.blob_of_origin hone h.api h.sourced ho hresponse] at hbad
      cases hbad

/-- A good response can be read. -/
theorem arrives {id : ℕ} {a : Address} {status : Directory P}
    {exchange : Exchange P} {response : HttpResponse} (hcorrect : wire.Correct)
    (h : c.Sound wire cfg limit)
    (hrun : c.deployment.portal.runs.lookup i = some (.sent a status exchange))
    (hpost : c.posts.lookup i = some id)
    (hresponse : (id, response) ∈ c.api.responses)
    (hok : response.ok = true) :
    ∃ c', SiteStep wire cfg env follow pir c (.arrive i) c' := by
  have hone := onePerQuery_ofAny hcorrect.batched
  obtain ⟨o, ho, rfl, rfl⟩ :=
    Api.origin_of_ok h.api h.sourced hresponse hok
  have hchannels := Service.Sourced.channels_nodup h.api.batcher hone
  exact ⟨_, .arrive hrun hpost hresponse hok rfl
    (h.sourced.originFor_reply hchannels ho)⟩

theorem picture_step (hcorrect : wire.Correct)
    (hstep : SiteStep wire cfg env follow pir c event c')
    (h : c.Sound wire cfg limit) (hpictures : c.Pictures v) :
    ∃ steps v', Run (DeploymentStep env follow P pir) v steps v' ∧
      steps.filter (fun e => !e.isAnswer) = event.seen ∧ c'.Pictures v' := by
  obtain ⟨runs, rfl, hruns⟩ := hpictures
  cases hstep with
  | @direct e deployment hanswer hrefuse hstep =>
      obtain ⟨runs', hmirror, hahead⟩ :=
        h.picture_direct hanswer hrefuse hstep hruns
      refine ⟨[e], _, .cons hmirror (.nil _), ?_, runs', rfl, hahead⟩
      rw [List.filter_singleton, hanswer]
      rfl
  | api hlistens hstep =>
      obtain ⟨steps, runs', hrun, hnone, hahead⟩ :=
        h.picture_api hlistens hruns
      exact ⟨steps, _, hrun, hnone, runs', rfl, hahead⟩
  | @post i id peer query a status exchange api hlistens hrun hnew hsends
      hstep =>
      have hfresh : id ∉ c.api.received := by
        cases Api.moved hstep.1 with
        | received hfresh => exact hfresh
        | served hserved => cases hserved
      exact ⟨[], _, .nil _, rfl, runs, rfl, h.picture_post hnew hfresh hruns⟩
  | arrive hrun hpost hresponse hok hbody horigin =>
      exact ⟨[], _, .nil _, rfl, runs, rfl,
        h.picture_arrive hcorrect hrun hpost hresponse hbody horigin hruns⟩
  | @refuse i id a status exchange response client hrun hpost hresponse hbad
      hclient =>
      have hlookup := hruns.lookup hrun
      rw [h.ahead_of_bad hcorrect hpost hresponse hbad,
        RunTask.advance_none] at hlookup
      exact ⟨[.page (.refuse i)], _,
        .cons (.page rfl (.refuse hlookup hclient)) (.nil _), rfl, _, rfl,
        hruns.erase i⟩

end Site.Sound

/-- The service with all its queues does what it would do if the queries were
answered on the spot: for the syncer, the thread and the page it is a run of
the deployment with the same events, all that is left of the difference are
replies on their way, and any of them can arrive. -/
theorem posted_queries_answered (hcorrect : wire.Correct) (hmax : 1 ≤ cfg.max)
    {world : ω} {process : Process} {start : PirThread P}
    (hrun : Run (SiteStep wire cfg env follow pir)
      (.launched world process start left limit) events c) :
    ∃ steps runs, Run (DeploymentStep env follow P pir)
        (.launched world process start left) steps (c.picture runs) ∧
      steps.filter (fun e => !e.isAnswer) = events.flatMap SiteEvent.seen ∧
      RunsAhead c.ahead c.deployment.portal.runs runs ∧
      ∀ i id a status exchange response,
        c.deployment.portal.runs.lookup i = some (.sent a status exchange) →
        c.posts.lookup i = some id → (id, response) ∈ c.api.responses →
        response.ok = true →
        ∃ c', SiteStep wire cfg env follow pir c (.arrive i) c' := by
  have hstart : (Site.launched world process start left limit).Pictures
      (.launched world process start left) :=
    ⟨∅, rfl, fun i => rfl⟩
  have hwithin := hrun.within (P := Site.Sound wire cfg limit)
    (Site.sound_launched wire cfg world process start left limit)
    fun hstep h => h.step hcorrect hmax hstep
  obtain ⟨steps, v, hsteps, hseen, runs, rfl, hruns⟩ :=
    hwithin.refine (R := Site.Pictures) hstart
      fun hstep hpictures =>
        Site.Sound.picture_step hcorrect hstep.1 hstep.2 hpictures
  have hsound : c.Sound wire cfg limit := hrun.invariant
    (Site.sound_launched wire cfg world process start left limit)
    fun hstep h => h.step hcorrect hmax hstep
  refine ⟨steps, runs, hsteps, hseen, hruns, ?_⟩
  intro i id a status exchange response hlookup hpost hresponse hok
  exact hsound.arrives hcorrect hlookup hpost hresponse hok

end Sites

/-! ### The first transfer, over the wire -/

namespace FirstTransfer

open FailedSave (holder chain config start balance_lt)
open Sample

def batching : BatchConfig :=
  ⟨0, 1, 1⟩

def plaintext : Option (Address × Entry) → List UInt8
  | none => []
  | some (a, e) => rowBytes a e

def opened (bytes : List UInt8) : Option (Address × Entry) :=
  match readRow bytes .new with
  | .ok (row, _) => some row
  | .error _ => none

def reply (database : Database Table) (query : Query) : Reply :=
  .ok (plaintext (database.record (query.headD 0).toNat))

/-- A query is the byte of its slot, and a reply the row of the record. -/
def wire : Wire (tablePir 2) where
  sends exchange query :=
    exchange.lookup.slot < 256 ∧ query = [UInt8.ofNat exchange.lookup.slot]
  responder database queries outcome :=
    outcome = .answered (queries.map (reply database)) ∨
      ∃ e, outcome = .failed e
  answers database query answer := answer = reply database query
  opens _ bytes := opened bytes

theorem opened_plaintext (record : Option (Address × Entry)) :
    opened (plaintext record) = record := by
  cases record with
  | none => rfl
  | some row =>
      obtain ⟨a, e⟩ := row
      unfold opened plaintext
      have hread : readRow (rowBytes a e ++ []) .new =
          .ok ((a, e), Digest.new.eat (rowBytes a e), []) :=
        readRow_rowBytes a e
      rw [List.append_nil] at hread
      rw [hread]

theorem wire_correct : wire.Correct where
  batched := by
    intro database queries results hresponder
    obtain heq | ⟨e, heq⟩ := hresponder
    · cases heq
      rw [List.forall₂_map_right_iff]
      exact List.forall₂_same.mpr fun query _ => rfl
    · cases heq
  opened := by
    intro exchange query database bytes hsends hanswers
    obtain ⟨hsmall, rfl⟩ := hsends
    have hslot : (UInt8.ofNat exchange.lookup.slot).toNat =
        exchange.lookup.slot := by
      rw [UInt8.toNat_ofNat']
      exact Nat.mod_eq_of_lt hsmall
    cases hanswers
    change opened (plaintext
      (database.record (UInt8.ofNat exchange.lookup.slot).toNat)) = _
    rw [opened_plaintext, hslot]

theorem quiet {database : Database Table} {api api' : Api} {e : ApiEvent}
    (h : api.step batching e = some api')
    (hquiet : ∀ outcome, e ≠ .respond outcome) :
    api.Step batching (wire.responder database) e api' := by
  refine ⟨h, ?_⟩
  intro inner hserved
  cases e with
  | respond outcome => exact absurd rfl (hquiet outcome)
  | tick | work | expire =>
      cases hserved
      trivial
  | _ => cases hserved

theorem responds {c : Site (tablePir 2) Unit} {batch : List Job}
    (hworker : c.api.batcher.worker = .answering batch) :
    c.api.Step batching (wire.responder c.database)
      (.respond (.answered ((batch.map Job.query).map (reply c.database))))
      { c.api with batcher := { c.api.batcher with
        worker := .sending (answer batch
          (.answered ((batch.map Job.query).map (reply c.database))))
        batches := c.api.batcher.batches ++ [(batch,
          .answered ((batch.map Job.query).map (reply c.database)))] } } := by
  constructor
  · unfold Api.step Api.serve Service.step Service.respond
    simp only [hworker, Option.map_some]
  · intro inner hserved
    cases hserved
    left
    unfold Service.asked
    rw [hworker]

/-- The page's query goes through the limiter and the queue. -/
theorem site_run : ∃ events c,
    Run (SiteStep wire batching (Environment.of (chain.Says 1)) config pir)
      (.launched () start empty ⟨true, true⟩ ⟨0, 1⟩) events c ∧
    c.deployment.portal.shown.map Displayed.report =
      [.found holder ⟨5, 1, 0, 0⟩] := by
  have hround := chain.runs_exec (followRound config true) start balance_lt
    finish_ok
  refine ⟨_, _,
    .cons (.direct rfl rfl (.round (.round hround)))
    (.cons (.direct rfl rfl
      (.thread (.work rfl (go rfl)) (.server (.host (.work (go rfl)))) rfl))
    (.cons (.direct rfl rfl
      (.thread (.work rfl (go rfl)) (.server (.host (.work (go rfl)))) rfl))
    (.cons (.direct rfl rfl
      (.thread (.work rfl (go rfl)) (.server (.host (.work (go rfl)))) rfl))
    (.cons (.direct rfl rfl
      (.thread (.work rfl (go rfl)) (.server (.host (.work (go rfl)))) rfl))
    (.cons (.direct rfl rfl
      (.thread (.work rfl (go rfl)) (.server (.host (.work (go rfl)))) rfl))
    (.cons (.direct rfl rfl
      (.thread (.work rfl (go rfl)) (.server (.host (.work (go rfl)))) rfl))
    (.cons (.direct rfl rfl (.thread (.recv finish_sent (.recv rfl))
      (.server (.host (.work (.recv rfl)))) rfl))
    (.cons (.direct rfl rfl
      (.thread (.work rfl (go rfl)) (.server (.host (.work (go rfl)))) rfl))
    (.cons (.direct rfl rfl
      (.thread (.work rfl (go rfl)) (.server (.host (.work (go rfl)))) rfl))
    (.cons (.direct rfl rfl
      (.thread (.work rfl (go rfl)) (.server (.host (.work (go rfl)))) rfl))
    (.cons (.direct rfl rfl
      (.thread (.work rfl (go rfl)) (.server (.host (.work (go rfl)))) rfl))
    (.cons (.direct rfl rfl
      (.thread (.work rfl (go rfl)) (.server (.host (.work (go rfl)))) rfl))
    (.cons (.direct rfl rfl
      (.thread (.work rfl (go rfl)) (.server (.host (.work (go rfl)))) rfl))
    (.cons (.direct rfl rfl
      (.thread (.work rfl (go rfl)) (.server (.host (.work (go rfl)))) rfl))
    (.cons (.direct rfl rfl
      (.thread (.work rfl (go rfl)) (.server (.host (.work (go rfl)))) rfl))
    (.cons (.direct rfl rfl (.page rfl (.sync rfl)))
    (.cons (.direct rfl rfl (.page rfl (.serveStatus rfl rfl rfl)))
    (.cons (.direct rfl rfl (.page rfl (.fetch rfl rfl)))
    (.cons (.direct rfl rfl (.page rfl (.serveDirectory rfl rfl rfl)))
    (.cons (.direct rfl rfl (.page rfl (.install rfl rfl)))
    (.cons (.direct rfl rfl
      (.page rfl (.run (i := 0) (a := holder) (AList.notMem_empty 0))))
    (.cons (.direct rfl rfl (.page rfl (.serveCheck (i := 0) rfl rfl rfl)))
    (.cons (.direct rfl rfl (.page rfl (.check (i := 0) rfl rfl rfl)))
    (.cons (.direct rfl rfl (.page rfl (.query (i := 0) rfl rfl)))
    (.cons (.post (i := 0) rfl rfl (AList.notMem_empty 0) ⟨by decide, rfl⟩
      (quiet (e := .receive 7 ⟨.v4 1, _⟩) rfl nofun))
    (.cons (.api (e := .check 7 0) rfl (quiet rfl nofun))
    (.cons (.api (e := .submit 7) rfl (quiet rfl nofun))
    (.cons (.api (e := .work) rfl (quiet rfl nofun))
    (.cons (.api (e := .work) rfl (quiet rfl nofun))
    (.cons (.api rfl (responds rfl))
    (.cons (.api (e := .work) rfl (quiet rfl nofun))
    (.cons (.api (e := .reply 7) rfl (quiet rfl nofun))
    (.cons (.arrive (i := 0) rfl rfl List.mem_cons_self rfl rfl rfl)
    (.cons (.direct rfl rfl (.page rfl (.decode (i := 0) rfl rfl rfl)))
    (.nil _))))))))))))))))))))))))))))))))))), rfl⟩

/-- It is found as if it had been answered on the spot. -/
theorem posted_queries_answered_first :
    ∃ (steps : List (DeploymentEvent (tablePir 2)))
      (v : Deployment (tablePir 2) Unit),
      Run (DeploymentStep (Environment.of (chain.Says 1)) config (tablePir 2) pir)
        (.launched () start empty ⟨true, true⟩) steps v ∧
      v.portal.shown.map Displayed.report =
        [.found holder ⟨5, 1, 0, 0⟩] := by
  obtain ⟨events, c, hrun, hreports⟩ := site_run
  obtain ⟨steps, runs, hsteps, -, -, -⟩ :=
    posted_queries_answered wire_correct (by decide) hrun
  exact ⟨steps, c.picture runs, hsteps, hreports⟩

end FirstTransfer

end UsdtPir
