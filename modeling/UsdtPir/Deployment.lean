import UsdtPir.PortalReports
import UsdtPir.VouchedEntries

/-!
# The service as a whole

The loop of the syncer, the PIR thread and the page run side by side: passes
fail, queries overtake publishes, blocks are replaced.  Whatever a report says
that an address holds, both balances were balances of that very address in one
block of a chain that the provider had, or were in the map that the service was
started with.
-/

namespace UsdtPir

open Interaction
open Machine
open Program

/-- The provider may change from one chain to another between any two calls. -/
def TellsOf (chains : Set Chain) (q : Request) (answer : Answer q) : Prop :=
  ∃ X ∈ chains, X.Tells q answer

/-- `serve`, and a page beside it. -/
structure Deployment (P : EthPir) (ω : Type) where
  pipeline : Pipeline P ω
  portal : Portal P

inductive DeploymentEvent (P : EthPir)
  | round
  | thread (e : PirEvent P)
  | page (e : PortalEvent P)

def Deployment.launched {P : EthPir} {ω : Type} (world : ω) (process : Process)
    (thread : PirThread P) (left : Leftover) : Deployment P ω :=
  ⟨.launched world process thread,
    { Portal.new P with endpoint := ⟨.up thread left, []⟩ }⟩

def PortalEvent.ofPage {P : EthPir} : PortalEvent P → Bool
  | .server _ => false
  | _ => true

/-- The thread takes its steps for the syncer and for the page at once. -/
inductive DeploymentStep {ω : Type} (env : Environment Request Answer ω)
    (follow : FollowConfig) (P : EthPir) (pir : PirConfig) :
    Deployment P ω → DeploymentEvent P → Deployment P ω → Prop
  | round {v : Deployment P ω} {pipeline : Pipeline P ω}
      (hstep : PipelineStep env follow P pir v.pipeline .round pipeline) :
      DeploymentStep env follow P pir v .round { v with pipeline }
  | thread {v : Deployment P ω} {e : PirEvent P} {pipeline : Pipeline P ω}
      {portal : Portal P} {left : Leftover}
      (hstep : PipelineStep env follow P pir v.pipeline (.thread e) pipeline)
      (hserver : PortalStep P pir v.portal (.server (.host (.work e))) portal)
      (hup : portal.endpoint.host = .up pipeline.thread left) :
      DeploymentStep env follow P pir v (.thread e) ⟨pipeline, portal⟩
  | page {v : Deployment P ω} {e : PortalEvent P} {portal : Portal P}
      (hpage : e.ofPage = true) (hstep : PortalStep P pir v.portal e portal) :
      DeploymentStep env follow P pir v (.page e) { v with portal }

/-- The page does nothing to the server. -/
theorem PortalStep.page_endpoint {P : EthPir} {pir : PirConfig} {s s' : Portal P}
    {e : PortalEvent P} (hstep : PortalStep P pir s e s')
    (hpage : e.ofPage = true) :
    s'.endpoint = s.endpoint ∧ s'.listening = s.listening := by
  cases hstep with
  | server => cases hpage
  | _ => exact ⟨rfl, rfl⟩

/-- The page asks the thread that the syncer sends to. -/
def Deployment.Joined {P : EthPir} {ω : Type} (v : Deployment P ω) : Prop :=
  ∃ left, v.portal.endpoint.host = .up v.pipeline.thread left

theorem Deployment.Joined.step {P : EthPir} {ω : Type}
    {env : Environment Request Answer ω} {follow : FollowConfig}
    {pir : PirConfig} {v v' : Deployment P ω} {event : DeploymentEvent P}
    (hstep : DeploymentStep env follow P pir v event v') (h : v.Joined) :
    v'.Joined := by
  obtain ⟨left, hup⟩ := h
  cases hstep with
  | round hround =>
      cases hround with
      | round => exact ⟨left, hup⟩
  | @thread e pipeline portal left' hthread hserver hup' => exact ⟨left', hup'⟩
  | page hpage hportal =>
      refine ⟨left, ?_⟩
      dsimp only
      rw [(hportal.page_endpoint hpage).1]
      exact hup

section Pages

variable {P : EthPir} {pir : PirConfig} {s s' : Portal P} {e : PortalEvent P}
    {doing : RunTask P → Prop} {done : Displayed P → Prop}

/-- A property of the lookups that go on, and one of what is on the page. -/
structure Portal.Holds (doing : RunTask P → Prop) (done : Displayed P → Prop)
    (s : Portal P) : Prop where
  runs : ∀ i task, s.runs.lookup i = some task → doing task
  shown : ∀ shown ∈ s.shown, done shown

/-- The properties last through a lookup on the server as it is. -/
structure Portal.Carries (doing : RunTask P → Prop) (done : Displayed P → Prop)
    (s : Portal P) : Prop where
  asking : ∀ a, doing (.asking a)
  asked : ∀ thread left a, s.endpoint.host = .up thread left →
    doing (.asking a) → doing (.asked a thread.exposed)
  current : ∀ a status, doing (.asked a status) → doing (.current a status)
  sent : ∀ a status exchange, doing (.current a status) →
    doing (.sent a status exchange)
  answered : ∀ thread left a status exchange,
    s.endpoint.host = .up thread left → doing (.sent a status exchange) →
    doing (.answered a status ⟨exchange, P.database thread.server,
      (P.database thread.server).record exchange.lookup.slot⟩)
  shown : ∀ a status response report (client client' : Client P),
    doing (.answered a status response) →
    client.decode response.exchange.id response.decrypt = (.ok report, client') →
    done ⟨a, status, response, report⟩

namespace Portal.Holds

theorem enter {i : ℕ} {task : RunTask P} (h : s.Holds doing done)
    (htask : doing task) : (s.enter i task).Holds doing done := by
  constructor
  · intro j other hother
    obtain ⟨-, rfl⟩ | ⟨-, hold⟩ := lookup_of_insert hother
    · exact htask
    · exact h.runs j other hold
  · exact h.shown

theorem leave (i : ℕ) (h : s.Holds doing done) :
    (s.leave i).Holds doing done := by
  constructor
  · intro j other hother
    exact h.runs j other (lookup_of_erase hother).2
  · exact h.shown

theorem step (hstep : PortalStep P pir s e s') (hcarries : s.Carries doing done)
    (h : s.Holds doing done) : s'.Holds doing done := by
  cases hstep with
  | server | sync | serveStatus | fetch | upToDate | serveDirectory | install
  | syncFails | refreshStatus => exact ⟨h.runs, h.shown⟩
  | run => exact h.enter (hcarries.asking _)
  | serveCheck hlistens hup hrun =>
      exact h.enter (hcarries.asked _ _ _ hup (h.runs _ _ hrun))
  | check hrun => exact h.enter (hcarries.current _ _ (h.runs _ _ hrun))
  | @query i a status client hrun hclient =>
      have hasked := h.enter (i := i) (hcarries.sent a status
        ⟨(client.query a).1, a, client.directory⟩ (h.runs i _ hrun))
      exact ⟨hasked.runs, hasked.shown⟩
  | answer hlistens hup hrun =>
      exact h.enter (hcarries.answered _ _ _ _ _ hup (h.runs _ _ hrun))
  | @refuse i => exact ⟨(h.leave i).runs, h.shown⟩
  | @decode i a status response client client' report hrun hclient hcall =>
      constructor
      · exact (h.leave i).runs
      · intro shown hshown
        obtain hnew | hold := List.mem_cons.mp hshown
        · rw [hnew]
          exact hcarries.shown a status response report client client'
            (h.runs i _ hrun) hcall
        · exact h.shown shown hold
  | @decodeFails i => exact ⟨(h.leave i).runs, h.shown⟩
  | @runFails i => exact h.leave i

end Portal.Holds

end Pages

section Provenance

variable {P : EthPir} {content : P.Server → Address → Option Entry}
    {good : Address → Entry → Prop} {pir : PirConfig}

/-- The record of a response is good. -/
def RunTask.Vouched (good : Address → Entry → Prop) : RunTask P → Prop
  | .answered _ _ response => ∀ a e, response.record = some (a, e) → good a e
  | _ => True

def Report.Vouched (good : Address → Entry → Prop) (report : Report) : Prop :=
  report.held = true →
    ∃ e, report = .found report.address e ∧ good report.address e

/-- Of what is on its way to the page, and what is on it. -/
def Portal.Vouched (good : Address → Entry → Prop) (s : Portal P) : Prop :=
  s.Holds (RunTask.Vouched good) fun shown => shown.report.Vouched good

/-- A report that an address is held has the record of that address. -/
theorem Report.Vouched.decoded {response : Response P}
    {client client' : Client P} {id : ℕ} {report : Report}
    (hrecord : ∀ a e, response.record = some (a, e) → good a e)
    (hcall : client.decode id response.decrypt = (.ok report, client')) :
    report.Vouched good := by
  intro hheld
  obtain ⟨lookup, -, ⟨entry, hdecrypt, rfl⟩ | ⟨-, rfl⟩⟩ :=
    Client.decode_eq_ok hcall
  · refine ⟨entry, rfl, hrecord lookup.address entry ?_⟩
    unfold Response.decrypt at hdecrypt
    split at hdecrypt
    · cases hdecrypt
    · rename_i a e hfound
      split at hdecrypt
      · rename_i heq
        rw [hfound, heq, Except.ok.inj hdecrypt]
      · cases hdecrypt
  · cases hheld

/-- Only an answer brings a record, and it is one of the database. -/
theorem Portal.Vouched.step {s s' : Portal P} {e : PortalEvent P}
    (hstep : PortalStep P pir s e s')
    (hdatabase : ∀ thread left, s.endpoint.host = .up thread left →
      ∀ a entry, (P.database thread.server).Says a entry → good a entry)
    (h : s.Vouched good) : s'.Vouched good := by
  refine Portal.Holds.step hstep ?_ h
  constructor
  · intro _
    trivial
  · intro _ _ _ _ _
    trivial
  · intro _ _ _
    trivial
  · intro _ _ _ _
    trivial
  · intro thread left a status exchange hup _ b entry hrecord
    exact hdatabase thread left hup b entry ⟨_, hrecord⟩
  · intro a status response report client client' hrecord hcall
    exact .decoded hrecord hcall

variable {ω : Type} {env : Environment Request Answer ω}
    {follow : FollowConfig} {v v' : Deployment P ω} {event : DeploymentEvent P}
    {truth : (q : Request) → Answer q → Prop}

structure Deployment.Vouched (content : P.Server → Address → Option Entry)
    (good : Address → Entry → Prop) (v : Deployment P ω) : Prop where
  process : v.pipeline.process.Vouched good
  channel : ∀ batch ∈ v.pipeline.channel, ∀ row ∈ batch, good row.1 row.2
  thread : v.pipeline.thread.Vouched content good
  joined : v.Joined
  portal : v.portal.Vouched good

namespace Deployment.Vouched

theorem round {pipeline : Pipeline P ω} (hkeeps : env.Keeps truth)
    (hadmits : Admits truth good)
    (hstep : PipelineStep env follow P pir v.pipeline .round pipeline)
    (h : v.Vouched content good) :
    Deployment.Vouched content good { v with pipeline } := by
  obtain ⟨hprocess, hchannel, hthread, hjoined, hportal⟩ := h
  cases hstep with
  | @round final outcome s hround =>
      obtain ⟨passed, stages, hstaged, -, hstages⟩ :=
        (meets_followRound hkeeps.explains).of_ok hround
      have hafter : s.Vouched good := by
        cases hstaged with
        | mk => exact hstages.vouched hadmits hadmits hprocess
      refine ⟨hafter, ?_, hthread, hjoined, hportal⟩
      intro batch hbatch
      obtain hold | hnew := List.mem_append.mp hbatch
      · exact hchannel batch hold
      · exact hafter.sent batch (List.mem_of_mem_drop hnew)

theorem thread_step {e : PirEvent P} {pipeline : Pipeline P ω}
    {portal : Portal P} {left : Leftover} (hlaws : P.Absorbs content)
    (hinstalls : P.Installs)
    (hstep : PipelineStep env follow P pir v.pipeline (.thread e) pipeline)
    (hserver : PortalStep P pir v.portal (.server (.host (.work e))) portal)
    (hup : portal.endpoint.host = .up pipeline.thread left)
    (h : v.Vouched content good) :
    Deployment.Vouched content good ⟨pipeline, portal⟩ := by
  obtain ⟨hprocess, hchannel, hthread, -, hportal⟩ := h
  have hpage : portal.Vouched good := by
    cases hserver with
    | server => exact ⟨hportal.runs, hportal.shown⟩
  cases hstep with
  | @recv batch rest thread hbatches hpir =>
      have hbrings : ∀ row ∈ batch, good row.1 row.2 := by
        apply hchannel
        rw [hbatches]
        exact List.mem_cons_self
      refine ⟨hprocess, ?_, hthread.step hlaws hinstalls hpir hbrings,
        ⟨left, hup⟩, hpage⟩
      intro other hother
      apply hchannel
      rw [hbatches]
      exact List.mem_cons_of_mem _ hother
  | @work e thread hown hpir =>
      have hbrings : ∀ row ∈ e.brings, good row.1 row.2 := by
        rw [brings_eq_nil hown]
        intro row hrow
        cases hrow
      exact ⟨hprocess, hchannel, hthread.step hlaws hinstalls hpir hbrings,
        ⟨left, hup⟩, hpage⟩

theorem page {e : PortalEvent P}
    (hstep : DeploymentStep env follow P pir v (.page e) v')
    (h : v.Vouched content good) : v'.Vouched content good := by
  have hjoined := h.joined.step hstep
  obtain ⟨hprocess, hchannel, hthread, ⟨left, hup⟩, hportal⟩ := h
  cases hstep with
  | @page _ portal hpage hstep =>
      have hafter : portal.Vouched good := by
        apply hportal.step hstep
        intro thread other hother
        rw [hup] at hother
        cases hother
        exact hthread.database
      exact ⟨hprocess, hchannel, hthread, hjoined, hafter⟩

theorem step (hlaws : P.Absorbs content) (hinstalls : P.Installs)
    (hkeeps : env.Keeps truth) (hadmits : Admits truth good)
    (hstep : DeploymentStep env follow P pir v event v')
    (h : v.Vouched content good) : v'.Vouched content good := by
  have hagain := hstep
  cases hstep with
  | round hround => exact h.round hkeeps hadmits hround
  | thread hthread hserver hup =>
      exact h.thread_step hlaws hinstalls hthread hserver hup
  | page hpage hportal => exact h.page hagain

end Deployment.Vouched

theorem admits_balances {chains : Set Chain} {map : BalanceMap} :
    Admits (TellsOf chains) fun a e => map.get a = some e ∨
      ∃ X ∈ chains, ∃ block, e.reading.balances = X.balances a block := by
  intro block a e hanswered
  obtain ⟨chunk, results, replies, ⟨X, hX, htells⟩, hread⟩ := hanswered
  have hreads : X.BacksReads X.Tells := fun q answer h _ => h
  exact .inr ⟨X, hX, block,
    answered_balances hreads ⟨chunk, results, replies, htells, hread⟩⟩

/-- No report invents a balance, whatever fails, overtakes or is replaced. -/
theorem reports_were_read (hlaws : P.Absorbs content) (hinstalls : P.Installs)
    {chains : Set Chain} (hkeeps : env.Keeps (TellsOf chains))
    {initial : PirSnapshot} {files : KeywordFiles P} {fresh : Bool} {world : ω}
    {process : Process} {start : PirThread P} {left : Leftover}
    {events : List (DeploymentEvent P)} (hopen : Opens P initial files fresh start)
    (hinitial : ∀ a, initial.lookup a = process.map.get a)
    (hunchanged : process.changed = ∅) (hsilent : process.sent = [])
    (hrun : Run (DeploymentStep env follow P pir)
      (.launched world process start left) events v) :
    ∀ shown ∈ v.portal.shown, shown.report.held = true →
      ∃ e, shown.report = .found shown.report.address e ∧
        (process.map.get shown.report.address = some e ∨
          ∃ X ∈ chains, ∃ block,
            e.reading.balances = X.balances shown.report.address block) := by
  let good : Address → Entry → Prop := fun a e => process.map.get a = some e ∨
    ∃ X ∈ chains, ∃ block, e.reading.balances = X.balances a block
  have hstart : Deployment.Vouched content good
      (Deployment.launched world process start left : Deployment P ω) := by
    constructor
    · constructor
      · intro a e hget
        exact .inl hget
      · intro a e hlookup
        change process.changed.lookup a = some e at hlookup
        rw [hunchanged] at hlookup
        cases hlookup
      · intro batch hbatch
        change batch ∈ process.sent at hbatch
        rw [hsilent] at hbatch
        cases hbatch
    · intro batch hbatch
      cases hbatch
    · apply hopen.vouched hlaws
      intro a e hlookup
      rw [hinitial] at hlookup
      exact .inl hlookup
    · exact ⟨left, rfl⟩
    · constructor
      · intro i task htask
        cases htask
      · intro shown hshown
        cases hshown
  have hlast := hrun.invariant (P := Deployment.Vouched content good) hstart
    fun hstep h => h.step hlaws hinstalls hkeeps admits_balances hstep
  exact hlast.portal.shown

end Provenance

namespace FirstTransfer

open FailedSave (holder chain config start balance_lt)
open Sample

/-- A pass reads the first transfer, its batch is published, and the page looks
the holder up. -/
theorem deployment_run : ∃ events v,
    Run (DeploymentStep (Environment.of (chain.Says 1)) config (tablePir 2) pir)
      (.launched () start empty ⟨true, true⟩) events v ∧
    v.portal.shown.map Displayed.report = [.found holder ⟨5, 1, 0, 0⟩] := by
  have hround := chain.runs_exec (followRound config true) start balance_lt
    finish_ok
  refine ⟨_, _,
    .cons (.round (.round hround))
    (.cons (.thread (.work rfl (go rfl)) (.server (.host (.work (go rfl)))) rfl)
    (.cons (.thread (.work rfl (go rfl)) (.server (.host (.work (go rfl)))) rfl)
    (.cons (.thread (.work rfl (go rfl)) (.server (.host (.work (go rfl)))) rfl)
    (.cons (.thread (.work rfl (go rfl)) (.server (.host (.work (go rfl)))) rfl)
    (.cons (.thread (.work rfl (go rfl)) (.server (.host (.work (go rfl)))) rfl)
    (.cons (.thread (.work rfl (go rfl)) (.server (.host (.work (go rfl)))) rfl)
    (.cons (.thread (.recv finish_sent (.recv rfl))
      (.server (.host (.work (.recv rfl)))) rfl)
    (.cons (.thread (.work rfl (go rfl)) (.server (.host (.work (go rfl)))) rfl)
    (.cons (.thread (.work rfl (go rfl)) (.server (.host (.work (go rfl)))) rfl)
    (.cons (.thread (.work rfl (go rfl)) (.server (.host (.work (go rfl)))) rfl)
    (.cons (.thread (.work rfl (go rfl)) (.server (.host (.work (go rfl)))) rfl)
    (.cons (.thread (.work rfl (go rfl)) (.server (.host (.work (go rfl)))) rfl)
    (.cons (.thread (.work rfl (go rfl)) (.server (.host (.work (go rfl)))) rfl)
    (.cons (.thread (.work rfl (go rfl)) (.server (.host (.work (go rfl)))) rfl)
    (.cons (.thread (.work rfl (go rfl)) (.server (.host (.work (go rfl)))) rfl)
    (.cons (.page rfl (.sync rfl))
    (.cons (.page rfl (.serveStatus rfl rfl rfl))
    (.cons (.page rfl (.fetch rfl rfl))
    (.cons (.page rfl (.serveDirectory rfl rfl rfl))
    (.cons (.page rfl (.install rfl rfl))
    (.cons (.page rfl (.run (i := 0) (a := holder) (AList.notMem_empty 0)))
    (.cons (.page rfl (.serveCheck (i := 0) rfl rfl rfl))
    (.cons (.page rfl (.check (i := 0) rfl rfl rfl))
    (.cons (.page rfl (.query (i := 0) rfl rfl))
    (.cons (.page rfl (.answer (i := 0) rfl rfl rfl))
    (.cons (.page rfl (.decode (i := 0) rfl rfl rfl))
    (.nil _))))))))))))))))))))))))))), rfl⟩

theorem keeps_tellsOf :
    (Environment.of (chain.Says 1)).Keeps (TellsOf {chain}) :=
  fun _ _ _ _ h => ⟨chain, rfl, h.1⟩

theorem reports_were_read_first : ∃ v : Deployment (tablePir 2) Unit,
    v.portal.shown.map Displayed.report = [.found holder ⟨5, 1, 0, 0⟩] ∧
      ∃ block, (5, 0) = chain.balances holder block := by
  obtain ⟨events, v, hrun, hreports⟩ := deployment_run
  have hopen : Opens (tablePir 2) ∅ (noFiles 2) true empty :=
    .built rfl ⟨[], .refl _, rfl⟩ rfl
  refine ⟨v, hreports, ?_⟩
  obtain ⟨shown, hshown, hreport⟩ : ∃ shown ∈ v.portal.shown,
      shown.report = .found holder ⟨5, 1, 0, 0⟩ := by
    have hmem : .found holder ⟨5, 1, 0, 0⟩ ∈
        v.portal.shown.map Displayed.report := by
      rw [hreports]
      exact List.mem_cons_self
    exact List.mem_map.mp hmem
  have hheld : shown.report.held = true := by
    rw [hreport]
    rfl
  obtain ⟨e, hfound, hread⟩ := reports_were_read tablePir_absorbs
    tablePir_installs keeps_tellsOf hopen (fun a => rfl) rfl rfl hrun shown
    hshown hheld
  rw [hreport] at hfound hread
  have husdt : 5 = e.usdt := congrArg (fun r => r.usdt.raw) hfound
  have husdc : 0 = e.usdc := congrArg (fun r => r.usdc.raw) hfound
  obtain hlaunched | ⟨X, hX, block, hbalances⟩ := hread
  · cases hlaunched
  · cases hX
    refine ⟨block, ?_⟩
    have hpair : e.reading.balances = (5, 0) := by
      change (e.usdt.toNat, e.usdc.toNat) = (5, 0)
      rw [← husdt, ← husdc]
      rfl
    rw [← hpair]
    exact hbalances

end FirstTransfer

end UsdtPir
