import UsdtPir.Deployment
import UsdtPir.RestartedRepair

/-!
# Lookups on a settled service

Once everything is sent, accepted, installed and exposed, a lookup gives the
balances that the chain has at the cursor of the syncer, until something else is
installed or exposed: whatever the syncer and the thread do meanwhile, and
however the lookups overlap.
-/

namespace UsdtPir

open Following
open Interaction
open Machine
open Program

/-- What a report says of the two balances. -/
def Report.balances (report : Report) : Balances :=
  (report.usdt.raw.toNat, report.usdc.raw.toNat)

section Components

variable {P : EthPir} {ω : Type} {env : Environment Request Answer ω}
    {follow : FollowConfig} {pir : PirConfig} {v v' : Deployment P ω}
    {event : DeploymentEvent P} {events : List (DeploymentEvent P)}

def DeploymentEvent.pipeline : DeploymentEvent P → List (PipelineEvent P)
  | .round => [.round]
  | .thread e => [.thread e]
  | .page _ => []

def DeploymentEvent.portal : DeploymentEvent P → List (PortalEvent P)
  | .round => []
  | .thread e => [.server (.host (.work e))]
  | .page e => [e]

/-- `publish_directory` fails only once a directory was exposed. -/
def Deployment.ExposesFirst (v : Deployment P ω) : DeploymentEvent P → Prop
  | .thread e => UsdtPir.ExposesFirst v.portal.endpoint (.host (.work e))
  | _ => True

theorem DeploymentStep.pipeline
    (h : DeploymentStep env follow P pir v event v') :
    Run (PipelineStep env follow P pir) v.pipeline event.pipeline
      v'.pipeline := by
  cases h with
  | round hstep => exact .cons hstep (.nil _)
  | thread hstep => exact .cons hstep (.nil _)
  | page hpage hstep => exact .nil _

theorem DeploymentStep.portal
    (h : DeploymentStep env follow P pir v event v')
    (hexposes : v.ExposesFirst event) :
    Run (fun s e s' => PortalStep P pir s e s' ∧ NumbersOn s e) v.portal
      event.portal v'.portal := by
  cases h with
  | round hstep => exact .nil _
  | thread hstep hserver =>
      have hnumbers : NumbersOn v.portal (.server (.host (.work _))) :=
        ⟨trivial, hexposes⟩
      exact .cons ⟨hserver, hnumbers⟩ (.nil _)
  | @page e portal hpage hstep =>
      have hnumbers : NumbersOn v.portal e := by
        cases e with
        | server => cases hpage
        | _ => trivial
      exact .cons ⟨hstep, hnumbers⟩ (.nil _)

/-- The rounds of the syncer are those of its loop. -/
theorem Pipeline.followed {world : ω} {process : Process} {start : PirThread P}
    {events : List (PipelineEvent P)} {p : Pipeline P ω}
    (hrun : Run (PipelineStep env follow P pir) (.launched world process start)
      events p) :
    FollowRun env follow true world process p.rounds p.world p.process := by
  apply hrun.invariant
    (P := fun p => FollowRun env follow true world process p.rounds p.world
      p.process) .start
  intro p e p' hstep h
  cases hstep with
  | round hround => exact .round h hround
  | recv | work => exact h

end Components

section Settled

variable {P : EthPir} {ω : Type} {env : Environment Request Answer ω}
    {follow : FollowConfig} {pir : PirConfig} {v v' : Deployment P ω}
    {event : DeploymentEvent P}

/-- What is served and what is exposed. -/
structure Standing (P : EthPir) where
  exposed : Directory P
  database : Database P.Mphf

def PirThread.standing (thread : PirThread P) : Standing P :=
  ⟨thread.exposed, P.database thread.server⟩

/-- Nothing is installed, and nothing exposed. -/
def PirEvent.keeps : PirEvent P → Bool
  | .expose (some _) => false
  | e => !e.installs

def DeploymentEvent.keeps : DeploymentEvent P → Bool
  | .thread e => e.keeps
  | _ => true

theorem PirThread.standing_step (hinstalls : P.Installs)
    {thread thread' : PirThread P} {e : PirEvent P}
    (hstep : PirStep P pir thread e thread') (hkeeps : e.keeps = true) :
    thread'.standing = thread.standing := by
  unfold standing
  cases hstep with
  | update hphase hcall => rw [hinstalls.update_database hcall]
  | @publish answer server hphase hcall =>
      cases answer with
      | ok done => cases hkeeps
      | error fault => rw [hinstalls.publish_fails hcall]
  | rebuilt => cases hkeeps
  | rebuildFails hphase htest hcall => rw [hinstalls.rebuild_keeps hcall]
  | expose => cases hkeeps
  | _ => rfl

/-- What the lookup was told, and what answered it. -/
def RunTask.From (now : Standing P) : RunTask P → Prop
  | .asking _ => True
  | .asked _ status | .current _ status | .sent _ status _ =>
      status = now.exposed
  | .answered _ status response =>
      status = now.exposed ∧ response.database = now.database

def Displayed.From (now : Standing P) (shown : Displayed P) : Prop :=
  shown.status = now.exposed ∧ shown.response.database = now.database

/-- Since `now`, with what was shown before. -/
def Portal.Since (now : Standing P) (before : List (Displayed P))
    (s : Portal P) : Prop :=
  s.Holds (RunTask.From now) fun shown => shown ∈ before ∨ shown.From now

theorem Portal.Since.step {now : Standing P} {before : List (Displayed P)}
    {s s' : Portal P} {e : PortalEvent P} (hstep : PortalStep P pir s e s')
    (hnow : ∀ thread left, s.endpoint.host = .up thread left →
      thread.standing = now)
    (h : s.Since now before) : s'.Since now before := by
  refine Portal.Holds.step hstep ?_ h
  constructor
  · intro _
    trivial
  · intro thread left a hup _
    exact congrArg Standing.exposed (hnow thread left hup)
  · intro a status htold
    exact htold
  · intro a status exchange htold
    exact htold
  · intro thread left a status exchange hup htold
    exact ⟨htold, congrArg Standing.database (hnow thread left hup)⟩
  · intro a status response report client client' hfrom _
    exact .inr hfrom

/-- The page and the syncer see one thread, and nothing new stands. -/
structure Deployment.Since (now : Standing P) (before : List (Displayed P))
    (v : Deployment P ω) : Prop where
  standing : v.pipeline.thread.standing = now
  joined : v.Joined
  listening : v.portal.listening = true
  portal : v.portal.Since now before

theorem Deployment.Since.step {now : Standing P} {before : List (Displayed P)}
    (hinstalls : P.Installs) (hstep : DeploymentStep env follow P pir v event v')
    (hkeeps : event.keeps = true) (h : v.Since now before) :
    v'.Since now before := by
  have hjoined := h.joined.step hstep
  obtain ⟨hstanding, ⟨left, hup⟩, hlistening, hportal⟩ := h
  have hnow : ∀ thread other, v.portal.endpoint.host = .up thread other →
      thread.standing = now := by
    intro thread other hother
    rw [hup] at hother
    cases hother
    exact hstanding
  cases hstep with
  | round hround =>
      cases hround with
      | round => exact ⟨hstanding, hjoined, hlistening, hportal⟩
  | @thread e pipeline portal left' hthread hserver hup' =>
      have hafter : pipeline.thread.standing = now := by
        rw [← hstanding]
        cases hthread with
        | recv hbatches hpir => exact PirThread.standing_step hinstalls hpir hkeeps
        | work hown hpir => exact PirThread.standing_step hinstalls hpir hkeeps
      refine ⟨hafter, hjoined, ?_, hportal.step hserver hnow⟩
      cases hserver with
      | server => simp [listens_work, hlistening]
  | @page e portal hpage hstep =>
      refine ⟨hstanding, hjoined, ?_, hportal.step hstep hnow⟩
      exact (hstep.page_endpoint hpage).2.trans hlistening

end Settled

section Launched

variable {P : EthPir} {pir : PirConfig} {thread : PirThread P}
    {initial : PirSnapshot} {files : KeywordFiles P} {fresh : Bool}

end Launched

section Records

variable {P : EthPir} {server : P.Server} {view : Address → Option Entry}
    {a : Address} {e : Entry}

end Records

/-- What the map has, and two zeros where it has nothing. -/
theorem Right.balances {X : Chain} {start : ℕ} {a : Address} {map : BalanceMap}
    (h : Right X start a map) (ha : a ≠ Address.zero) :
    (map.holding a).getD (0, 0) = X.balances a map.cursor ∨
      (map.holding a).getD (0, 0) = (0, 0) ∧
        ¬ X.TouchedWithin (start + 1) map.cursor a := by
  by_cases htouched : X.TouchedWithin (start + 1) map.cursor a
  · left
    apply h.getD_of_touched
    exact (touchedWithin_iff (Nat.succ_pos start) ha).mp htouched
  · cases hheld : map.holding a with
    | none => exact .inr ⟨rfl, htouched⟩
    | some b => exact .inl (h.1 b hheld)

section Lookups

variable {P : EthPir} {content : P.Server → Address → Option Entry} {X : Chain}
    {follow : FollowConfig} {pir : PirConfig} {n start head : ℕ}
    {initial : PirSnapshot} {files : KeywordFiles P} {fresh : Bool}
    {process : Process} {thread : PirThread P} {left : Leftover}
    {v v' : Deployment P ℕ} {events later : List (DeploymentEvent P)}

/-- The last pass returned `Ok`, all of the map was sent, all that was sent is
accepted and installed, the layout of the database is exposed, and no lookup is
under way. -/
structure Deployment.Settled (view : Address → Option Entry)
    (v : Deployment P ℕ) : Prop where
  passed : ∃ r, v.pipeline.rounds.getLast? = some r ∧ r.outcome = .ok ()
  sent : pirView view v.pipeline.process.sent = v.pipeline.process.map.get
  drained : v.pipeline.channel = []
  absorbed : v.pipeline.thread.unabsorbed = []
  installed : accepted (installed v.pipeline.steps) = received v.pipeline.steps
  exposed : v.pipeline.thread.exposed.parsed =
    (P.database v.pipeline.thread.server).layout
  listening : v.portal.listening = true
  idle : ∀ i, v.portal.runs.lookup i = none

/-- The database has the map, and the map is right. -/
theorem Deployment.Settled.database (hlaws : P.Absorbs content)
    (hinstalls : P.Installs) (hquiet : X.Quiet)
    (htip : follow.tip = .confirmations n)
    (hopen : Opens P initial files fresh thread)
    (hinitial : ∀ a, initial.lookup a = process.map.get a)
    (hsilent : process.sent = []) (hunarmed : process.watch.cursorHash = none)
    (hright : ∀ a, a ≠ Address.zero → Right X start a process.map)
    {steps : List (PipelineEvent P)}
    (hrun : Run (PipelineStep X.growing follow P pir)
      (.launched head process thread) steps v.pipeline)
    (h : v.Settled process.map.get) :
    (P.database v.pipeline.thread.server).Shows v.pipeline.process.map.get ∧
      ∀ a, a ≠ Address.zero → Right X start a v.pipeline.process.map := by
  obtain ⟨r, hr, hok⟩ := h.passed
  have hsound := hrun.invariant (P := Pipeline.Sound follow pir thread)
    (Pipeline.sound_launched hopen hsilent) fun hstep h => h.step hstep
  constructor
  · have hshows := hsound.shows hlaws hinstalls hopen hinitial h.drained
      h.absorbed h.installed
    rw [h.sent] at hshows
    exact hshows
  · intro a ha
    have hreorgable : follow.tip.isReorgable = true := by
      rw [htip]
      rfl
    have hbefore : UnderHead (Guards X follow.reorgWindow (some start)
        process.map.cursor a) n head process :=
      ⟨head - n, le_rfl, (hright a ha).guards hunarmed⟩
    have hrounds := ((Guards.lasting hreorgable (hquiet.quietAt ha)).followRun
      (fun _ _ => trivial) htip (Pipeline.followed hrun) hbefore).2
    have hrest := Guards.right (hrounds r (List.mem_of_getLast? hr) hok)
    rw [hsound.latest r hr] at hrest
    exact hrest

end Lookups

namespace SettledTransfer

open FailedSave (holder chain start balance_lt)
open FirstTransfer (pir empty go)
open Sample

def config : FollowConfig :=
  ⟨50, 600, .confirmations 0, 64, .wrapping⟩

def finish : Process :=
  ((followRound config true).exec (chain.respond 1 3) () start).1.2

theorem finish_ok :
    ((followRound config true).exec (chain.respond 1 3) () start).1.1 =
      .ok (.ok ()) := by
  decide +kernel

theorem finish_sent : finish.sent = [[(holder, ⟨5, 1, 0, 0⟩)]] := by
  decide +kernel

theorem finish_map : finish.map.inner = AList.singleton holder ⟨5, 1, 0, 0⟩ := by
  apply AList.ext
  decide +kernel

/-- All of the map was sent. -/
theorem finish_view : pirView start.map.get finish.sent = finish.map.get := by
  rw [finish_sent]
  funext a
  change viewAfter start.map.get [(holder, ⟨5, 1, 0, 0⟩)] a =
    finish.map.inner.lookup a
  rw [finish_map]
  by_cases heq : holder = a
  · rw [← heq, viewAfter_single_self]
    rfl
  · rw [viewAfter_single_ne heq]
    have hnone : (AList.singleton holder ⟨5, 1, 0, 0⟩ :
        HashMap Address Entry).lookup a = none := by
      apply AList.lookup_eq_none.mpr
      intro hmem
      exact heq (List.mem_singleton.mp hmem).symm
    rw [hnone]
    rfl

/-- A pass reads the first transfer, and its batch is published. -/
theorem run : ∃ events v,
    Run (fun v e v' =>
      DeploymentStep chain.growing config (tablePir 2) pir v e v' ∧
        v.ExposesFirst e) (.launched 1 start empty ⟨true, true⟩) events v ∧
    v.Settled start.map.get ∧ v.portal.shown = [] ∧
    v.pipeline.process = finish ∧ ∃ later v',
    ((events ++ later).flatMap DeploymentEvent.portal).countP
      PortalEvent.isQuery = 1 ∧
    Run (fun v e v' =>
      DeploymentStep chain.growing config (tablePir 2) pir v e v' ∧
        v.ExposesFirst e ∧ e.keeps = true) v later v' ∧
    v'.portal.shown.map Displayed.address = [holder] ∧
    v'.portal.shown.map Displayed.report = [.found holder ⟨5, 1, 0, 0⟩] := by
  have hround := chain.runs_growing (followRound config true) start balance_lt
    finish_ok
  refine ⟨_, _,
    .cons ⟨.round (.round hround), trivial⟩
    (.cons ⟨.thread (.work rfl (go rfl)) (.server (.host (.work (go rfl)))) rfl,
      trivial⟩
    (.cons ⟨.thread (.work rfl (go rfl)) (.server (.host (.work (go rfl)))) rfl,
      trivial⟩
    (.cons ⟨.thread (.work rfl (go rfl)) (.server (.host (.work (go rfl)))) rfl,
      trivial⟩
    (.cons ⟨.thread (.work rfl (go rfl)) (.server (.host (.work (go rfl)))) rfl,
      trivial⟩
    (.cons ⟨.thread (.work rfl (go rfl)) (.server (.host (.work (go rfl)))) rfl,
      trivial⟩
    (.cons ⟨.thread (.work rfl (go rfl)) (.server (.host (.work (go rfl)))) rfl,
      trivial⟩
    (.cons ⟨.thread (.recv finish_sent (.recv rfl))
      (.server (.host (.work (.recv rfl)))) rfl, trivial⟩
    (.cons ⟨.thread (.work rfl (go rfl)) (.server (.host (.work (go rfl)))) rfl,
      trivial⟩
    (.cons ⟨.thread (.work rfl (go rfl)) (.server (.host (.work (go rfl)))) rfl,
      trivial⟩
    (.cons ⟨.thread (.work rfl (go rfl)) (.server (.host (.work (go rfl)))) rfl,
      trivial⟩
    (.cons ⟨.thread (.work rfl (go rfl)) (.server (.host (.work (go rfl)))) rfl,
      trivial⟩
    (.cons ⟨.thread (.work rfl (go rfl)) (.server (.host (.work (go rfl)))) rfl,
      trivial⟩
    (.cons ⟨.thread (.work rfl (go rfl)) (.server (.host (.work (go rfl)))) rfl,
      trivial⟩
    (.cons ⟨.thread (.work rfl (go rfl)) (.server (.host (.work (go rfl)))) rfl,
      trivial⟩
    (.cons ⟨.thread (.work rfl (go rfl)) (.server (.host (.work (go rfl)))) rfl,
      trivial⟩
    (.nil _)))))))))))))))), ?_, rfl, rfl, _, _, rfl,
    .cons ⟨.page rfl (.sync rfl), trivial, rfl⟩
    (.cons ⟨.page rfl (.serveStatus rfl rfl rfl), trivial, rfl⟩
    (.cons ⟨.page rfl (.fetch rfl rfl), trivial, rfl⟩
    (.cons ⟨.page rfl (.serveDirectory rfl rfl rfl), trivial, rfl⟩
    (.cons ⟨.page rfl (.install rfl rfl), trivial, rfl⟩
    (.cons ⟨.page rfl (.run (i := 0) (a := holder) (AList.notMem_empty 0)),
      trivial, rfl⟩
    (.cons ⟨.page rfl (.serveCheck (i := 0) rfl rfl rfl), trivial, rfl⟩
    (.cons ⟨.page rfl (.check (i := 0) rfl rfl rfl), trivial, rfl⟩
    (.cons ⟨.page rfl (.query (i := 0) rfl rfl), trivial, rfl⟩
    (.cons ⟨.page rfl (.answer (i := 0) rfl rfl rfl), trivial, rfl⟩
    (.cons ⟨.page rfl (.decode (i := 0) rfl rfl rfl), trivial, rfl⟩
    (.nil _))))))))))), rfl, rfl⟩
  exact ⟨⟨_, rfl, rfl⟩, finish_view, rfl, rfl, rfl, rfl, rfl, fun _ => rfl⟩

theorem quiet : chain.Quiet := by
  apply Chain.sketch_quiet
  intro a b hne
  have hzero : holder ≠ Address.zero := by decide
  by_cases ha : a = holder
  · subst ha
    have hb : b = 0 := by
      by_contra hb
      have hpos : 1 ≤ b := Nat.one_le_iff_ne_zero.mpr hb
      simp [hpos] at hne
    subst hb
    exact ⟨hzero, by decide⟩
  · simp [ha] at hne

end SettledTransfer

end UsdtPir
