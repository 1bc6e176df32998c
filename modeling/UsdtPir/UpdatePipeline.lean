import UsdtPir.FollowReports
import UsdtPir.ServedRecords

/-!
# From the syncer to the served database

`serve` runs the loop of the syncer and the PIR thread side by side, with a
channel from one to the other.  No update is lost, repeated or overtaken on the
way, however the two interleave; and once the thread has caught up, queries are
answered from the map of the syncer as far as its passes report it.
-/

namespace UsdtPir

open Interaction
open Machine
open Program

/-- The loop of the syncer with its rounds so far, the batches on their way, and
the PIR thread with its steps so far. -/
structure Pipeline (P : EthPir) (ω : Type) where
  world : ω
  process : Process
  channel : List UpdateBatch
  thread : PirThread P
  rounds : List RoundRecord
  steps : List (PirEvent P)

inductive PipelineEvent (P : EthPir)
  | round
  | thread (e : PirEvent P)

/-- `serve` after its first catch-up: the database is built from the map. -/
def Pipeline.launched {P : EthPir} {ω : Type} (world : ω) (process : Process)
    (thread : PirThread P) : Pipeline P ω :=
  ⟨world, process, [], thread, [], []⟩

/-- Neither end of the channel has a part in it. -/
def PirEvent.isOwn {P : EthPir} : PirEvent P → Bool
  | .recv _ | .disconnected => false
  | _ => true

/-- The syncer holds its end of the channel, so that the thread does not stop. -/
inductive PipelineStep {ω : Type} (env : Environment Request Answer ω)
    (follow : FollowConfig) (P : EthPir) (pir : PirConfig) :
    Pipeline P ω → PipelineEvent P → Pipeline P ω → Prop
  | round {p : Pipeline P ω} {final : ω} {outcome : Except Failure Unit}
      {s : Process}
      (hround : (followRound follow true).Runs env p.world p.process final
        (.ok outcome) s) :
      PipelineStep env follow P pir p .round
        { p with
          world := final
          process := s
          channel := p.channel ++ s.sent.drop p.process.sent.length
          rounds := p.rounds ++ [⟨p.process, outcome, s⟩] }
  | recv {p : Pipeline P ω} {batch : UpdateBatch} {rest : List UpdateBatch}
      {thread : PirThread P} (hchannel : p.channel = batch :: rest)
      (hstep : PirStep P pir p.thread (.recv batch) thread) :
      PipelineStep env follow P pir p (.thread (.recv batch))
        { p with
          channel := rest
          thread
          steps := p.steps ++ [.recv batch] }
  | work {p : Pipeline P ω} {e : PirEvent P} {thread : PirThread P}
      (hown : e.isOwn = true)
      (hstep : PirStep P pir p.thread e thread) :
      PipelineStep env follow P pir p (.thread e)
        { p with thread, steps := p.steps ++ [e] }

/-- The updates of the batch that is being absorbed. -/
def PirThread.unabsorbed {P : EthPir} (thread : PirThread P) : UpdateBatch :=
  match thread.phase with
  | .absorbing rest => rest
  | _ => []

section Rounds

variable {stages : Stages} {cfg : FollowConfig} {s s' : Process}
    {outcome : Except Failure Unit}

theorem RepairStep.sent {truth : (q : Request) → Answer q → Prop}
    (h : RepairStep truth cfg s s') : s'.sent = s.sent := by
  obtain ⟨repairs, hcorrected⟩ := h.corrected
  exact hcorrected.sent

theorem PassFails.sent (h : PassFails stages cfg s s') : s'.sent = s.sent := by
  cases h with
  | checking => rfl
  | resolving hrepair => exact hrepair.sent
  | advancing hrepair htarget hfails =>
      rw [← hrepair.sent]
      cases hfails with
      | syncing hlt hstart hchunks =>
          obtain ⟨progress, hstarted⟩ := hstart
          rw [hchunks.sameOutside.sent, hstarted]
          rfl
      | finishing hlt hstart hchunks hend hwatch hsaved hstate =>
          obtain ⟨progress, hstarted⟩ := hstart
          rw [hstate]
          have hsame := hchunks.sameOutside.sent
          rw [hstarted] at hsame
          exact hsame

/-- A round sends one batch at most. -/
theorem Round.sent (h : Round stages cfg true s outcome s') :
    ∃ batches, s'.sent = s.sent ++ batches := by
  obtain ⟨-, s₁, hok, hs'⟩ | ⟨chain, -, s₁, hfails, -, hs'⟩ := h
  · rw [hs']
    obtain @⟨s₂, target, hrepair, -, hadvanced⟩ := hok
    rw [← hrepair.sent]
    cases hadvanced with
    | idle hle => exact ⟨[], (List.append_nil _).symm⟩
    | @synced s₃ s₄ s₅ lo hlt hstart hchunks hend hwatch hpublished hstate =>
        obtain ⟨progress, hstarted⟩ := hstart
        have hsame : s₄.sent = s₂.sent := by
          rw [hchunks.sameOutside.sent, hstarted]
          rfl
        rw [← hsame]
        obtain ⟨-, hnothing⟩ | ⟨-, batch, -, hbatch⟩ := hpublished
        · exact ⟨[], hnothing.trans (List.append_nil _).symm⟩
        · exact ⟨[batch], hbatch⟩
  · rw [hs']
    exact ⟨[], hfails.sent.trans (List.append_nil _).symm⟩

end Rounds

section Pipelines

variable {P : EthPir} {ω : Type} {env : Environment Request Answer ω}
    {follow : FollowConfig} {pir : PirConfig} {p p' : Pipeline P ω}
    {event : PipelineEvent P} {events : List (PipelineEvent P)}
    {thread thread' start : PirThread P} {e : PirEvent P}

/-- The updates that a step takes from the channel. -/
def PirEvent.brings : PirEvent P → UpdateBatch
  | .recv batch => batch
  | _ => []

theorem unabsorbed_step (hstep : PirStep P pir thread e thread') :
    e.brings ++ thread.unabsorbed = received [e] ++ thread'.unabsorbed := by
  cases hstep with
  | @recv batch hphase =>
      unfold PirThread.unabsorbed
      rw [hphase]
      exact List.append_nil batch
  | update hphase hcall =>
      unfold PirThread.unabsorbed
      rw [hphase]
      rfl
  | deadline hphase | disconnected hphase | absorbed hphase | publish hphase
  | keepIndex hphase | rebuilt hphase | rebuildFails hphase | checkpoint hphase
  | checkpointFails hphase | saveKeys hphase | saveKeysFails hphase
  | saveIndex hphase | saveIndexFails hphase | serialize hphase
  | serializeFails hphase | persist hphase | persistFails hphase
  | expose hphase | exposeFails hphase =>
      unfold PirThread.unabsorbed
      rw [hphase]
      rfl

theorem brings_eq_nil (h : e.isOwn = true) : e.brings = [] := by
  cases e with
  | recv batch => cases h
  | _ => rfl

/-- Everything that was sent has been received, is in hand or is on its way. -/
structure Pipeline.Sound (follow : FollowConfig) (pir : PirConfig)
    (start : PirThread P) (p : Pipeline P ω) : Prop where
  conserved : p.process.sent.flatten =
    received p.steps ++ p.thread.unabsorbed ++ p.channel.flatten
  driven : Run (PirStep P pir) start p.steps p.thread
  rounds : ∀ r ∈ p.rounds, ∃ stages,
    Round stages follow true r.before r.outcome r.after
  latest : ∀ r, p.rounds.getLast? = some r → r.after = p.process

theorem Pipeline.Sound.step (hstep : PipelineStep env follow P pir p event p')
    (h : p.Sound follow pir start) : p'.Sound follow pir start := by
  cases hstep with
  | @round final outcome s hround =>
      have hkeeps : env.Keeps fun _ _ => True := fun _ _ _ _ _ => trivial
      obtain ⟨passed, stages, -, -, hstages⟩ :=
        (meets_followRound hkeeps.explains).of_ok hround
      obtain ⟨batches, hsent⟩ := hstages.sent
      constructor
      · dsimp only
        rw [hsent, List.drop_left, List.flatten_append, h.conserved,
          List.flatten_append, List.append_assoc _ p.channel.flatten]
      · exact h.driven
      · intro r hr
        obtain hold | hnew := List.mem_append.mp hr
        · exact h.rounds r hold
        · rw [List.mem_singleton.mp hnew]
          exact ⟨stages, hstages⟩
      · intro r hr
        rw [List.getLast?_append, List.getLast?_singleton, Option.some_or,
          Option.some.injEq] at hr
        rw [← hr]
  | @recv batch rest thread hchannel hthread =>
      have htaken : batch ++ p.thread.unabsorbed = thread.unabsorbed :=
        unabsorbed_step hthread
      have hnone : p.thread.unabsorbed = [] := by
        cases hthread with
        | recv hphase =>
            unfold PirThread.unabsorbed
            rw [hphase]
      rw [hnone, List.append_nil] at htaken
      constructor
      · dsimp only
        rw [h.conserved, hchannel, hnone, ← htaken, received_concat]
        simp only [List.flatten_cons, List.append_nil, List.append_assoc]
        rfl
      · exact h.driven.snoc hthread
      · exact h.rounds
      · exact h.latest
  | @work e thread hown hthread =>
      have hkept := unabsorbed_step hthread
      rw [brings_eq_nil hown, List.nil_append] at hkept
      constructor
      · dsimp only
        rw [h.conserved, hkept, received_concat]
        simp only [List.append_assoc]
      · exact h.driven.snoc hthread
      · exact h.rounds
      · exact h.latest

theorem pirView_flatten {initial : Address → Option Entry}
    {sent : List UpdateBatch} :
    pirView initial sent = viewAfter initial sent.flatten :=
  List.foldl_flatten.symm

theorem Pipeline.sound_launched {initial : PirSnapshot}
    {files : KeywordFiles P} {fresh : Bool} {world : ω} {process : Process}
    (hopen : Opens P initial files fresh start) (hsilent : process.sent = []) :
    (launched world process start : Pipeline P ω).Sound follow pir start := by
  constructor
  · dsimp only [launched]
    rw [hsilent]
    cases hopen <;> rfl
  · exact .nil start
  · intro r hr
    cases hr
  · intro r hr
    cases hr

/-- Nothing is on its way, and everything was accepted and installed. -/
theorem Pipeline.Sound.shows {content : P.Server → Address → Option Entry}
    (hlaws : P.Absorbs content) (hinstalls : P.Installs)
    {initial : PirSnapshot} {files : KeywordFiles P} {fresh : Bool}
    {view : Address → Option Entry} (hopen : Opens P initial files fresh start)
    (hinitial : ∀ a, initial.lookup a = view a) (hchannel : p.channel = [])
    (hnone : p.thread.unabsorbed = [])
    (haccepted : accepted (installed p.steps) = received p.steps)
    (h : p.Sound follow pir start) :
    (P.database p.thread.server).Shows (pirView view p.process.sent) := by
  have hsent : p.process.sent.flatten = received p.steps := by
    rw [h.conserved, hnone, hchannel]
    simp
  have hmap : (fun a => initial.lookup a) = view := funext hinitial
  rw [pirView_flatten, hsent, ← haccepted, ← hmap]
  exact (served_run hlaws hinstalls hopen h.driven).served

/-- The last pass returned `Ok` and reports every address. -/
theorem Pipeline.Sound.view_eq {r : RoundRecord}
    {view : Address → Option Entry} (hr : p.rounds.getLast? = some r)
    (hok : r.outcome = .ok ())
    (hreported : ∀ a, reported (pirView view r.before.sent a)
      (entryAfterRepair r.before r.after a)
      (readingsOf a (syncsSince r.before r.after)) = true)
    (h : p.Sound follow pir start) :
    pirView view p.process.sent = p.process.map.get := by
  obtain ⟨stages, hround⟩ := h.rounds r (List.mem_of_getLast? hr)
  rw [← h.latest r hr]
  funext a
  obtain ⟨-, s₁, hpass, hafter⟩ | ⟨chain, hfailed, -⟩ := hround
  · rw [hafter]
    exact (hpass.view_eq_iff view a).mpr (by
      rw [hafter] at hreported
      exact hreported a)
  · rw [hok] at hfailed
    cases hfailed

/-- However the syncer and the PIR thread interleave, what was sent is what was
received, what is in hand and what is on its way, in this order.  Once nothing
is on its way, and every update was accepted and a database installed since,
queries are answered from all that was sent; and from the map itself if the
last pass returned `Ok` and reports every address. -/
theorem updates_reach_database {content : P.Server → Address → Option Entry}
    (hlaws : P.Absorbs content) (hinstalls : P.Installs)
    {initial : PirSnapshot} {files : KeywordFiles P} {fresh : Bool} {world : ω}
    {process : Process} (hopen : Opens P initial files fresh start)
    (hinitial : ∀ a, initial.lookup a = process.map.get a)
    (hsilent : process.sent = [])
    (hrun : Run (PipelineStep env follow P pir)
      (.launched world process start) events p) :
    p.process.sent.flatten =
        received p.steps ++ p.thread.unabsorbed ++ p.channel.flatten ∧
      (p.channel = [] → p.thread.unabsorbed = [] →
        accepted (installed p.steps) = received p.steps →
        (P.database p.thread.server).Shows
            (pirView process.map.get p.process.sent) ∧
          ∀ r, p.rounds.getLast? = some r → r.outcome = .ok () →
            (∀ a, reported (pirView process.map.get r.before.sent a)
              (entryAfterRepair r.before r.after a)
              (readingsOf a (syncsSince r.before r.after)) = true) →
            (P.database p.thread.server).Shows p.process.map.get) := by
  have hsound := hrun.invariant (P := Pipeline.Sound follow pir start)
    (Pipeline.sound_launched hopen hsilent) fun hstep h => h.step hstep
  refine ⟨hsound.conserved, ?_⟩
  intro hchannel hnone haccepted
  have hshows := hsound.shows hlaws hinstalls hopen hinitial hchannel hnone
    haccepted
  refine ⟨hshows, ?_⟩
  intro r hr hok hreported
  rw [hsound.view_eq hr hok hreported] at hshows
  exact hshows

end Pipelines

namespace FirstTransfer

open FailedSave (holder chain config start balance_lt)
open Sample

def pir : PirConfig := ⟨5, 0⟩

/-- The database is built over no holder. -/
def empty : PirThread (tablePir 2) :=
  ⟨.checkpointing, .build ⟨0, [], []⟩ ∅, ⟨0, 0, ∅⟩, noFiles 2, placeholder 2, []⟩

def finish : Process :=
  ((followRound config true).exec (chain.respond 1 3) () start).1.2

theorem finish_ok :
    ((followRound config true).exec (chain.respond 1 3) () start).1.1 =
      .ok (.ok ()) := by
  decide +kernel

theorem finish_sent : finish.sent = [[(holder, ⟨5, 1, 0, 0⟩)]] := by
  decide +kernel

theorem go {s s' : PirThread (tablePir 2)} {e : PirEvent (tablePir 2)}
    (h : tableNext pir s .go = some (e, s')) : PirStep (tablePir 2) pir s e s' :=
  tableNext_step h

theorem run : ∃ events p,
    Run (PipelineStep (Environment.of (chain.Says 1)) config (tablePir 2) pir)
      (.launched () start empty) events p ∧
    p.process = finish ∧ p.channel = [] ∧ p.thread.unabsorbed = [] ∧
    accepted (installed p.steps) = received p.steps := by
  have hround := chain.runs_exec (followRound config true) start balance_lt
    finish_ok
  refine ⟨_, _, .cons (.round hround)
    (.cons (.work rfl (go rfl)) (.cons (.work rfl (go rfl))
    (.cons (.work rfl (go rfl)) (.cons (.work rfl (go rfl))
    (.cons (.work rfl (go rfl)) (.cons (.work rfl (go rfl))
    (.cons (.recv finish_sent (.recv rfl))
    (.cons (.work rfl (go rfl)) (.cons (.work rfl (go rfl))
    (.cons (.work rfl (go rfl)) (.cons (.work rfl (go rfl))
    (.nil _)))))))))))), rfl, rfl, rfl, rfl⟩

/-- The first transfer is in the map, and in the database. -/
theorem updates_reach_database_first : ∃ p : Pipeline (tablePir 2) Unit,
    p.process = finish ∧
      ((tablePir 2).database p.thread.server).Says holder ⟨5, 1, 0, 0⟩ := by
  obtain ⟨events, p, hrun, hprocess, hchannel, hnone, haccepted⟩ := run
  have hopen : Opens (tablePir 2) ∅ (noFiles 2) true empty :=
    .built rfl ⟨[], .refl _, rfl⟩ rfl
  obtain ⟨-, hreach⟩ := updates_reach_database tablePir_absorbs
    tablePir_installs hopen (fun a => rfl) rfl hrun
  obtain ⟨hshows, -⟩ := hreach hchannel hnone haccepted
  refine ⟨p, hprocess, (hshows holder ⟨5, 1, 0, 0⟩ rfl).mpr ?_⟩
  rw [hprocess, finish_sent]
  rfl

end FirstTransfer

end UsdtPir
