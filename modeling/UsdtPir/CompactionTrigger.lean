import UsdtPir.KeywordPair

/-!
# When the tail is folded back

The worker does not look at the tail of the directory but at what the server
has grown by since the worker started or compacted last.  A restored directory
brings a tail along, which no threshold counts.
-/

namespace UsdtPir

open Machine

namespace EthPir

/-- `len` counts the addresses of the MPHF and of the tail. -/
def CountsTail (P : EthPir) : Prop :=
  ∀ server, P.len server =
    P.mphfLen (P.keyword server).mphf + (P.keyword server).delta.length

/-- An index over a whole map has no tail. -/
structure Folds (P : EthPir) : Prop where
  init_tail : ∀ {map server}, P.init map (.ok server) →
    (P.keyword server).delta = []
  rebuild_tail : ∀ {server map server'},
    P.rebuildKeywordIndexFrom server map (.ok ()) server' →
    (P.keyword server').delta = []

end EthPir

/-- The tail download has reached its percentage of the MPHF bytes. -/
def SizeReached {P : EthPir} (cfg : PirConfig) (server : P.Server) : Prop :=
  0 < cfg.compactTailPercent ∧ ∃ mphfBytes tailBytes,
    P.tryMphf server = .ok mphfBytes ∧ P.tryTail server = .ok tailBytes ∧
    mphfBytes * cfg.compactTailPercent ≤ tailBytes * 100

/-- So many addresses are enough for one of the thresholds. -/
def DueBy {P : EthPir} (cfg : PirConfig) (server : P.Server) (n : ℕ) : Prop :=
  cfg.compactAfter ≤ n ∨ 0 < n ∧ SizeReached cfg server

/-- The same for the worker, to whom no tail outgrows an MPHF of no bytes. -/
def MetBy {P : EthPir} (cfg : PirConfig) (server : P.Server) (n : ℕ) : Prop :=
  cfg.compactAfter ≤ n ∨
    0 < n ∧ SizeReached cfg server ∧ P.tryMphf server ≠ .ok 0

namespace PirThread

variable {P : EthPir}

def tailLen (thread : PirThread P) : ℕ :=
  thread.live.delta.length

/-- Whatever the worker does now is a keyword rebuild, done or failed. -/
def Attempts (cfg : PirConfig) (thread : PirThread P) : Prop :=
  ∀ e thread', PirStep P cfg thread e thread' → ∃ done, e = .rebuild done

end PirThread

/-! ## Where the count starts -/

/-- How long the tail is, if there is a process. -/
def Host.tailLen {P : EthPir} : Host P → ℕ
  | .down _ => 0
  | .up thread _ => thread.tailLen

/-- The events after which the worker counts from what there is. -/
def HostEvent.recounts {P : EthPir} : HostEvent P → Bool
  | .start _ => true
  | .work (.rebuild true) => true
  | _ => false

/-- A host, and how long the tail was when the worker last counted. -/
structure MeasuredHost (P : EthPir) where
  host : Host P
  old : ℕ

def MeasuredStep (P : EthPir) (cfg : PirConfig) (s : MeasuredHost P)
    (e : HostEvent P) (s' : MeasuredHost P) : Prop :=
  HostStep P cfg s.host e s'.host ∧
    s'.old = if e.recounts then s'.host.tailLen else s.old

section Trigger

variable {P : EthPir} {cfg : PirConfig} {thread thread' : PirThread P}
    {server : P.Server} {worker : PirWorker} {host host' : Host P} {old : ℕ}

theorem tailRatioReached_iff {tailBytes mphfBytes percent : ℕ} :
    tailRatioReached tailBytes mphfBytes percent = true ↔
      percent ≠ 0 ∧ mphfBytes ≠ 0 ∧ mphfBytes * percent ≤ tailBytes * 100 := by
  unfold tailRatioReached
  split
  case isTrue hzero =>
    constructor
    · intro habs
      cases habs
    · intro hreached
      obtain hpercent | hmphf := hzero
      · exact absurd hpercent hreached.1
      · exact absurd hmphf hreached.2.1
  case isFalse hnonzero =>
    rw [not_or] at hnonzero
    rw [decide_eq_true_iff]
    constructor
    · intro hle
      exact ⟨hnonzero.1, hnonzero.2, hle⟩
    · intro hreached
      exact hreached.2.2

theorem readKeywordSizes_eq_ok {sizes : KeywordSizes} :
    readKeywordSizes server = .ok sizes ↔
      P.tryMphf server = .ok sizes.mphfBytes ∧
        P.tryTail server = .ok sizes.tailBytes := by
  unfold readKeywordSizes
  cases P.tryMphf server with
  | error fault =>
      constructor
      · intro habs
        cases habs
      · intro hboth
        cases hboth.1
  | ok mphfBytes =>
      cases P.tryTail server with
      | error fault =>
          constructor
          · intro habs
            cases habs
          · intro hboth
            cases hboth.2
      | ok tailBytes =>
          constructor
          · intro hok
            cases hok
            exact ⟨rfl, rfl⟩
          · intro hboth
            obtain ⟨hmphf, htail⟩ := hboth
            rw [Except.ok.inj hmphf, Except.ok.inj htail]
            rfl

theorem sizeThresholdMet_iff {n : ℕ} :
    PirWorker.sizeThresholdMet cfg server n = true ↔
      0 < n ∧ SizeReached cfg server ∧ P.tryMphf server ≠ .ok 0 := by
  unfold PirWorker.sizeThresholdMet PirWorker.keywordSizes SizeReached
  by_cases hoff : n = 0 ∨ cfg.compactTailPercent = 0
  · rw [if_pos hoff]
    constructor
    · intro habs
      cases habs
    · intro hreached
      obtain ⟨hn, ⟨hpercent, -⟩, -⟩ := hreached
      omega
  · rw [if_neg hoff]
    rw [not_or] at hoff
    cases hread : readKeywordSizes server with
    | error fault =>
        constructor
        · intro habs
          cases habs
        · intro hreached
          obtain ⟨-, ⟨-, m, t, hmphf, htail, -⟩, -⟩ := hreached
          have hok : readKeywordSizes server = .ok ⟨m, t⟩ :=
            readKeywordSizes_eq_ok.mpr ⟨hmphf, htail⟩
          rw [hread] at hok
          cases hok
    | ok sizes =>
        obtain ⟨hmphf, htail⟩ := readKeywordSizes_eq_ok.mp hread
        dsimp only
        rw [tailRatioReached_iff, hmphf, htail]
        constructor
        · intro hreached
          obtain ⟨hpercent, hnonzero, hle⟩ := hreached
          refine ⟨Nat.pos_of_ne_zero hoff.1,
            ⟨Nat.pos_of_ne_zero hpercent, _, _, rfl, rfl, hle⟩, ?_⟩
          intro hzero
          exact hnonzero (Except.ok.inj hzero)
        · intro hreached
          obtain ⟨-, ⟨hpercent, m, t, hm, ht, hle⟩, hnonzero⟩ := hreached
          rw [← Except.ok.inj hm, ← Except.ok.inj ht] at hle
          refine ⟨Nat.ne_of_gt hpercent, ?_, hle⟩
          intro hzero
          exact hnonzero (congrArg Except.ok hzero)

/-- The worker's test, for what it counts. -/
theorem shouldCompact_iff :
    worker.shouldCompact cfg server = true ↔
      MetBy cfg server (P.len server - worker.lenAtCompaction) := by
  unfold PirWorker.shouldCompact PirWorker.countThresholdMet MetBy
  rw [Bool.or_eq_true, decide_eq_true_iff, sizeThresholdMet_iff]

theorem attempts_iff (hphase : thread.phase = .compacting) :
    thread.Attempts cfg ↔
      thread.worker.shouldCompact cfg thread.server = true := by
  constructor
  · intro hattempts
    by_contra hkeeps
    obtain ⟨done, habs⟩ := hattempts _ _
      (.keepIndex hphase (Bool.eq_false_of_not_eq_true hkeeps))
    cases habs
  · intro htest e thread' hstep
    cases hstep with
    | keepIndex _ hkeeps =>
        rw [htest] at hkeeps
        cases hkeeps
    | rebuilt => exact ⟨true, rfl⟩
    | rebuildFails => exact ⟨false, rfl⟩
    | recv h => rw [hphase] at h; cases h
    | _ h => rw [hphase] at h; cases h

/-! ## What is counted -/

/-- The worker counts from the MPHF and what the tail was. -/
def Host.CountsFrom (old : ℕ) : Host P → Prop
  | .down _ => True
  | .up thread _ =>
      thread.worker.lenAtCompaction = P.mphfLen thread.live.mphf + old

theorem Opens.countsFrom {initial : PirSnapshot} {files : KeywordFiles P}
    {fresh : Bool} (hcounts : P.CountsTail)
    (hopen : Opens P initial files fresh thread) :
    thread.worker.lenAtCompaction =
      P.mphfLen thread.live.mphf + thread.tailLen := by
  cases hopen with
  | restored => exact hcounts _
  | built => exact hcounts _

theorem lenAtCompaction_absorbOne (worker : PirWorker) (addr : Address)
    (entry : Entry) (answer : Except P.Fault Unit) :
    (worker.absorbOne addr entry answer).lenAtCompaction =
      worker.lenAtCompaction := by
  cases answer with
  | error fault => rfl
  | ok done =>
      unfold PirWorker.absorbOne PirWorker.recordAbsorbed
        PirWorker.recordCurrentValue
      dsimp only
      split <;> rfl

theorem lenAtCompaction_recordPublish (worker : PirWorker)
    (answer : Except P.Fault (Option Unit)) :
    (worker.recordPublish answer).lenAtCompaction = worker.lenAtCompaction := by
  cases answer with
  | error fault => rfl
  | ok installed =>
      cases installed with
      | none => rfl
      | some done => rfl

/-- A rebuild is counted; between two counts neither the count nor the MPHF
changes. -/
theorem countsFrom_step {e : PirEvent P} (hlaws : P.Versioned)
    (hcounts : P.CountsTail) (hstep : PirStep P cfg thread e thread') :
    (e = .rebuild true ∧ thread'.worker.lenAtCompaction =
      P.mphfLen thread'.live.mphf + thread'.tailLen) ∨
    (e ≠ .rebuild true ∧
      thread'.worker.lenAtCompaction = thread.worker.lenAtCompaction ∧
      thread'.live.mphf = thread.live.mphf) := by
  cases hstep with
  | rebuilt hphase htest hcall => exact .inl ⟨rfl, hcounts _⟩
  | update hphase hcall =>
      right
      exact ⟨nofun, lenAtCompaction_absorbOne _ _ _ _,
        (hlaws.update_extends hcall).mphf⟩
  | publish hphase hcall =>
      right
      exact ⟨nofun, lenAtCompaction_recordPublish _ _,
        congrArg KeywordDirectory.mphf (hlaws.publish_keyword hcall)⟩
  | rebuildFails hphase htest hcall =>
      right
      exact ⟨nofun, rfl, congrArg KeywordDirectory.mphf (hlaws.rebuild_fails hcall)⟩
  | _ => exact .inr ⟨nofun, rfl, rfl⟩

theorem countsFrom_measuredStep {s s' : MeasuredHost P} {e : HostEvent P}
    (hlaws : P.Versioned) (hcounts : P.CountsTail)
    (hstep : MeasuredStep P cfg s e s') (h : s.host.CountsFrom s.old) :
    s'.host.CountsFrom s'.old := by
  obtain ⟨host, old⟩ := s
  obtain ⟨host', old'⟩ := s'
  obtain ⟨hhost, hold⟩ := hstep
  dsimp only at hhost hold h ⊢
  cases hhost with
  | start hopen =>
      rw [hold]
      exact hopen.countsFrom hcounts
  | @work thread thread' left e hwork =>
      cases countsFrom_step hlaws hcounts hwork with
      | inl hrebuilt =>
          obtain ⟨rfl, hcount⟩ := hrebuilt
          rw [hold]
          exact hcount
      | inr hquiet =>
          obtain ⟨hne, hcount, hmphf⟩ := hquiet
          have hkeeps : (HostEvent.work e).recounts = false := by
            cases e with
            | rebuild done =>
                cases done with
                | true => exact absurd rfl hne
                | false => rfl
            | _ => rfl
          rw [hkeeps] at hold
          rw [hold]
          change thread'.worker.lenAtCompaction = P.mphfLen thread'.live.mphf + old
          rw [hcount, hmphf]
          exact h
  | stop => trivial

theorem measured_of_run {es : List (HostEvent P)} (old : ℕ)
    (hrun : Run (HostStep P cfg) host es host') :
    ∃ old', Run (MeasuredStep P cfg) ⟨host, old⟩ es ⟨host', old'⟩ := by
  induction hrun generalizing old with
  | nil host => exact ⟨old, .nil _⟩
  | @cons host host₁ host' e es hstep hrest ih =>
      obtain ⟨old', hmeasured⟩ := ih (if e.recounts then host₁.tailLen else old)
      exact ⟨old', .cons ⟨hstep, rfl⟩ hmeasured⟩

/-- A restored server has no tail. -/
def RestoresFlat (e : HostEvent P) (host : Host P) : Prop :=
  match e with
  | .start false => host.tailLen = 0
  | _ => True

theorem Opens.tailLen_of_fresh {initial : PirSnapshot} {files : KeywordFiles P}
    (hfolds : P.Folds) (hopen : Opens P initial files true thread) :
    thread.tailLen = 0 := by
  cases hopen with
  | built hload hcall hempty =>
      exact congrArg List.length (hfolds.init_tail hcall)

/-- Without restored tails the worker counts the tail. -/
theorem countsFrom_zero_step {e : HostEvent P} (hlaws : P.Versioned)
    (hcounts : P.CountsTail) (hfolds : P.Folds)
    (hstep : HostStep P cfg host e host') (hflat : RestoresFlat e host')
    (h : host.CountsFrom 0) : host'.CountsFrom 0 := by
  have hmeasured : MeasuredStep P cfg ⟨host, 0⟩ e
      ⟨host', if e.recounts then host'.tailLen else 0⟩ :=
    ⟨hstep, rfl⟩
  have hcount := countsFrom_measuredStep hlaws hcounts hmeasured h
  have hzero : (if e.recounts then host'.tailLen else 0) = 0 := by
    cases hstep with
    | @start files initial fresh thread hopen =>
        cases fresh with
        | true => exact hopen.tailLen_of_fresh hfolds
        | false => exact hflat
    | @work thread thread' left e hwork =>
        cases hwork with
        | rebuilt hphase htest hcall =>
            exact congrArg List.length (hfolds.rebuild_tail hcall)
        | _ => rfl
    | stop => rfl
  rw [hzero] at hcount
  exact hcount

/-- A keyword rebuild is attempted exactly if what the tail has grown by meets
a threshold, and where no server was restored with a tail the whole tail is
what it has grown by. -/
theorem compaction_attempted_iff (hlaws : P.Versioned) (hcounts : P.CountsTail)
    (hfolds : P.Folds) (cfg : PirConfig) (files : KeywordFiles P) :
    (∀ (es : List (HostEvent P)) (thread : PirThread P) (left : Leftover),
      Run (HostStep P cfg) (.down files) es (.up thread left) →
      thread.phase = .compacting → DueBy cfg thread.server thread.tailLen →
      ∃ old, Run (MeasuredStep P cfg) ⟨.down files, 0⟩ es
          ⟨.up thread left, old⟩ ∧
        (thread.Attempts cfg ↔
          MetBy cfg thread.server (thread.tailLen - old))) ∧
    (∀ (es : List (HostEvent P)) (thread : PirThread P) (left : Leftover),
      Run (fun host e host' => HostStep P cfg host e host' ∧
        RestoresFlat e host') (.down files) es (.up thread left) →
      thread.phase = .compacting → MetBy cfg thread.server thread.tailLen →
      thread.Attempts cfg) := by
  have hgrown : ∀ {old : ℕ} {thread : PirThread P} {left : Leftover},
      (Host.up thread left).CountsFrom old → thread.phase = .compacting →
      (thread.Attempts cfg ↔
        MetBy cfg thread.server (thread.tailLen - old)) := by
    intro old thread left hcount hphase
    have hlen : P.len thread.server - thread.worker.lenAtCompaction =
        thread.tailLen - old := by
      have hold : thread.worker.lenAtCompaction =
          P.mphfLen thread.live.mphf + old := hcount
      rw [hcounts, hold, Nat.add_sub_add_left]
      rfl
    rw [attempts_iff hphase, shouldCompact_iff, hlen]
  constructor
  · intro es thread left hrun hphase hdue
    obtain ⟨old, hmeasured⟩ := measured_of_run 0 hrun
    have hcount : (Host.up thread left).CountsFrom old := by
      apply hmeasured.invariant (P := fun s => s.host.CountsFrom s.old) trivial
      intro s e s' hstep h
      exact countsFrom_measuredStep hlaws hcounts hstep h
    exact ⟨old, hmeasured, hgrown hcount hphase⟩
  · intro es thread left hrun hphase hmet
    have hcount : (Host.up thread left).CountsFrom 0 := by
      apply hrun.invariant (P := fun host => host.CountsFrom 0) trivial
      intro host e host' hstep h
      exact countsFrom_zero_step hlaws hcounts hfolds hstep.1 hstep.2 h
    exact (hgrown hcount hphase).mpr hmet

/-- The steps of one process restore nothing. -/
theorem Host.flat_run {es : List (PirEvent P)} (left : Leftover)
    (hrun : Run (PirStep P cfg) thread es thread') :
    Run (fun host e host' => HostStep P cfg host e host' ∧ RestoresFlat e host')
      (.up thread left) (es.map .work)
      (.up thread' (es.foldl Leftover.after left)) := by
  induction hrun generalizing left with
  | nil s => exact .nil _
  | cons hstep hrest ih => exact .cons ⟨.work hstep, trivial⟩ (ih _)

end Trigger

/-! ## Over the library with tables -/

theorem tablePir_countsTail {capacity : ℕ} : (tablePir capacity).CountsTail :=
  fun _ => rfl

theorem tablePir_folds {capacity : ℕ} : (tablePir capacity).Folds where
  init_tail := by
    intro map server hcall
    obtain ⟨table, -, rfl⟩ := hcall
    rfl
  rebuild_tail := by
    intro server map server' hcall
    obtain ⟨table, -, rfl⟩ := hcall
    rfl

namespace GrowingTail

open Sample

/-- A tail of one address, or one that is as large as the MPHF. -/
def cfg : PirConfig := ⟨1, 100⟩

/-- The index is saved and exposed, one address arrives and is published. -/
def arrival : List Choice :=
  [.go, .go, .go, .go, .go, .go, .receive [(second, entry)], .go, .go, .go, .go]

theorem compaction_attempted_arrival : ∃ es thread left,
    Run (fun host e host' => HostStep (tablePir 2) cfg host e host' ∧
      RestoresFlat e host') (.down (noFiles 2)) es (.up thread left) ∧
      thread.phase = .compacting ∧ thread.Attempts cfg := by
  have hdrive : ∃ es thread, drive cfg arrival (built 2 first (noFiles 2)) =
      some (es, thread) ∧ thread.phase = .compacting ∧ thread.tailLen = 1 :=
    ⟨_, _, rfl, rfl, rfl⟩
  obtain ⟨es, thread, hdrive, hphase, htail⟩ := hdrive
  have hrun := Run.cons ⟨HostStep.start (opens_built rfl), trivial⟩
    (Host.flat_run ⟨true, true⟩ (drive_run hdrive))
  have hmet : MetBy cfg thread.server thread.tailLen := .inl htail.ge
  exact ⟨_, _, _, hrun, hphase, (compaction_attempted_iff tablePir_versioned
    tablePir_countsTail tablePir_folds cfg (noFiles 2)).2 _ _ _ hrun hphase hmet⟩

/-- The second process restores what the first has saved, over another holder:
the tail is long and large enough, and the index is kept. -/
theorem restored_tail_kept : ∃ es thread left,
    Run (HostStep (tablePir 2) cfg) (.down (noFiles 2)) es (.up thread left) ∧
      thread.phase = .compacting ∧ cfg.compactAfter ≤ thread.tailLen ∧
      0 < thread.tailLen ∧ SizeReached cfg thread.server ∧
      ¬ thread.Attempts cfg := by
  have hfirst : ∃ es thread saved, drive cfg [.go, .go, .go]
      (built 2 first (noFiles 2)) = some (es, thread) ∧
      KeywordStore.load thread.files = .ok (some saved) ∧
      ∃ es' thread', drive cfg [.go, .go, .go, .go, .go]
        ⟨.serializing, TableServer.reopen saved.directory (holders second),
          ⟨(TableServer.reopen saved.directory (holders second)).len, 0,
            holders second⟩, thread.files, placeholder 2, []⟩ =
          some (es', thread') ∧ thread'.phase = .compacting ∧
        thread'.tailLen = 1 ∧
        (tablePir 2).tryMphf thread'.server = .ok 20 ∧
        (tablePir 2).tryTail thread'.server = .ok 68 ∧
        thread'.worker.shouldCompact cfg thread'.server = false :=
    ⟨_, _, _, rfl, rfl, _, _, rfl, rfl, rfl, rfl, rfl, rfl⟩
  obtain ⟨es, thread, saved, hdrive, hload, es', thread', hdrive', hphase, htail,
    hmphf, hdownload, hkeeps⟩ := hfirst
  have hlife := Host.work_run ⟨true, true⟩ (drive_run hdrive)
  have hlife' := Host.work_run ⟨false, false⟩ (drive_run hdrive')
  have hrun := (Run.cons (.start (opens_built rfl)) hlife).snoc .stop
  have hrun' := hrun.append (.cons (.start (opens_restored hload)) hlife')
  refine ⟨_, _, _, hrun', hphase, htail.ge, htail ▸ Nat.zero_lt_one, ?_, ?_⟩
  · exact ⟨by decide, _, _, hmphf, hdownload, by decide⟩
  · intro hattempts
    have htest := (attempts_iff hphase).mp hattempts
    rw [hkeeps] at htest
    cases htest

end GrowingTail

end UsdtPir
