import UsdtPir.TableRuns
import UsdtPir.ThreadInvariants

/-!
# What is on disk for what was exposed

A client holds a directory that was exposed.  The files on disk load to a later
one, or to the same generation with no address taken back, as long as the
`.keys` file carries the server's version whenever `publish_directory` writes
the other half, and no checkpoint is cut in two once something was exposed.
-/

namespace UsdtPir

open Machine

/-- The thread is in a call of `save_checkpoint`. -/
def Phase.InCheckpoint {P : EthPir} : Phase P → Prop
  | .checkpointing | .savingKeys _ | .savingIndex _ => True
  | _ => False

/-- The files load, and what they load is not behind the directory. -/
def Survives {P : EthPir} (files : KeywordFiles P) (directory : Directory P) :
    Prop :=
  ∃ loaded parsed, KeywordStore.load files = .ok (some loaded) ∧
    P.readFrom loaded.directory = .ok parsed ∧
    directory.version ≤ loaded.version ∧
    (loaded.version = directory.version → directory.parsed.Extends parsed)

/-- `publish_directory` finds the `.keys` file of the server's version when it
has written the `.index` file, and a checkpoint whose `.keys` file is written is
written to its end if a directory was exposed before. -/
def KeepsPair {P : EthPir} (s : PirThread P) : PirEvent P → Prop
  | .persist true =>
      ∃ keys, s.files.keys = some keys ∧ keys.version = s.live.version
  | .saveIndex false => s.published = []
  | _ => True

/-- Half of a checkpoint is on disk. -/
def Phase.Halfway {P : EthPir} : Phase P → Prop
  | .savingIndex _ => True
  | _ => False

structure PirThread.Backed {P : EthPir} (s : PirThread P) : Prop where
  inHand : s.InHand
  parsed : ∀ d ∈ s.published, d.version = d.parsed.version
  older : ∀ d ∈ s.published, d.parsed.Precedes s.live
  survives : ¬ s.phase.Halfway → ∀ d ∈ s.published, Survives s.files d
  /-- The `.keys` file in the middle of a checkpoint. -/
  keys : s.phase.Halfway →
    ∃ keys, s.files.keys = some keys ∧ keys.version = s.live.version
  /-- The pair that is exposed next. -/
  pair : ∀ blob, s.phase = .exposing blob → s.files.index = some blob ∧
    ∃ keys, s.files.keys = some keys ∧ keys.version = s.live.version

section Runs

variable {P : EthPir} {cfg : PirConfig} {s s' start : PirThread P}
    {e : PirEvent P} {es : List (PirEvent P)} {files : KeywordFiles P}
    {directory : Directory P}

/-- A pair of the live directory survives for all that precedes it. -/
theorem survives_of_pair {blob : P.Blob} {live : KeywordDirectory P.Mphf}
    {keys : KeysFile P} (hindex : files.index = some blob)
    (hkeys : files.keys = some keys) (hparse : P.readFrom blob = .ok live)
    (hversion : keys.version = live.version)
    (hdirectory : directory.version = directory.parsed.version)
    (hprecedes : directory.parsed.Precedes live) :
    Survives files directory := by
  refine ⟨_, live, KeywordStore.load_eq_some hindex hkeys hparse hversion,
    hparse, ?_, ?_⟩
  · rw [hdirectory]
    exact hprecedes.1
  · intro heq
    change live.version = directory.version at heq
    rw [hdirectory] at heq
    exact hprecedes.2 heq.symm

namespace PirThread.Backed

theorem of_opens {initial : PirSnapshot} {fresh : Bool}
    (hopen : Opens P initial files fresh start) : start.Backed := by
  have hnone := hopen.published
  constructor
  · exact hopen.inHand
  · rw [hnone]
    intro d hd
    cases hd
  · rw [hnone]
    intro d hd
    cases hd
  · rw [hnone]
    intro _ d hd
    cases hd
  · intro hhalf
    cases hopen <;> cases hhalf
  · intro blob hphase
    cases hopen <;> cases hphase

/-- A step that leaves the files and what was exposed. -/
theorem moved (h : s.Backed) (hlaws : P.Versioned)
    (hstep : PirStep P cfg s e s') (hinHand : s'.InHand)
    (hfiles : s'.files = s.files) (hpublished : s'.published = s.published)
    (hfrom : ¬ s.phase.Halfway) (hhalf : ¬ s'.phase.Halfway)
    (hexposing : ∀ blob, s'.phase ≠ .exposing blob) : s'.Backed := by
  constructor
  · exact hinHand
  · rw [hpublished]
    exact h.parsed
  · rw [hpublished]
    intro d hd
    exact (h.older d hd).step hlaws hstep
  · rw [hpublished, hfiles]
    intro _
    exact h.survives hfrom
  · intro habs
    exact absurd habs hhalf
  · intro blob hphase
    exact absurd hphase (hexposing blob)

theorem step (hlaws : P.Versioned) (hwrites : P.Serializes)
    (hstep : PirStep P cfg s e s') (hpair : KeepsPair s e) (h : s.Backed) :
    s'.Backed := by
  have hagain := hstep
  have hinHand := inHand_step hwrites hstep h.inHand
  have hnot : ∀ {p : Phase P}, s.phase = p → ¬ p.Halfway →
      ¬ s.phase.Halfway := by
    intro p hphase hp
    rw [hphase]
    exact hp
  cases hstep with
  | saveKeys hphase =>
      have hhand := inHand_keys h.inHand hphase
      constructor
      · exact hinHand
      · exact h.parsed
      · exact h.older
      · intro habs
        exact absurd trivial habs
      · intro _
        exact ⟨_, rfl, hhand.1⟩
      · intro blob hexposing
        cases hexposing
  | @saveIndex saved hphase =>
      have hhand := inHand_index h.inHand hphase
      have hhalf : s.phase.Halfway := by
        rw [hphase]
        trivial
      rcases h.keys hhalf with ⟨keys, hkeys, hversion⟩
      constructor
      · exact hinHand
      · exact h.parsed
      · exact h.older
      · intro _ d hd
        exact survives_of_pair rfl hkeys hhand.2 hversion (h.parsed d hd)
          (h.older d hd)
      · intro habs
        cases habs
      · intro blob hexposing
        cases hexposing
  | saveIndexFails hphase =>
      have hnone : s.published = [] := hpair
      constructor
      · exact hinHand
      · exact h.parsed
      · exact h.older
      · intro _ d hd
        change d ∈ s.published at hd
        rw [hnone] at hd
        cases hd
      · intro habs
        cases habs
      · intro blob hexposing
        cases hexposing
  | @persist blob hphase =>
      rcases hpair with ⟨keys, hkeys, hversion⟩
      have hhand := inHand_persisting h.inHand hphase
      constructor
      · exact hinHand
      · exact h.parsed
      · exact h.older
      · intro _ d hd
        exact survives_of_pair rfl hkeys hhand hversion (h.parsed d hd)
          (h.older d hd)
      · intro habs
        cases habs
      · intro blob' hexposing
        cases hexposing
        exact ⟨rfl, keys, hkeys, hversion⟩
  | @expose blob directory hphase hparse =>
      have hhand := inHand_exposing h.inHand hphase
      have hread := Directory.parsed_fromBlob hparse
      rcases h.pair blob hphase with ⟨hindex, keys, hkeys, hversion⟩
      have hlive : directory.parsed = s.live := by
        rw [hhand] at hread
        exact (Except.ok.inj hread).symm
      have hdirectory := Directory.version_fromBlob hparse
      have hprecedes : directory.parsed.Precedes s.live := by
        rw [hlive]
        exact .refl _
      constructor
      · exact hinHand
      · intro d hd
        rcases List.mem_cons.mp hd with rfl | hold
        · exact hdirectory
        · exact h.parsed d hold
      · intro d hd
        rcases List.mem_cons.mp hd with rfl | hold
        · exact hprecedes
        · exact h.older d hold
      · intro _ d hd
        rcases List.mem_cons.mp hd with rfl | hold
        · exact survives_of_pair hindex hkeys hhand hversion hdirectory
            hprecedes
        · exact survives_of_pair hindex hkeys hhand hversion (h.parsed d hold)
            (h.older d hold)
      · intro habs
        cases habs
      · intro blob' hexposing
        cases hexposing
  | recv hphase | deadline hphase | disconnected hphase | update hphase
  | absorbed hphase | publish hphase | keepIndex hphase | rebuilt hphase
  | rebuildFails hphase | checkpoint hphase | checkpointFails hphase
  | saveKeysFails hphase | serialize hphase | serializeFails hphase
  | persistFails hphase | exposeFails hphase =>
      have hfrom : ¬ s.phase.Halfway := hnot hphase id
      apply h.moved hlaws hagain hinHand rfl rfl hfrom id
      intro blob hexposing
      cases hexposing

end PirThread.Backed

theorem backed_run (hlaws : P.Versioned) (hwrites : P.Serializes)
    (hrun : Run (fun s e s' => PirStep P cfg s e s' ∧ KeepsPair s e) start es s)
    (hstart : start.Backed) : s.Backed :=
  hrun.invariant (P := PirThread.Backed) hstart fun hstep h =>
    h.step hlaws hwrites hstep.1 hstep.2

/-- Whatever a client holds, the files that a stopped process leaves outside a
checkpoint load, and what they load is not behind it. -/
theorem published_survives (hlaws : P.Versioned) (hwrites : P.Serializes)
    {initial : PirSnapshot} {fresh : Bool}
    (hopen : Opens P initial files fresh start)
    (hrun : Run (fun s e s' => PirStep P cfg s e s' ∧ KeepsPair s e) start es s)
    (houtside : ¬ s.phase.InCheckpoint) (hd : directory ∈ s.published) :
    Survives s.files directory := by
  have hbacked := backed_run hlaws hwrites hrun (.of_opens hopen)
  apply hbacked.survives
  · intro hhalf
    cases hphase : s.phase with
    | savingIndex saved =>
        rw [hphase] at houtside
        exact houtside trivial
    | _ =>
        rw [hphase] at hhalf
        cases hhalf
  · exact hd

end Runs

namespace LostKeys

open Sample

def cfg : PirConfig := ⟨10, 0⟩

def start : PirThread (tablePir 1) :=
  built 1 first (noFiles 1)

/-- Both halves are written, and the directory is exposed. -/
theorem run_saved : ∃ es s, Run
    (fun s e s' => PirStep (tablePir 1) cfg s e s' ∧ KeepsPair s e)
    start es s ∧ ¬ s.phase.InCheckpoint ∧ ∃ d, d ∈ s.published := by
  refine ⟨_, _, checked .go rfl trivial (checked .go rfl trivial
    (checked .go rfl trivial (checked .go rfl trivial
    (checked .go rfl ⟨_, rfl, rfl⟩ (checked .go rfl trivial (.nil _)))))), id,
    ?_⟩
  exact ⟨_, List.mem_cons_self⟩

theorem published_survives_saved : ∃ es s d, Run
    (fun s e s' => PirStep (tablePir 1) cfg s e s' ∧ KeepsPair s e)
    start es s ∧ d ∈ s.published ∧ Survives s.files d := by
  rcases run_saved with ⟨es, s, hrun, houtside, d, hd⟩
  exact ⟨es, s, d, hrun, hd, published_survives tablePir_versioned
    tablePir_serializes (opens_built rfl) hrun houtside hd⟩

/-- The `.keys` file could not be written.  The directory is exposed, and
nothing is loaded from what is on disk. -/
theorem exposed_directory_not_loaded : ∃ es s,
    Opens (tablePir 1) (holders first) (noFiles 1) true start ∧
      Run (PirStep (tablePir 1) cfg) start es s ∧
      ¬ s.phase.InCheckpoint ∧ (∃ d, d ∈ s.published) ∧
      KeywordStore.load s.files = .ok none := by
  have hdrive : ∃ es s, drive cfg [.go, .fail, .go, .go, .go] start =
      some (es, s) ∧ ¬ s.phase.InCheckpoint ∧ (∃ d, d ∈ s.published) ∧
        KeywordStore.load s.files = .ok none :=
    ⟨_, _, rfl, id, ⟨_, List.mem_cons_self⟩, rfl⟩
  rcases hdrive with ⟨es, s, hdrive, hrest⟩
  exact ⟨es, s, opens_built rfl, drive_run hdrive, hrest⟩

end LostKeys

end UsdtPir
