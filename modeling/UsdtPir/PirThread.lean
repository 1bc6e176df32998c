import UsdtPir.EthPir
import UsdtPir.Machine

/-!
# The PIR thread

The thread opens the keyword index, exposes its directory, and then absorbs
updates, publishes, compacts and exposes again, cycle by cycle.  A step is one
call into the library, one file written or one directory exposed, so a process
can stop between any two of them.
-/

namespace UsdtPir

/-! ## The keyword files -/

/-- The `.keys` file.  `madeOf` is not in it: it is the MPHF whose table the
keys are. -/
structure KeysFile (P : EthPir) where
  version : ℕ
  keys : List Address
  madeOf : P.Mphf

/-- The `.index` file holds a directory. -/
structure KeywordFiles (P : EthPir) where
  index : Option P.Blob
  keys : Option (KeysFile P)

namespace KeywordStore

structure Loaded (P : EthPir) where
  directory : P.Blob
  keys : List Address
  version : ℕ

def directoryVersion {P : EthPir} (blob : P.Blob) : Except P.Fault ℕ := do
  let parsed ← P.readFrom blob
  pure parsed.version

/-- Both halves, or nothing if one is missing or they disagree. -/
def load {P : EthPir} (files : KeywordFiles P) :
    Except P.Fault (Option (Loaded P)) :=
  match files.index, files.keys with
  | some directory, some keys => do
      let version ← directoryVersion directory
      if version ≠ keys.version then
        pure none
      else
        pure (some ⟨directory, keys.keys, version⟩)
  | _, _ => pure none

end KeywordStore

/-! ## The exposed directory -/

/-- The directory as the HTTP layer sees it. -/
structure Directory (P : EthPir) where
  version : ℕ
  len : ℕ
  mphfLen : ℕ
  mphfBytes : ℕ
  tailLen : ℕ
  tailBytes : ℕ
  full : P.Blob
  parsed : KeywordDirectory P.Mphf

namespace Directory

variable {P : EthPir}

def mphfBytesOf (fullBytes tailLen : ℕ) : ℕ :=
  fullBytes - (24 + 20 * tailLen)

def tailBytesOf (tailLen : ℕ) : ℕ :=
  48 + 20 * tailLen

def fromBlob (full : P.Blob) : Except P.Fault (Directory P) := do
  let parsed ← P.readFrom full
  let tailLen := parsed.delta.length
  pure
    { version := parsed.version
      len := P.mphfLen parsed.mphf + tailLen
      mphfLen := P.mphfLen parsed.mphf
      mphfBytes := mphfBytesOf (P.blobLen full) tailLen
      tailLen
      tailBytes := tailBytesOf tailLen
      full
      parsed }

/-- What is exposed until the thread exposes its own. -/
def empty : Except P.Fault (Directory P) := do
  let (parsed, full) ← P.emptyIndex
  pure
    { version := parsed.version
      len := 0
      mphfLen := 0
      mphfBytes := mphfBytesOf (P.blobLen full) 0
      tailLen := 0
      tailBytes := tailBytesOf 0
      full
      parsed }

end Directory

/-! ## The worker -/

structure PirConfig where
  compactAfter : ℕ
  compactTailPercent : ℕ

/-- What the worker keeps besides the server; the clock is left out. -/
structure PirWorker where
  lenAtCompaction : ℕ
  absorbedSincePublish : ℕ
  current : PirSnapshot

structure KeywordSizes where
  mphfBytes : ℕ
  tailBytes : ℕ

def tailRatioReached (tailBytes mphfBytes percent : ℕ) : Bool :=
  if percent = 0 ∨ mphfBytes = 0 then false
  else decide (mphfBytes * percent ≤ tailBytes * 100)

def readKeywordSizes {P : EthPir} (server : P.Server) :
    Except P.Fault KeywordSizes := do
  let mphfBytes ← P.tryMphf server
  let tailBytes ← P.tryTail server
  pure ⟨mphfBytes, tailBytes⟩

namespace PirWorker

variable {P : EthPir}

def recordCurrentValue (worker : PirWorker) (addr : Address) (entry : Entry) :
    PirWorker :=
  if entry.isZero then
    { worker with current := worker.current.erase addr }
  else
    { worker with current := worker.current.insert addr entry }

def recordAbsorbed (worker : PirWorker) (addr : Address) (entry : Entry) :
    PirWorker :=
  let worker := worker.recordCurrentValue addr entry
  { worker with absorbedSincePublish := worker.absorbedSincePublish + 1 }

/-- `absorb_one`, once the server has answered. -/
def absorbOne (worker : PirWorker) (addr : Address) (entry : Entry)
    (answer : Except P.Fault Unit) : PirWorker :=
  match answer with
  | .ok () => worker.recordAbsorbed addr entry
  | .error _ => worker

/-- `publish`, once the server has answered. -/
def recordPublish (worker : PirWorker)
    (answer : Except P.Fault (Option Unit)) : PirWorker :=
  match answer with
  | .ok (some ()) => { worker with absorbedSincePublish := 0 }
  | .ok none => worker
  | .error _ => worker

def recordResync (worker : PirWorker) (server : P.Server) : PirWorker :=
  { worker with
    lenAtCompaction := P.len server
    absorbedSincePublish := 0 }

def countThresholdMet (cfg : PirConfig) (delta : ℕ) : Bool :=
  decide (cfg.compactAfter ≤ delta)

def keywordSizes (cfg : PirConfig) (server : P.Server) (delta : ℕ) :
    Option KeywordSizes :=
  if delta = 0 ∨ cfg.compactTailPercent = 0 then none
  else
    match readKeywordSizes server with
    | .ok sizes => some sizes
    | .error _ => none

def sizeThresholdMet (cfg : PirConfig) (server : P.Server) (delta : ℕ) :
    Bool :=
  match keywordSizes cfg server delta with
  | none => false
  | some sizes =>
      tailRatioReached sizes.tailBytes sizes.mphfBytes cfg.compactTailPercent

/-- The test of `compact_if_needed`. -/
def shouldCompact (cfg : PirConfig) (worker : PirWorker) (server : P.Server) :
    Bool :=
  let delta := P.len server - worker.lenAtCompaction
  countThresholdMet cfg delta || sizeThresholdMet cfg server delta

end PirWorker

/-! ## The thread -/

/-- Where the thread is: the call it makes next. -/
inductive Phase (P : EthPir)
  /-- `wait_for_deadline`. -/
  | waiting
  /-- `absorb`, with what is left of the batch. -/
  | absorbing (rest : UpdateBatch)
  /-- `publish`. -/
  | publishing
  /-- `compact_if_needed`. -/
  | compacting
  /-- `save_checkpoint`: the checkpoint, the `.keys` file, the `.index` file. -/
  | checkpointing
  | savingKeys (checkpoint : KeywordCheckpoint P.Blob)
  | savingIndex (checkpoint : KeywordCheckpoint P.Blob)
  /-- `publish_directory`: the blob, the `.index` file, the handle. -/
  | serializing
  | persisting (blob : P.Blob)
  | exposing (blob : P.Blob)
  /-- The syncer is gone. -/
  | stopped

/-- `published` are all the directories that were exposed, the last one first;
a client can hold any of them. -/
structure PirThread (P : EthPir) where
  phase : Phase P
  server : P.Server
  worker : PirWorker
  files : KeywordFiles P
  exposed : Directory P
  published : List (Directory P)

inductive PirEvent (P : EthPir)
  | recv (batch : UpdateBatch)
  | deadline
  | disconnected
  | update (addr : Address) (entry : Entry) (accepted : Bool)
  | absorbed
  | publish (answer : Except P.Fault (Option Unit))
  | keepIndex
  | rebuild (done : Bool)
  | checkpoint (done : Bool)
  | saveKeys (done : Bool)
  | saveIndex (done : Bool)
  | serialize (done : Bool)
  | persist (done : Bool)
  | expose (directory : Option (Directory P))

/-- `open_server` for the holder map `initial`, then the start of the worker.
A restored index is exposed next, a fresh one is saved before. -/
inductive Opens (P : EthPir) (initial : PirSnapshot) (files : KeywordFiles P) :
    Bool → PirThread P → Prop
  | restored {saved : KeywordStore.Loaded P} {server : P.Server}
      {placeholder : Directory P}
      (hload : KeywordStore.load files = .ok (some saved))
      (hcall : P.restore saved.directory saved.keys initial (.ok server))
      (hempty : Directory.empty = .ok placeholder) :
      Opens P initial files false
        ⟨.serializing, server, ⟨P.len server, 0, initial⟩, files, placeholder,
          []⟩
  | built {server : P.Server} {placeholder : Directory P}
      (hload : KeywordStore.load files = .ok none)
      (hcall : P.init initial (.ok server))
      (hempty : Directory.empty = .ok placeholder) :
      Opens P initial files true
        ⟨.checkpointing, server, ⟨P.len server, 0, initial⟩, files,
          placeholder, []⟩

/-- One step of the thread.  A file is written at once or not at all. -/
inductive PirStep (P : EthPir) (cfg : PirConfig) :
    PirThread P → PirEvent P → PirThread P → Prop
  | recv {s : PirThread P} {batch : UpdateBatch}
      (hphase : s.phase = .waiting) :
      PirStep P cfg s (.recv batch) { s with phase := .absorbing batch }
  | deadline {s : PirThread P} (hphase : s.phase = .waiting) :
      PirStep P cfg s .deadline { s with phase := .publishing }
  | disconnected {s : PirThread P} (hphase : s.phase = .waiting) :
      PirStep P cfg s .disconnected { s with phase := .stopped }
  | update {s : PirThread P} {addr : Address} {entry : Entry}
      {rest : UpdateBatch} {answer : Except P.Fault Unit} {server : P.Server}
      (hphase : s.phase = .absorbing ((addr, entry) :: rest))
      (hcall : P.update s.server addr entry answer server) :
      PirStep P cfg s (.update addr entry answer.isOk)
        { s with
          phase := .absorbing rest
          server
          worker := s.worker.absorbOne addr entry answer }
  | absorbed {s : PirThread P} (hphase : s.phase = .absorbing []) :
      PirStep P cfg s .absorbed { s with phase := .waiting }
  | publish {s : PirThread P} {answer : Except P.Fault (Option Unit)}
      {server : P.Server} (hphase : s.phase = .publishing)
      (hcall : P.tryRebuildDatabase s.server answer server) :
      PirStep P cfg s (.publish answer)
        { s with
          phase := .compacting
          server
          worker := s.worker.recordPublish answer }
  | keepIndex {s : PirThread P} (hphase : s.phase = .compacting)
      (htest : s.worker.shouldCompact cfg s.server = false) :
      PirStep P cfg s .keepIndex { s with phase := .serializing }
  | rebuilt {s : PirThread P} {server : P.Server}
      (hphase : s.phase = .compacting)
      (htest : s.worker.shouldCompact cfg s.server = true)
      (hcall : P.rebuildKeywordIndexFrom s.server s.worker.current (.ok ())
        server) :
      PirStep P cfg s (.rebuild true)
        { s with
          phase := .checkpointing
          server
          worker := s.worker.recordResync server }
  | rebuildFails {s : PirThread P} {fault : P.Fault} {server : P.Server}
      (hphase : s.phase = .compacting)
      (htest : s.worker.shouldCompact cfg s.server = true)
      (hcall : P.rebuildKeywordIndexFrom s.server s.worker.current
        (.error fault) server) :
      PirStep P cfg s (.rebuild false) { s with phase := .serializing, server }
  | checkpoint {s : PirThread P} {saved : KeywordCheckpoint P.Blob}
      (hphase : s.phase = .checkpointing)
      (hcall : P.checkpoint s.server (.ok saved)) :
      PirStep P cfg s (.checkpoint true) { s with phase := .savingKeys saved }
  | checkpointFails {s : PirThread P} {fault : P.Fault}
      (hphase : s.phase = .checkpointing)
      (hcall : P.checkpoint s.server (.error fault)) :
      PirStep P cfg s (.checkpoint false) { s with phase := .serializing }
  | saveKeys {s : PirThread P} {saved : KeywordCheckpoint P.Blob}
      (hphase : s.phase = .savingKeys saved) :
      PirStep P cfg s (.saveKeys true)
        { s with
          phase := .savingIndex saved
          files :=
            { s.files with
              keys := some ⟨saved.version, saved.keys,
                (P.keyword s.server).mphf⟩ } }
  | saveKeysFails {s : PirThread P} {saved : KeywordCheckpoint P.Blob}
      (hphase : s.phase = .savingKeys saved) :
      PirStep P cfg s (.saveKeys false) { s with phase := .serializing }
  | saveIndex {s : PirThread P} {saved : KeywordCheckpoint P.Blob}
      (hphase : s.phase = .savingIndex saved) :
      PirStep P cfg s (.saveIndex true)
        { s with
          phase := .serializing
          files := { s.files with index := some saved.directory } }
  | saveIndexFails {s : PirThread P} {saved : KeywordCheckpoint P.Blob}
      (hphase : s.phase = .savingIndex saved) :
      PirStep P cfg s (.saveIndex false) { s with phase := .serializing }
  | serialize {s : PirThread P} {blob : P.Blob}
      (hphase : s.phase = .serializing)
      (hcall : P.tryFull s.server (.ok blob)) :
      PirStep P cfg s (.serialize true) { s with phase := .persisting blob }
  | serializeFails {s : PirThread P} {fault : P.Fault}
      (hphase : s.phase = .serializing)
      (hcall : P.tryFull s.server (.error fault)) :
      PirStep P cfg s (.serialize false) { s with phase := .waiting }
  | persist {s : PirThread P} {blob : P.Blob}
      (hphase : s.phase = .persisting blob) :
      PirStep P cfg s (.persist true)
        { s with
          phase := .exposing blob
          files := { s.files with index := some blob } }
  | persistFails {s : PirThread P} {blob : P.Blob}
      (hphase : s.phase = .persisting blob) :
      PirStep P cfg s (.persist false) { s with phase := .waiting }
  | expose {s : PirThread P} {blob : P.Blob} {directory : Directory P}
      (hphase : s.phase = .exposing blob)
      (hparse : Directory.fromBlob blob = .ok directory) :
      PirStep P cfg s (.expose (some directory))
        { s with
          phase := .waiting
          exposed := directory
          published := directory :: s.published }
  | exposeFails {s : PirThread P} {blob : P.Blob} {fault : P.Fault}
      (hphase : s.phase = .exposing blob)
      (hparse : Directory.fromBlob blob = .error fault) :
      PirStep P cfg s (.expose none) { s with phase := .waiting }

/-! ## What the library calls and the files do -/

section Steps

variable {P : EthPir} {files : KeywordFiles P} {blob : P.Blob}
    {directory : Directory P}

/-- What is exposed is what the blob says. -/
theorem Directory.of_fromBlob (h : fromBlob blob = .ok directory) :
    P.readFrom blob = .ok directory.parsed ∧
      directory.version = directory.parsed.version := by
  unfold fromBlob at h
  cases hread : P.readFrom blob with
  | error fault =>
      rw [hread] at h
      cases h
  | ok parsed =>
      rw [hread] at h
      cases h
      exact ⟨rfl, rfl⟩

theorem Directory.parsed_fromBlob (h : fromBlob blob = .ok directory) :
    P.readFrom blob = .ok directory.parsed :=
  (of_fromBlob h).1

theorem Directory.version_fromBlob (h : fromBlob blob = .ok directory) :
    directory.version = directory.parsed.version :=
  (of_fromBlob h).2

/-- The placeholder is the index over no address. -/
theorem Directory.parsed_empty (h : empty = .ok directory) :
    ∃ full, P.emptyIndex = .ok (directory.parsed, full) ∧
      directory.version = directory.parsed.version := by
  unfold empty at h
  cases hindex : P.emptyIndex with
  | error fault =>
      rw [hindex] at h
      cases h
  | ok index =>
      rcases index with ⟨parsed, full⟩
      rw [hindex] at h
      cases h
      exact ⟨full, rfl, rfl⟩

/-- A pair is loaded when its halves carry one version. -/
theorem KeywordStore.load_eq_some {keys : KeysFile P}
    {parsed : KeywordDirectory P.Mphf} (hindex : files.index = some blob)
    (hkeys : files.keys = some keys) (hparse : P.readFrom blob = .ok parsed)
    (hversion : keys.version = parsed.version) :
    load files = .ok (some ⟨blob, keys.keys, parsed.version⟩) := by
  have hread : directoryVersion blob = .ok parsed.version := by
    unfold directoryVersion
    rw [hparse]
    rfl
  unfold load
  rw [hindex, hkeys]
  change (directoryVersion blob >>= _) = _
  rw [hread]
  exact if_neg (not_not.mpr hversion.symm)

/-- What a loaded pair says about the files. -/
theorem KeywordStore.of_load {loaded : Loaded P}
    (h : load files = .ok (some loaded)) :
    ∃ keys parsed, files.index = some loaded.directory ∧
      files.keys = some keys ∧ P.readFrom loaded.directory = .ok parsed ∧
      keys.version = parsed.version ∧ loaded.keys = keys.keys ∧
      loaded.version = parsed.version := by
  unfold load at h
  cases hindex : files.index with
  | none =>
      rw [hindex] at h
      cases h
  | some blob =>
      cases hkeys : files.keys with
      | none =>
          rw [hindex, hkeys] at h
          cases h
      | some keys =>
          rw [hindex, hkeys] at h
          change (directoryVersion blob >>= _) = _ at h
          unfold directoryVersion at h
          cases hread : P.readFrom blob with
          | error fault =>
              rw [hread] at h
              cases h
          | ok parsed =>
              rw [hread] at h
              change (if parsed.version ≠ keys.version then _ else _) = _ at h
              by_cases hversion : parsed.version = keys.version
              · rw [if_neg (not_not.mpr hversion)] at h
                cases h
                exact ⟨keys, parsed, rfl, rfl, hread, hversion.symm, rfl, rfl⟩
              · rw [if_pos hversion] at h
                cases h

end Steps

end UsdtPir
