import UsdtPir.EthPir
import UsdtPir.KeywordFormat
import UsdtPir.Machine
import UsdtPir.Observation
import UsdtPir.WriterPaths

/-!
# Saving the keyword files

Every save writes the index, a checkpoint writes the keys before it.  After any
row of saves both files hold what was written last, whichever save wrote it, so
they are read back as a pair exactly when the last index is of the version of
the last keys.
-/

namespace UsdtPir

open Interaction
open Paths
open Program
open Storage

namespace KeywordFile

/-! ## Writing -/

/-- What `save_index` writes, piece by piece. -/
def indexPieces (directory : List UInt8) : List (List UInt8) :=
  [INDEX_MAGIC, LittleEndian.encode 8 directory.length, directory]

/-- What `save_checkpoint` writes to the keys file, piece by piece. -/
def keysPieces (version : ℕ) (keys : List Address) : List (List UInt8) :=
  [KEYS_MAGIC, LittleEndian.encode 8 version,
    LittleEndian.encode 8 keys.length] ++ keys.map FixedBytes.bytes

variable {E F : Type}

def createParent (path : Path) : Files Path F Unit :=
  if (parentToCreate path).isSome then createDirs path else pure ()

def atomically (path : Path) (pieces : List (List UInt8)) : Files Path F Unit :=
  writeAtomically path (path.withExtension TMP) pieces

def saveIndex (paths : KeywordPaths) (directory : List UInt8) :
    Files Path F Unit := do
  createParent paths.index
  atomically paths.index (indexPieces directory)

def saveCheckpoint (paths : KeywordPaths)
    (checkpoint : KeywordCheckpoint (List UInt8)) : Files Path F Unit := do
  createParent paths.keys
  atomically paths.keys (keysPieces checkpoint.version checkpoint.keys)
  saveIndex paths checkpoint.directory

/-- `load` of the files on a disk, with memory enough for them. -/
def loadFrom (parse : List UInt8 → Except E ℕ) (d : Disk Path)
    (paths : KeywordPaths) : Except (Stop E) (Option Loaded) :=
  load .ample parse (.ok (d.read paths.index)) (.ok (d.read paths.keys))

/-! ## Reading what was written -/

/-- What fits into a vector, and a version of 64 bits. -/
structure Holds (checkpoint : KeywordCheckpoint (List UInt8)) : Prop where
  directory : checkpoint.directory.length < 2 ^ 63
  keys : 20 * checkpoint.keys.length < 2 ^ 63
  version : checkpoint.version < 2 ^ 64

section Format

variable {directory f g rest : List UInt8} {keys : List Address}
    {version n : ℕ}

theorem take_of_prefix {n : ℕ} (h : g <+: f) (hle : n ≤ g.length) :
    g.take n = f.take n := by
  cases h with
  | intro tail htail =>
      rw [← htail, List.take_append_of_le_length hle]

theorem decode_at (before : List UInt8) (h : n < 2 ^ 64) :
    LittleEndian.decode
      (((before ++ (LittleEndian.encode 8 n ++ rest)).drop before.length).take 8) =
      n := by
  rw [List.drop_left, List.take_left' (LittleEndian.length_encode 8 n)]
  exact LittleEndian.decode_encode h

theorem decode_of_prefix {n : ℕ} (h : g <+: f) (hle : n + 8 ≤ g.length) :
    LittleEndian.decode ((g.drop n).take 8) =
      LittleEndian.decode ((f.drop n).take 8) := by
  have htake : g.take (n + 8) = f.take (n + 8) := take_of_prefix h hle
  rw [List.take_drop, List.take_drop, htake]

theorem length_indexPieces :
    (indexPieces directory).flatten.length = 16 + directory.length := by
  simp [indexPieces, INDEX_MAGIC]
  omega

theorem headed_indexPieces : Headed INDEX_MAGIC 16 (indexPieces directory).flatten := by
  constructor
  · rfl
  · rw [length_indexPieces]
    omega

theorem indexLen_indexPieces (h : directory.length < 2 ^ 63) :
    indexLen (indexPieces directory).flatten = directory.length := by
  have hlt : directory.length < 2 ^ 64 := by omega
  exact decode_at INDEX_MAGIC hlt

theorem readIndexFile_indexPieces (h : directory.length < 2 ^ 63) :
    readIndexFile (E := E) (Allocator.ample .index)
      (indexPieces directory).flatten = .ok directory := by
  have hbuffer : zeroed (E := E) (Allocator.ample .index) 1 directory.length =
      .ok () := by
    apply zeroed_of_grants
    apply grants_ample
    omega
  rw [readIndexFile_headed headed_indexPieces, indexLen_indexPieces h,
    bind_ok hbuffer, length_indexPieces, if_neg (Nat.lt_irrefl _)]
  have hdrop : (indexPieces directory).flatten.drop 16 = directory := by
    simp [indexPieces, INDEX_MAGIC]
  rw [hdrop, List.take_length]

theorem readIndexFile_cut (h : directory.length < 2 ^ 63)
    (hcut : g <+: (indexPieces directory).flatten)
    (hne : g ≠ (indexPieces directory).flatten) :
    ∃ e, readIndexFile (E := E) (Allocator.ample .index) g =
      .error (.err e) := by
  have hlength : g.length < 16 + directory.length := by
    have hle := hcut.length_le
    have hshort : g.length ≠ (indexPieces directory).flatten.length := by
      intro heq
      exact hne (hcut.eq_of_length heq)
    rw [length_indexPieces] at hle hshort
    omega
  by_cases hheaded : Headed INDEX_MAGIC 16 g
  · have hlen : indexLen g = directory.length := by
      rw [← indexLen_indexPieces h]
      exact decode_of_prefix hcut hheaded.2
    have hbuffer : zeroed (E := E) (Allocator.ample .index) 1
        directory.length = .ok () := by
      apply zeroed_of_grants
      apply grants_ample
      omega
    rw [readIndexFile_headed hheaded, hlen, bind_ok hbuffer, if_pos hlength]
    exact ⟨_, rfl⟩
  · exact readIndexFile_not_headed hheaded

theorem length_rows : (keys.map FixedBytes.bytes).flatten.length = 20 * keys.length := by
  induction keys with
  | nil => rfl
  | cons key keys ih =>
      rw [List.map_cons, List.flatten_cons, List.length_append, ih,
        key.length_eq, List.length_cons]
      omega

theorem length_keysPieces :
    (keysPieces version keys).flatten.length = 24 + 20 * keys.length := by
  simp only [keysPieces, List.flatten_append, List.length_append, length_rows]
  simp [KEYS_MAGIC]

theorem headed_keysPieces :
    Headed KEYS_MAGIC 24 (keysPieces version keys).flatten := by
  constructor
  · rfl
  · rw [length_keysPieces]
    omega

theorem keysCount_keysPieces (h : 20 * keys.length < 2 ^ 63) :
    keysCount (keysPieces version keys).flatten = keys.length := by
  have hlt : keys.length < 2 ^ 64 := by omega
  have hread : LittleEndian.decode
      ((((KEYS_MAGIC ++ LittleEndian.encode 8 version) ++
        (LittleEndian.encode 8 keys.length ++
          (keys.map FixedBytes.bytes).flatten)).drop
        (KEYS_MAGIC ++ LittleEndian.encode 8 version).length).take 8) =
      keys.length := decode_at _ hlt
  rw [List.append_assoc] at hread
  exact hread

theorem keysVersion_keysPieces (h : version < 2 ^ 64) :
    LittleEndian.decode
      (((keysPieces version keys).flatten.drop 8).take 8) = version :=
  decode_at KEYS_MAGIC h

theorem readKeyRows_rows :
    readKeyRows (E := E) keys.length (keys.map FixedBytes.bytes).flatten =
      .ok keys := by
  induction keys with
  | nil => rfl
  | cons key keys ih =>
      have hread : readBytes (E := E) 20
          ((key :: keys).map FixedBytes.bytes).flatten (.truncated .keys) =
          .ok (key, (keys.map FixedBytes.bytes).flatten) := by
        unfold readBytes
        rw [List.map_cons, List.flatten_cons, readExact_append key]
      rw [List.length_cons, readKeyRows, bind_ok hread]
      dsimp only
      rw [bind_ok ih]
      rfl

theorem readKeysFile_keysPieces (hkeys : 20 * keys.length < 2 ^ 63)
    (hversion : version < 2 ^ 64) :
    readKeysFile (E := E) (Allocator.ample .keys)
      (keysPieces version keys).flatten = .ok (keys, version) := by
  have hbuffer : zeroed (E := E) (Allocator.ample .keys) 20 keys.length =
      .ok () := zeroed_of_grants (grants_ample hkeys)
  have hdrop : (keysPieces version keys).flatten.drop 24 =
      (keys.map FixedBytes.bytes).flatten := by
    simp [keysPieces, KEYS_MAGIC, List.drop_append]
  rw [readKeysFile_headed headed_keysPieces, keysCount_keysPieces hkeys,
    bind_ok hbuffer, hdrop, bind_ok readKeyRows_rows,
    keysVersion_keysPieces hversion]

theorem readKeysFile_cut (h : 20 * keys.length < 2 ^ 63)
    (hcut : g <+: (keysPieces version keys).flatten)
    (hne : g ≠ (keysPieces version keys).flatten) :
    ∃ e, readKeysFile (E := E) (Allocator.ample .keys) g =
      .error (.err e) := by
  have hlength : g.length < 24 + 20 * keys.length := by
    have hle := hcut.length_le
    have hshort : g.length ≠ (keysPieces version keys).flatten.length := by
      intro heq
      exact hne (hcut.eq_of_length heq)
    rw [length_keysPieces] at hle hshort
    omega
  by_cases hheaded : Headed KEYS_MAGIC 24 g
  · have hcount : keysCount g = keys.length := by
      have hwhole : keysCount (keysPieces version keys).flatten = keys.length :=
        keysCount_keysPieces h
      rw [← hwhole]
      exact decode_of_prefix hcut hheaded.2
    have hbody : (g.drop 24).length < 20 * keys.length := by
      have hheader := hheaded.2
      rw [List.length_drop]
      omega
    have hbuffer : zeroed (E := E) (Allocator.ample .keys) 20 keys.length =
        .ok () := zeroed_of_grants (grants_ample h)
    rw [readKeysFile_headed hheaded, hcount, bind_ok hbuffer]
    exact ⟨_, bind_error (readKeyRows_of_lt hbody)⟩
  · exact readKeysFile_not_headed hheaded

end Format

/-! ## Rows of saves -/

/-- A save of values that a vector and a word hold. -/
inductive Save
  | index (directory : List UInt8) (hfits : directory.length < 2 ^ 63)
  | checkpoint (checkpoint : KeywordCheckpoint (List UInt8))
      (hfits : Holds checkpoint)

namespace Save

def directory : Save → List UInt8
  | .index directory _ => directory
  | .checkpoint saved _ => saved.directory

def keys : Save → Option (List Address × ℕ)
  | .index _ _ => none
  | .checkpoint saved _ => some (saved.keys, saved.version)

def program (paths : KeywordPaths) : Save → Files Path F Unit
  | .index directory _ => saveIndex paths directory
  | .checkpoint saved _ => saveCheckpoint paths saved

end Save

/-- A save that returns. -/
def SaveStep (F : Type) (paths : KeywordPaths) (d : Disk Path) (save : Save)
    (d' : Disk Path) : Prop :=
  ∃ buffer buffer',
    (save.program paths : Files Path F Unit).Runs diskCalls d buffer d'
      (.ok ()) buffer'

def lastIndex (saves : List Save) : Option (List UInt8) :=
  saves.getLast?.map Save.directory

def lastKeys (saves : List Save) : Option (List Address × ℕ) :=
  (saves.filterMap Save.keys).getLast?

/-- The last index with the last keys, if they are of one version. -/
def lastPair (versionOf : List UInt8 → ℕ) (saves : List Save) : Option Loaded :=
  (lastIndex saves).bind fun directory =>
    (lastKeys saves).bind fun held =>
      if versionOf directory = held.2 then
        some ⟨directory, held.1, held.2⟩
      else
        none

/-- Both files hold what was written last, and will after a crash. -/
structure Written (paths : KeywordPaths) (saves : List Save) (d : Disk Path) :
    Prop where
  indexDurable : d.Durable paths.index
  keysDurable : d.Durable paths.keys
  indexRead : d.read paths.index =
    (lastIndex saves).map fun directory => (indexPieces directory).flatten
  keysRead : d.read paths.keys =
    (lastKeys saves).map fun held => (keysPieces held.2 held.1).flatten

section Runs

variable {d d' : Disk Path} {base path other : Path}
    {pieces : List (List UInt8)} {buffer : List UInt8} {saves : List Save}
    {save : Save} {directory : List UInt8}

theorem meets_createParent {ok : Disk Path → Unit → List UInt8 → Prop}
    (h : ok d () buffer) :
    Meets diskCalls (createParent path : Files Path F Unit) d buffer ok
      (fun _ _ _ => True) := by
  unfold createParent
  split
  · intro answer after hanswer
    have hafter : after = d := hanswer
    subst hafter
    cases answer with
    | ok done => exact h
    | error e => trivial
  · exact h

/-- One file is replaced and the other one is not touched. -/
theorem meets_atomically (htmp : path.withExtension TMP ≠ path)
    (hother : path.withExtension TMP ≠ other) (hne : path ≠ other)
    (hpath : d.Durable path) (hkeeps : d.Durable other) :
    Meets diskCalls (atomically path pieces : Files Path F Unit) d buffer
      (fun d' _ _ => (d'.Durable path ∧ d'.read path = some pieces.flatten) ∧
        d'.Durable other ∧ d'.read other = d.read other)
      (fun _ _ _ => True) := by
  have hnew : Meets diskCalls (atomically path pieces : Files Path F Unit) d
      buffer
      (fun d' _ _ => d'.Durable path ∧ d'.read path = some pieces.flatten)
      (fun d' _ _ => d'.Durable path ∧ d'.read path = d.read path) :=
    (guards_writeAtomically htmp hpath).meets
  have hold : Meets diskCalls (atomically path pieces : Files Path F Unit) d
      buffer
      (fun d' _ _ => d'.Durable other ∧ d'.read other = d.read other)
      (fun _ _ _ => True) := meets_writeAtomically_other hother hne hkeeps
  apply meets_mono (hnew.and hold)
  · intro _ _ _ h
    exact h
  · intro _ _ _ _
    trivial

theorem index_ne_tmp (base : Path) :
    path.withExtension TMP ≠ (KeywordPaths.new base).index := by
  have hext : (KeywordPaths.new base).index.name.extension ≠
      some TMP.chars := by
    have hindex : (KeywordPaths.new base).index.name.extension =
        some INDEX.chars := extension_withExtension INDEX
    rw [hindex]
    decide
  exact (target_ne_tmp hext).symm

theorem keys_ne_tmp (base : Path) :
    path.withExtension TMP ≠ (KeywordPaths.new base).keys := by
  have hext : (KeywordPaths.new base).keys.name.extension ≠
      some TMP.chars := by
    have hkeys : (KeywordPaths.new base).keys.name.extension =
        some KEYS.chars := extension_withExtension KEYS
    rw [hkeys]
    decide
  exact (target_ne_tmp hext).symm

theorem meets_saveIndex (hindex : d.Durable (KeywordPaths.new base).index)
    (hkeys : d.Durable (KeywordPaths.new base).keys) :
    Meets diskCalls
      (saveIndex (KeywordPaths.new base) directory : Files Path F Unit) d buffer
      (fun d' _ _ => (d'.Durable (KeywordPaths.new base).index ∧
          d'.read (KeywordPaths.new base).index =
            some (indexPieces directory).flatten) ∧
        d'.Durable (KeywordPaths.new base).keys ∧
          d'.read (KeywordPaths.new base).keys =
            d.read (KeywordPaths.new base).keys)
      (fun _ _ _ => True) := by
  simp only [saveIndex, meets_bind]
  apply meets_createParent
  exact meets_atomically (index_ne_tmp base) (keys_ne_tmp base)
    (index_ne_keys base) hindex hkeys

/-- What one save does to the two files. -/
theorem Written.step (h : Written (KeywordPaths.new base) saves d)
    (hstep : SaveStep F (KeywordPaths.new base) d save d') :
    Written (KeywordPaths.new base) (saves ++ [save]) d' := by
  rcases hstep with ⟨buffer, buffer', hrun⟩
  have hindexLast : lastIndex (saves ++ [save]) = some save.directory := by
    simp [lastIndex]
  cases save with
  | index directory hfits =>
      have hkeysLast : lastKeys (saves ++ [.index directory hfits]) =
          lastKeys saves := by
        simp [lastKeys, Save.keys]
      rcases (meets_saveIndex h.indexDurable h.keysDurable).of_ok hrun with
        ⟨hindex, hkeys⟩
      constructor
      · exact hindex.1
      · exact hkeys.1
      · rw [hindexLast]
        exact hindex.2
      · rw [hkeysLast, hkeys.2]
        exact h.keysRead
  | checkpoint checkpoint hfits =>
      have hkeysLast : lastKeys (saves ++ [.checkpoint checkpoint hfits]) =
          some (checkpoint.keys, checkpoint.version) := by
        simp [lastKeys, Save.keys]
      have hmeets : Meets diskCalls
          (saveCheckpoint (KeywordPaths.new base) checkpoint :
            Files Path F Unit) d buffer
          (fun d' _ _ => (d'.Durable (KeywordPaths.new base).index ∧
              d'.read (KeywordPaths.new base).index =
                some (indexPieces checkpoint.directory).flatten) ∧
            d'.Durable (KeywordPaths.new base).keys ∧
              d'.read (KeywordPaths.new base).keys =
                some (keysPieces checkpoint.version checkpoint.keys).flatten)
          (fun _ _ _ => True) := by
        simp only [saveCheckpoint, meets_bind]
        apply meets_createParent
        apply meets_mono (meets_atomically (keys_ne_tmp base)
          (index_ne_tmp base) (index_ne_keys base).symm h.keysDurable
          h.indexDurable)
        · intro d₁ _ buffer₁ hkeys
          apply meets_mono (meets_saveIndex hkeys.2.1 hkeys.1.1)
          · intro d₂ _ buffer₂ hindex
            rw [hkeys.1.2] at hindex
            exact hindex
          · intro _ _ _ _
            trivial
        · intro _ _ _ _
          trivial
      rcases hmeets.of_ok hrun with ⟨hindex, hkeys⟩
      constructor
      · exact hindex.1
      · exact hkeys.1
      · rw [hindexLast]
        exact hindex.2
      · rw [hkeysLast]
        exact hkeys.2

/-- A file that is not there is not lost either. -/
theorem durable_of_read_none (h : d.read path = none) : d.Durable path := by
  intro i hi
  unfold Disk.read at h
  rw [hi] at h
  cases h

theorem Written.nil (hindex : d.read (KeywordPaths.new base).index = none)
    (hkeys : d.read (KeywordPaths.new base).keys = none) :
    Written (KeywordPaths.new base) [] d := by
  constructor
  · exact durable_of_read_none hindex
  · exact durable_of_read_none hkeys
  · exact hindex
  · exact hkeys

theorem Written.run {before : List Save}
    (h : Written (KeywordPaths.new base) before d)
    (hrun : Machine.Run (SaveStep F (KeywordPaths.new base)) d saves d') :
    Written (KeywordPaths.new base) (before ++ saves) d' := by
  induction hrun generalizing before with
  | nil d =>
      rw [List.append_nil]
      exact h
  | cons hstep hrest ih =>
      have hnext := ih (h.step hstep)
      rw [List.append_assoc] at hnext
      exact hnext

end Runs

/-- What is loaded after a row of saves. -/
structure VersionedPair (parse : List UInt8 → Except E ℕ)
    (versionOf : List UInt8 → ℕ) (paths : KeywordPaths) (saves : List Save)
    (d : Disk Path) : Prop where
  pair : loadFrom parse d paths = .ok (lastPair versionOf saves)
  indexMissing : load .ample parse (.ok none) (.ok (d.read paths.keys)) = .ok none
  keysMissing : load .ample parse (.ok (d.read paths.index)) (.ok none) = .ok none
  indexCut : ∀ f g keys, d.read paths.index = some f → g <+: f → g ≠ f →
    ∃ e, load .ample parse (.ok (some g)) keys = .error (.err e)
  keysCut : ∀ f g, d.read paths.keys = some f → g <+: f → g ≠ f →
    ∃ e, load .ample parse (.ok (d.read paths.index)) (.ok (some g)) =
      .error (.err e)

section Loading

variable {d d' : Disk Path} {paths : KeywordPaths} {base : Path}
    {saves : List Save} {parse : List UInt8 → Except E ℕ}
    {versionOf : List UInt8 → ℕ}

theorem lastIndex_fits {directory : List UInt8}
    (h : lastIndex saves = some directory) :
    directory.length < 2 ^ 63 ∧ ∃ save ∈ saves, save.directory = directory := by
  rcases Option.map_eq_some_iff.mp h with ⟨save, hlast, rfl⟩
  constructor
  · cases save with
    | index directory hfits => exact hfits
    | checkpoint saved hfits => exact hfits.directory
  · exact ⟨save, List.mem_of_getLast? hlast, rfl⟩

theorem lastKeys_fits {held : List Address × ℕ} (h : lastKeys saves = some held) :
    20 * held.1.length < 2 ^ 63 ∧ held.2 < 2 ^ 64 := by
  rcases List.mem_filterMap.mp (List.mem_of_getLast? h) with ⟨save, -, hsave⟩
  cases save with
  | index directory hfits => cases hsave
  | checkpoint saved hfits =>
      cases hsave
      exact ⟨hfits.keys, hfits.version⟩

theorem Written.readIndex (h : Written paths saves d) :
    readIndex (E := E) (Allocator.ample .index) (.ok (d.read paths.index)) =
      .ok (lastIndex saves) := by
  rw [h.indexRead]
  cases hlast : lastIndex saves with
  | none => rfl
  | some directory =>
      exact bind_ok (readIndexFile_indexPieces (lastIndex_fits hlast).1)

theorem Written.readKeys (h : Written paths saves d) :
    readKeys (E := E) (Allocator.ample .keys) (.ok (d.read paths.keys)) =
      .ok (lastKeys saves) := by
  rw [h.keysRead]
  cases hlast : lastKeys saves with
  | none => rfl
  | some held =>
      rcases lastKeys_fits hlast with ⟨hkeys, hversion⟩
      exact bind_ok (readKeysFile_keysPieces hkeys hversion)

theorem Written.load_eq (h : Written paths saves d)
    (hparse : ∀ save ∈ saves, parse save.directory =
      .ok (versionOf save.directory)) :
    loadFrom parse d paths = .ok (lastPair versionOf saves) := by
  unfold loadFrom load lastPair
  rw [bind_ok h.readIndex, bind_ok h.readKeys]
  cases hindex : lastIndex saves with
  | none => rfl
  | some directory =>
      cases hkeys : lastKeys saves with
      | none => rfl
      | some held =>
          rcases (lastIndex_fits hindex).2 with ⟨save, hsave, hdirectory⟩
          have hversion : directoryVersion parse directory =
              .ok (versionOf directory) := by
            unfold directoryVersion
            rw [← hdirectory, hparse save hsave]
          dsimp only
          rw [bind_ok hversion]
          by_cases hsame : versionOf directory = held.2
          · simp [hsame]
            rfl
          · simp [hsame]
            rfl

theorem Written.versionedPair (h : Written paths saves d)
    (hparse : ∀ save ∈ saves, parse save.directory =
      .ok (versionOf save.directory)) :
    VersionedPair parse versionOf paths saves d := by
  constructor
  · exact h.load_eq hparse
  · exact bind_ok h.readKeys
  · unfold load
    rw [bind_ok h.readIndex]
    cases lastIndex saves with
    | none => rfl
    | some directory => rfl
  · intro f g keys hf hcut hne
    rw [h.indexRead] at hf
    rcases Option.map_eq_some_iff.mp hf with ⟨directory, hlast, rfl⟩
    rcases readIndexFile_cut (E := E) (lastIndex_fits hlast).1 hcut hne with
      ⟨e, he⟩
    exact ⟨e, load_of_index_stops he⟩
  · intro f g hf hcut hne
    rw [h.keysRead] at hf
    rcases Option.map_eq_some_iff.mp hf with ⟨held, hlast, rfl⟩
    rcases readKeysFile_cut (E := E) (lastKeys_fits hlast).1 hcut hne with
      ⟨e, he⟩
    exact ⟨e, load_of_keys_stop h.readIndex he⟩

/-- The keyword files are a versioned pair after any row of saves. -/
theorem saves_are_versioned_pair {F : Type}
    (hindex : d.read (KeywordPaths.new base).index = none)
    (hkeys : d.read (KeywordPaths.new base).keys = none)
    (hrun : Machine.Run (SaveStep F (KeywordPaths.new base)) d saves d')
    (hparse : ∀ save ∈ saves, parse save.directory =
      .ok (versionOf save.directory)) :
    VersionedPair parse versionOf (KeywordPaths.new base) saves d' := by
  have hnone : Written (KeywordPaths.new base) [] d := .nil hindex hkeys
  have hwritten : Written (KeywordPaths.new base) ([] ++ saves) d' :=
    hnone.run hrun
  exact hwritten.versionedPair hparse

end Loading

namespace Republished

/-- `data/kw`. -/
def base : Path :=
  ⟨[['d', 'a', 't', 'a']], ⟨['k', 'w'], by decide, by decide, by decide,
    by decide⟩⟩

/-- Every call succeeds and hands over all of its bytes. -/
def serve (d : Disk Path) (question : FileRequest Path) :
    FileAnswer Path Unit question × Disk Path :=
  match question with
  | .createDirs _ => (.ok (), d)
  | .create p => (.ok (d.create p).2, (d.create p).1)
  | .write handle bytes => (.ok bytes.length, d.append handle bytes)
  | .flush handle bytes => (.ok (), d.append handle bytes)
  | .sync handle => (.ok (), d.sync handle)
  | .rename p q =>
      match d.rename p q with
      | some d' => (.ok (), d')
      | none => (.error (), d)

theorem diskCalls_serve (d : Disk Path) (question : FileRequest Path) :
    diskCalls d question (serve d question).1 (serve d question).2 := by
  cases question with
  | createDirs p => rfl
  | create p => exact ⟨rfl, rfl⟩
  | write handle bytes =>
      change d.append handle bytes = d.append handle (bytes.take bytes.length)
      rw [List.take_length]
  | flush handle bytes => rfl
  | sync handle => rfl
  | rename p q =>
      simp only [serve]
      cases hrename : d.rename p q with
      | none => rfl
      | some d' => exact hrename

/-- A directory with one key, then the same generation with another blob. -/
def first : Save :=
  .checkpoint ⟨7, [.zero], [7, 0]⟩ ⟨by decide, by decide, by decide⟩

def second : Save :=
  .index [7, 1] (by decide)

theorem saveStep_exec {paths : KeywordPaths} {d : Disk Path} {save : Save}
    (h : (exec serve (save.program paths) d []).1.1 = .ok ()) :
    SaveStep Unit paths d save (exec serve (save.program paths) d []).2 := by
  have hrun := runs_exec (fun d => d) (save.program paths) d []
    diskCalls_serve
  rw [h] at hrun
  exact ⟨_, _, hrun⟩

/-- The first byte of a blob is its version. -/
def versionOf (blob : List UInt8) : ℕ :=
  (blob.headD 0).toNat

def parse (blob : List UInt8) : Except Unit ℕ :=
  .ok (versionOf blob)

theorem saves_are_versioned_pair_republished : ∃ d,
    Machine.Run (SaveStep Unit (KeywordPaths.new base)) .empty
        [first, second] d ∧
      VersionedPair parse versionOf (KeywordPaths.new base) [first, second] d ∧
      loadFrom parse d (KeywordPaths.new base) =
        .ok (some ⟨[7, 1], [.zero], 7⟩) := by
  have hfirst : SaveStep Unit (KeywordPaths.new base) .empty first
      (exec serve (first.program (KeywordPaths.new base)) .empty []).2 :=
    saveStep_exec rfl
  have hsecond : SaveStep Unit (KeywordPaths.new base)
      (exec serve (first.program (KeywordPaths.new base)) .empty []).2 second
      (exec serve (second.program (KeywordPaths.new base))
        (exec serve (first.program (KeywordPaths.new base)) .empty []).2 []).2 :=
    saveStep_exec rfl
  have hrun := Machine.Run.cons hfirst (.cons hsecond (.nil _))
  have hpair : VersionedPair parse versionOf (KeywordPaths.new base)
      [first, second] _ :=
    saves_are_versioned_pair rfl rfl hrun (fun _ _ => rfl)
  exact ⟨_, hrun, hpair, hpair.pair⟩

end Republished

end KeywordFile

end UsdtPir
