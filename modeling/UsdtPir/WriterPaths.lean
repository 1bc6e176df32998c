import UsdtPir.SharedDisk
import UsdtPir.SnapshotSave

/-!
# The files of two writers

The names that the snapshot, its lock and the keyword files get, and when two
writers that run side by side keep off each other's files: two processes that
save two snapshots, and the two threads of a server.
-/

namespace UsdtPir

open Paths
open Storage

def INDEX : Extension :=
  ⟨['i', 'n', 'd', 'e', 'x'], by decide, by decide, by decide⟩

def KEYS : Extension :=
  ⟨['k', 'e', 'y', 's'], by decide, by decide, by decide⟩

/-- `.lock`, which is appended to the file name. -/
def LOCK : List Char :=
  ['.', 'l', 'o', 'c', 'k']

def lockPath (snapshot : Path) : Path :=
  { snapshot with
    name :=
      { chars := snapshot.name.chars ++ LOCK
        ne_nil := by simp [LOCK]
        ne_dot := by
          intro h
          have hlength := congrArg List.length h
          simp [LOCK] at hlength
        ne_dots := by
          intro h
          have hlength := congrArg List.length h
          simp [LOCK] at hlength
        no_slash := by
          rw [List.mem_append, not_or]
          exact ⟨snapshot.name.no_slash, by decide⟩ } }

/-- `keyword_store::Paths`. -/
structure KeywordPaths where
  index : Path
  keys : Path

def KeywordPaths.new (base : Path) : KeywordPaths :=
  ⟨base.withExtension INDEX, base.withExtension KEYS⟩

/-- The file that is written on the way to a target, by
`write_snapshot_atomically` and by `atomically`. -/
def atomicJob (target : Path) : Storage.Job Path :=
  ⟨target, target.withExtension TMP⟩

inductive Writer
  | first
  | second
  deriving DecidableEq

/-- Two processes, each of which saves its own snapshot. -/
def twoProcesses (state state' : Path) : Writer → List Path
  | .first => [state]
  | .second => [state']

/-- The syncer saves the snapshot of a server, and its PIR thread the two
keyword files. -/
def oneServer (state base : Path) : Writer → List Path
  | .first => [state]
  | .second => [(KeywordPaths.new base).index, (KeywordPaths.new base).keys]

def jobs (targets : Writer → List Path) (w : Writer) :
    List (Storage.Job Path) :=
  (targets w).map atomicJob

/-- Two writers use no path twice, and whatever they do every target is a
whole file of its own writer. -/
def NeverShare (targets : Writer → List Path) : Prop :=
  Apart (jobs targets) ∧ AlwaysSafe (jobs targets)

section Names

variable {path path' state state' base : Path}
    {targets : Writer → List Path}

theorem lockPath_inj : lockPath path = lockPath path' ↔ path = path' := by
  constructor
  · intro h
    have hparent := congrArg Path.parent h
    have hchars := congrArg (fun p => p.name.chars) h
    have hname : path.name.chars = path'.name.chars :=
      List.append_cancel_right hchars
    exact Paths.Path.ext hparent (FileName.ext hname)
  · intro h
    rw [h]

theorem extension_withExtension (ext : Extension) :
    (path.withExtension ext).name.extension = some ext.chars :=
  FileName.extension_withExtension

/-- Only a file that has the extension itself can be a temporary file. -/
theorem target_ne_tmp (h : path.name.extension ≠ some TMP.chars) :
    (atomicJob path).target ≠ (atomicJob path').tmp := by
  intro heq
  have htarget : path = path'.withExtension TMP := heq
  rw [htarget] at h
  exact h (extension_withExtension TMP)

theorem index_ne_keys (base : Path) :
    (KeywordPaths.new base).index ≠ (KeywordPaths.new base).keys := by
  intro heq
  have hext : (KeywordPaths.new base).index.name.extension =
      some INDEX.chars := extension_withExtension INDEX
  have hkeys : (KeywordPaths.new base).keys.name.extension =
      some KEYS.chars := extension_withExtension KEYS
  rw [heq, hkeys, Option.some.injEq] at hext
  exact absurd hext (by decide)

theorem mem_jobs {w : Writer} {job : Storage.Job Path} :
    job ∈ jobs targets w ↔ ∃ target ∈ targets w, atomicJob target = job :=
  List.mem_map

/-- When the writers use no path twice, in terms of their targets. -/
theorem apart_iff :
    Apart (jobs targets) ↔
      (∀ w, ∀ target ∈ targets w, target.name.extension ≠ some TMP.chars) ∧
      (∀ target ∈ targets .first, ∀ target' ∈ targets .second,
        ¬ target.SharesStem target') ∧
      ∀ w, (targets w).Nodup := by
  have hnodup : ∀ w, (jobs targets w).map Storage.Job.target = targets w := by
    intro w
    unfold jobs
    rw [List.map_map]
    exact List.map_id (targets w)
  constructor
  · intro h
    refine ⟨?_, ?_, ?_⟩
    · intro w target htarget hext
      have hjob : atomicJob target ∈ jobs targets w :=
        mem_jobs.mpr ⟨target, htarget, rfl⟩
      exact h.target_ne_tmp hjob hjob
        (Path.withExtension_eq_self_iff.mpr hext).symm
    · intro target htarget target' htarget' hstem
      have hjob : atomicJob target ∈ jobs targets .first :=
        mem_jobs.mpr ⟨target, htarget, rfl⟩
      have hjob' : atomicJob target' ∈ jobs targets .second :=
        mem_jobs.mpr ⟨target', htarget', rfl⟩
      exact h.tmp_ne_tmp (by decide) hjob hjob'
        (Path.withExtension_inj.mpr hstem)
    · intro w
      rw [← hnodup w]
      exact h.targets_nodup w
  · rintro ⟨hext, hstem, htargets⟩
    have hstems : ∀ {w w' target target'}, w ≠ w' → target ∈ targets w →
        target' ∈ targets w' → ¬ target.SharesStem target' := by
      intro w w' target target' hw htarget htarget'
      cases w with
      | first =>
          cases w' with
          | first => exact absurd rfl hw
          | second => exact hstem target htarget target' htarget'
      | second =>
          cases w' with
          | first =>
              intro hshare
              exact hstem target' htarget' target htarget hshare.symm
          | second => exact absurd rfl hw
    constructor
    · intro w w' job job' hjob hjob'
      rcases mem_jobs.mp hjob with ⟨target, htarget, rfl⟩
      rcases mem_jobs.mp hjob' with ⟨target', htarget', rfl⟩
      exact target_ne_tmp (hext w target htarget)
    · intro w w' job job' hw hjob hjob' heq
      rcases mem_jobs.mp hjob with ⟨target, htarget, rfl⟩
      rcases mem_jobs.mp hjob' with ⟨target', htarget', rfl⟩
      exact hstems hw htarget htarget' (Path.withExtension_inj.mp heq)
    · intro w w' job job' hw hjob hjob' heq
      rcases mem_jobs.mp hjob with ⟨target, htarget, rfl⟩
      rcases mem_jobs.mp hjob' with ⟨target', htarget', rfl⟩
      exact hstems hw htarget htarget' (.of_eq heq)
    · intro w
      rw [hnodup w]
      exact htargets w

theorem neverShare_iff_apart :
    NeverShare targets ↔ Apart (jobs targets) := by
  constructor
  · intro h
    exact h.1
  · intro h
    exact ⟨h, alwaysSafe_of_apart h⟩

theorem neverShare_twoProcesses :
    NeverShare (twoProcesses state state') ↔
      state.name.extension ≠ some TMP.chars ∧
      state'.name.extension ≠ some TMP.chars ∧ ¬ state.SharesStem state' := by
  rw [neverShare_iff_apart, apart_iff]
  constructor
  · rintro ⟨hext, hstem, -⟩
    exact ⟨hext .first state (List.mem_singleton_self state),
      hext .second state' (List.mem_singleton_self state'),
      hstem state (List.mem_singleton_self state) state'
        (List.mem_singleton_self state')⟩
  · rintro ⟨hext, hext', hstem⟩
    refine ⟨?_, ?_, ?_⟩
    · intro w target htarget
      cases w with
      | first =>
          rw [List.mem_singleton.mp htarget]
          exact hext
      | second =>
          rw [List.mem_singleton.mp htarget]
          exact hext'
    · intro target htarget target' htarget'
      rw [List.mem_singleton.mp htarget, List.mem_singleton.mp htarget']
      exact hstem
    · intro w
      cases w with
      | first => exact List.nodup_singleton state
      | second => exact List.nodup_singleton state'

theorem mem_oneServer {target : Path}
    (h : target ∈ oneServer state base .second) :
    ∃ ext : Extension, target = base.withExtension ext ∧
      ext.chars ≠ TMP.chars := by
  rcases List.mem_cons.mp h with rfl | hkeys
  · exact ⟨INDEX, rfl, by decide⟩
  · rw [List.mem_singleton] at hkeys
    exact ⟨KEYS, hkeys, by decide⟩

theorem neverShare_oneServer :
    NeverShare (oneServer state base) ↔
      state.name.extension ≠ some TMP.chars ∧ ¬ state.SharesStem base := by
  rw [neverShare_iff_apart, apart_iff]
  constructor
  · rintro ⟨hext, hstem, -⟩
    constructor
    · exact hext .first state (List.mem_singleton_self state)
    · intro hshare
      apply hstem state (List.mem_singleton_self state)
        (base.withExtension INDEX) List.mem_cons_self
      exact (Path.sharesStem_withExtension.mpr hshare.symm).symm
  · rintro ⟨hext, hstem⟩
    refine ⟨?_, ?_, ?_⟩
    · intro w target htarget
      cases w with
      | first =>
          rw [List.mem_singleton.mp htarget]
          exact hext
      | second =>
          rcases mem_oneServer htarget with ⟨ext, rfl, hne⟩
          rw [extension_withExtension, ne_eq, Option.some.injEq]
          exact hne
    · intro target htarget target' htarget' hshare
      rw [List.mem_singleton.mp htarget] at hshare
      rcases mem_oneServer htarget' with ⟨ext, rfl, -⟩
      exact hstem (Path.sharesStem_withExtension.mp hshare.symm).symm
    · intro w
      cases w with
      | first => exact List.nodup_singleton state
      | second =>
          exact List.nodup_cons.mpr
            ⟨fun hmem => index_ne_keys base (List.mem_singleton.mp hmem),
              List.nodup_singleton _⟩

/-- Two writers with two locks, and the two threads of one server, never share
a file exactly when no snapshot has the extension of the temporary files and
no two of the paths they are given differ only in their extension. -/
theorem writers_never_share (state state' base : Path)
    (hlocks : lockPath state ≠ lockPath state') :
    state ≠ state' ∧
    (NeverShare (twoProcesses state state') ↔
      state.name.extension ≠ some TMP.chars ∧
      state'.name.extension ≠ some TMP.chars ∧
      ¬ state.SharesStem state') ∧
    (NeverShare (oneServer state base) ↔
      state.name.extension ≠ some TMP.chars ∧ ¬ state.SharesStem base) := by
  refine ⟨?_, neverShare_twoProcesses, neverShare_oneServer⟩
  intro heq
  exact hlocks (lockPath_inj.mpr heq)

end Names

namespace SharedStem

/-- `a.snapshot`. -/
def state : Path :=
  ⟨[], ⟨['a', '.', 's', 'n', 'a', 'p', 's', 'h', 'o', 't'], by decide,
    by decide, by decide, by decide⟩⟩

/-- `a.bin`. -/
def state' : Path :=
  ⟨[], ⟨['a', '.', 'b', 'i', 'n'], by decide, by decide, by decide,
    by decide⟩⟩

/-- `data/keyword`. -/
def base : Path :=
  ⟨[['d', 'a', 't', 'a']], ⟨['k', 'e', 'y', 'w', 'o', 'r', 'd'], by decide,
    by decide, by decide, by decide⟩⟩

theorem writers_never_share_states :
    lockPath state ≠ lockPath base ∧ NeverShare (twoProcesses state base) ∧
      NeverShare (oneServer state base) := by
  have hlocks : lockPath state ≠ lockPath base := by decide
  have hshare := writers_never_share state base base hlocks
  have hstem : ¬ state.SharesStem base := by
    intro hshared
    exact absurd hshared.1 (by decide)
  exact ⟨hlocks, hshare.2.1.mpr ⟨by decide, by decide, hstem⟩,
    hshare.2.2.mpr ⟨by decide, hstem⟩⟩

/-- Each process saves an empty map, at another block. -/
def content : Writer → List UInt8
  | .first => (snapshotPieces 1 []).flatten
  | .second => (snapshotPieces 2 []).flatten

def Whole (w : Writer) (_ : Path) (bytes : List UInt8) : Prop :=
  bytes = content w

/-- The second process has written its bytes to the temporary file that the
first one has synced. -/
theorem second_writes_over_first : ∃ (s : Storage.Session Path Writer)
    (file : OpenFile Path),
    Machine.Run (WriterStep (jobs (twoProcesses state state')) Whole)
      ⟨.empty, fun _ => none⟩
      [.create .first (atomicJob state) (content .first),
        .write .first (content .first), .sync .first,
        .create .second (atomicJob state') (content .second),
        .write .second (content .second)] s ∧
      s.drafts .first = some file ∧ file.job = atomicJob state ∧
      file.rest = [] ∧ file.synced = true ∧
      s.disk.names (atomicJob state).tmp = some 0 ∧
      s.disk.contents 0 = content .second := by
  refine ⟨_, _, .cons (.create rfl List.mem_cons_self rfl) (.cons
    (.write rfl (List.append_nil _).symm (by decide)) (.cons
    (.sync rfl rfl) (.cons (.create rfl List.mem_cons_self rfl) (.cons
    (.write rfl (List.append_nil _).symm (by decide)) (.nil _))))),
    rfl, rfl, rfl, rfl, rfl, ?_⟩
  decide

/-- Two processes whose snapshots differ only in the extension: both hold
their locks, and one snapshot becomes the other one's. -/
theorem snapshots_share_stem :
    lockPath state ≠ lockPath state' ∧
      (atomicJob state).tmp = (atomicJob state').tmp ∧
      ¬ NeverShare (twoProcesses state state') ∧
      ∃ es s, Machine.Run (WriterStep (jobs (twoProcesses state state')) Whole)
        ⟨.empty, fun _ => none⟩ es s ∧
        s.disk.read state = some (content .second) := by
  have htmp : (atomicJob state).tmp = (atomicJob state').tmp := by decide
  refine ⟨by decide, htmp, ?_, ?_⟩
  · intro hshare
    have hne : Writer.first ≠ .second := by decide
    exact hshare.1.tmp_ne_tmp hne List.mem_cons_self List.mem_cons_self htmp
  · rcases second_writes_over_first with
      ⟨s, file, hrun, hfile, hjob, hrest, hsynced, hname, hcontents⟩
    rcases Disk.rename_isSome (q := file.job.target) hname with ⟨d, hd⟩
    rcases Disk.rename_eq_some hd with
      ⟨i, hi, htarget, -, -, hsame, -, -⟩
    rw [hname, Option.some.injEq] at hi
    subst hi
    rw [← hjob] at hd
    refine ⟨_, _, hrun.snoc (.rename hfile hrest hsynced hd), ?_⟩
    rw [hjob] at htarget
    change (d.names (atomicJob state).target).map d.contents = _
    rw [htarget, hsame, Option.map_some, hcontents]

end SharedStem

end UsdtPir
