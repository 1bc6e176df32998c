import UsdtPir.AtomicWrite
import UsdtPir.Paths
import UsdtPir.SnapshotFormat

/-!
# Saving a snapshot

`BalanceMap::save` and `BalanceMap::load` on a disk.  A save that is cut off at
any call, and a crash after it, leave the map that was saved before or the new
one, and a save that fails leaves the one that was there.
-/

namespace UsdtPir

open Interaction
open Paths
open Storage

def TMP : Extension :=
  ⟨['t', 'm', 'p'], by decide, by decide, by decide⟩

/-- `parent_to_create`. -/
def parentToCreate (path : Path) : Option (List (List Char)) :=
  if path.parent = [] then none else some path.parent

variable {E : Type}

/-- `write_snapshot_atomically`, the rows in the order in which the map gives
them. -/
def writeSnapshotAtomically (path : Path) (map : BalanceMap)
    (rows : List (Address × Entry)) : Files Path E Unit :=
  writeAtomically path (path.withExtension TMP)
    (snapshotPieces map.cursor rows)

namespace BalanceMap

def save (map : BalanceMap) (rows : List (Address × Entry)) (path : Path) :
    Files Path E Unit := do
  if (parentToCreate path).isSome then
    createDirs path
  writeSnapshotAtomically path map rows

def load (d : Disk Path) (path : Path) : Except LoadError BalanceMap :=
  match d.read path with
  | none => .error .notFound
  | some f => loadBytes f

/-- The path loads this map. -/
def Loads (d : Disk Path) (path : Path) (map : BalanceMap) : Prop :=
  ∃ loaded, load d path = .ok loaded ∧ loaded.Same map

/-- The path loads this map, also after a crash. -/
def Saved (d : Disk Path) (path : Path) (map : BalanceMap) : Prop :=
  d.Durable path ∧ Loads d path map

/-- What becomes of the map that is on disk when another one is saved over
it, wherever the save stops and whatever a crash then loses. -/
structure AllOrNothing (d : Disk Path) (path : Path) (map : BalanceMap)
    (rows : List (Address × Entry)) (buffer : List UInt8) : Prop where
  stopped : ∀ d' d'', (save (E := E) map rows path).Visits diskCalls d buffer d' →
    d'.Crashed d'' → d''.Durable path ∧
      (load d'' path = load d path ∨ Loads d'' path map)
  failed : ∀ d' d'' e buffer',
    (save (E := E) map rows path).Runs diskCalls d buffer d' (.error e) buffer' →
      d'.Crashed d'' → d''.Durable path ∧ load d'' path = load d path
  returned : ∀ d' d'' buffer',
    (save (E := E) map rows path).Runs diskCalls d buffer d' (.ok ()) buffer' →
      d'.Crashed d'' → Saved d'' path map

section Saving

variable {d d' d'' : Disk Path} {path : Path} {map old : BalanceMap}
    {rows : List (Address × Entry)} {buffer : List UInt8}

theorem load_congr (h : d'.read path = d.read path) :
    load d' path = load d path := by
  unfold load
  rw [h]

theorem loads_of_read (hrows : Listing map.inner rows) (hfits : map.Fits)
    (h : d.read path = some (snapshotPieces map.cursor rows).flatten) :
    Loads d path map := by
  unfold Loads load
  rw [h]
  exact loadBytes_same hrows hfits

theorem guards_save (hne : path.withExtension TMP ≠ path)
    (hdurable : d.Durable path) :
    Program.Guards diskCalls
      (OldOrNew d path (snapshotPieces map.cursor rows).flatten)
      (save (E := E) map rows path) d buffer
      (fun d' _ _ => d'.Durable path ∧
        d'.read path = some (snapshotPieces map.cursor rows).flatten)
      (fun d' _ _ => d'.Durable path ∧ d'.read path = d.read path) := by
  have hwrite : ∀ buffer, Program.Guards diskCalls
      (OldOrNew d path (snapshotPieces map.cursor rows).flatten)
      (writeSnapshotAtomically (E := E) path map rows) d buffer
      (fun d' _ _ => d'.Durable path ∧
        d'.read path = some (snapshotPieces map.cursor rows).flatten)
      (fun d' _ _ => d'.Durable path ∧ d'.read path = d.read path) :=
    fun _ => guards_writeAtomically hne hdurable
  unfold save
  split
  · have hhere : OldOrNew d path (snapshotPieces map.cursor rows).flatten d :=
      ⟨hdurable, .inl rfl⟩
    apply Program.Guards.bind
    apply Program.guards_query_bind hhere
    intro answer after hanswer
    have hafter : after = d := hanswer
    subst hafter
    cases answer with
    | ok done => exact Program.guards_of_ok rfl hhere (hwrite buffer)
    | error e =>
        exact Program.guards_of_error rfl hhere ⟨hhere, hdurable, rfl⟩
  · exact hwrite buffer

/-- Saving is all or nothing, for every map that was saved before. -/
theorem save_all_or_nothing (hne : path.withExtension TMP ≠ path)
    (hold : Saved d path old) (hrows : Listing map.inner rows)
    (hfits : map.Fits) :
    AllOrNothing (E := E) d path map rows buffer := by
  have hguards : Program.Guards diskCalls
      (OldOrNew d path (snapshotPieces map.cursor rows).flatten)
      (save (E := E) map rows path) d buffer
      (fun d' _ _ => d'.Durable path ∧
        d'.read path = some (snapshotPieces map.cursor rows).flatten)
      (fun d' _ _ => d'.Durable path ∧ d'.read path = d.read path) :=
    guards_save hne hold.1
  constructor
  · intro d' d'' hvisits hcrash
    rcases hguards.visits hvisits with ⟨hdurable, hsame | hnew⟩
    · constructor
      · exact hcrash.durable_path hdurable
      · left
        exact load_congr ((hcrash.read hdurable).trans hsame)
    · constructor
      · exact hcrash.durable_path hdurable
      · right
        rw [← hcrash.read hdurable] at hnew
        exact loads_of_read hrows hfits hnew
  · intro d' d'' e buffer' hrun hcrash
    rcases hguards.meets.of_error hrun with ⟨hdurable, hsame⟩
    constructor
    · exact hcrash.durable_path hdurable
    · exact load_congr ((hcrash.read hdurable).trans hsame)
  · intro d' d'' buffer' hrun hcrash
    rcases hguards.meets.of_ok hrun with ⟨hdurable, hnew⟩
    rw [← hcrash.read hdurable] at hnew
    exact ⟨hcrash.durable_path hdurable, loads_of_read hrows hfits hnew⟩

end Saving

namespace Replaced

def path : Path :=
  ⟨[], ⟨['m', '.', 'b', 'i', 'n'], by decide, by decide, by decide,
    by decide⟩⟩

def rows : List (Address × Entry) :=
  [(.zero, ⟨7, 9, 0, 0⟩)]

def map : BalanceMap :=
  ⟨(∅ : HashMap Address Entry).insert .zero ⟨7, 9, 0, 0⟩, 9⟩

/-- An empty map at block 5 is on disk. -/
def disk : Disk Path :=
  (((Disk.empty.create path).1.append 0 (snapshotPieces 5 []).flatten).sync 0)

theorem saved_disk : Saved disk path (.new 5) := by
  constructor
  · intro i hi
    cases hi
    rfl
  · have hrows : Listing (BalanceMap.new 5).inner [] := by
      constructor
      · intro a v
        constructor
        · intro hmem
          cases hmem
        · intro hlookup
          cases hlookup
      · exact List.nodup_nil
    exact loads_of_read hrows ⟨by decide, by decide⟩ rfl

theorem listing_rows : Listing map.inner rows := by
  constructor
  · intro a v
    by_cases ha : a = .zero
    · subst ha
      have hlookup : map.inner.lookup Address.zero = some ⟨7, 9, 0, 0⟩ :=
        AList.lookup_insert ∅
      rw [hlookup]
      simp [rows, eq_comm]
    · have hlookup : map.inner.lookup a = none :=
        (AList.lookup_insert_ne ha).trans (AList.lookup_empty a)
      rw [hlookup]
      simp [rows, ha]
  · exact List.nodup_singleton Address.zero

theorem save_all_or_nothing_replaced :
    AllOrNothing (E := Unit) disk path map rows [] :=
  save_all_or_nothing (by decide) saved_disk listing_rows
    ⟨by decide, by decide⟩

end Replaced

end BalanceMap

end UsdtPir
