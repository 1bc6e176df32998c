import UsdtPir.PowerLoss
import UsdtPir.WriterPaths

/-!
# One writer per snapshot

`follow`, `sync` and `serve` take the lock of their snapshot before they load it
and keep it until they end.  So the snapshot on disk is always the last one of a
single chain: no process saves over what it has not seen.  The directory is not
synced, so a power loss may take the last snapshots of the chain back.
-/

namespace UsdtPir

open Machine
open Paths
open Storage

section Lock

variable {state : Path}

end Lock

namespace SecondTurn

open SharedStem (state)

theorem hext : state.name.extension ≠ some TMP.chars := by decide

def content : List UInt8 :=
  (snapshotPieces 1 []).flatten

/-- Whoever finds no snapshot saves an empty map. -/
def Next (version : Option (List UInt8)) (bytes : List UInt8) : Prop :=
  version = none ∧ bytes = content

end SecondTurn

end UsdtPir
