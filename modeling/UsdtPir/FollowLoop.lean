import UsdtPir.SyncRun

/-!
# The follow loop

One pass checks whether the block last folded in still has the hash it had,
repairs the map if not, syncs up to the tip, and then stores the new hash,
writes the snapshot and hands the changed entries to the PIR thread.  A failed
pass is logged and tried again; the state it left stays.
-/

namespace UsdtPir

open Interaction
open Program

/-! ## The reorg watch -/

/-- Forget the batches no reorg inside the window can reach. -/
def ChainWatch.trim (watch : ChainWatch) (cursor window : ℕ) : ChainWatch :=
  { watch with
    recent := watch.recent.dropWhile fun batch => batch.1 < cursor - window }

/-- The set of remembered addresses. -/
def ChainWatch.addressSet (watch : ChainWatch) : HashSet Address :=
  (watch.recent.flatMap Prod.snd).foldl (fun seen a => seen.insert a ()) ∅

def applyCorrections : List (Address × Reading) → BalanceMap →
    Option BalanceMap
  | [], map => some map
  | (addr, reading) :: rest, map => do
      let (_, map) ← map.apply addr reading default
      applyCorrections rest map

def repairApplication (row : Address × Reading) : Application :=
  ⟨row.1, row.2, default, true⟩

def correctStaleAddresses (stale : List Address) (rewindTo : ℕ) :
    Sync Unit :=
  if stale = [] then
    pure ()
  else do
    let readings ← readBalances stale rewindTo
    let rows ← iterate readings
    let s ← Program.get
    match applyCorrections rows s.map with
    | none => .throw outgrewU32
    | some map => Program.modify fun s => { s with
        map := map
        history := s.history ++ rows.map repairApplication }

def repair (window : ℕ) : Sync Unit := do
  let s ← Program.get
  let rewindTo := s.map.cursor - window
  let stale ← Ask.order s.watch.addressSet.keys
  correctStaleAddresses stale.val rewindTo
  Program.modify fun s => { s with
    map := { s.map with cursor := rewindTo }
    watch := default }

def repairIfReorged (window : ℕ) : Sync Unit := do
  let s ← Program.get
  match s.watch.cursorHash with
  | none => pure ()
  | some known => do
      let hash ← blockHash s.map.cursor
      if hash = some known then
        pure ()
      else
        repair window

def storeCursorHash (cursor : ℕ) : Sync Unit := do
  let hash ← blockHash cursor
  Program.modify fun s => { s with
    watch := { s.watch with cursorHash := hash } }

/-! ## One pass -/

def repairIfNeeded (cfg : FollowConfig) : Sync Unit :=
  if cfg.tip.isReorgable then repairIfReorged cfg.reorgWindow else pure ()

def recordProgress (cursor tip : ℕ) : Sync Unit := do
  let s ← Program.get
  match s.progress with
  | none => pure ()
  | some _ => do
      let now ← Ask.unixNow
      Program.modify fun s => { s with progress := some ⟨cursor, tip, now⟩ }

def updateReorgWatch (cfg : FollowConfig) : Sync Unit :=
  if cfg.tip.isReorgable then do
    let s ← Program.get
    storeCursorHash s.map.cursor
    Program.modify fun s => { s with
      watch := s.watch.trim s.map.cursor cfg.reorgWindow }
  else
    pure ()

/-- Hand the changed entries to the PIR thread, if there is one. -/
def publishChanges (updates : Bool) : Sync Unit := do
  let s ← Program.get
  if updates = false ∨ s.changed.keys = [] then
    pure ()
  else do
    let batch ← iterate s.changed
    let alive ← Ask.send batch
    if alive then
      Program.modify fun s => { s with sent := s.sent ++ [batch] }
    else
      .throw (.err ["PIR thread is gone"])

def finishPass (cfg : FollowConfig) (updates : Bool) : Sync Unit := do
  updateReorgWatch cfg
  saveMapOrFail
  let s ← Program.get
  recordProgress s.map.cursor
    (max s.map.cursor ((s.progress.map Progress.tip).getD 0))
  markSnapshot
  publishChanges updates

def syncTo (cfg : FollowConfig) (target : ℕ) : Sync Unit := do
  let s ← Program.get
  recordProgress s.map.cursor target
  let _ ← sync cfg (s.map.cursor + 1) target

/-- The rest of `pass`, once the tip is resolved.  The target lies past the
cursor when the cursor is incremented, so the increment cannot overflow. -/
def passTo (cfg : FollowConfig) (updates : Bool) (target : ℕ) : Sync Unit := do
  let s ← Program.get
  if target ≤ s.map.cursor then
    pure ()
  else do
    syncTo cfg target
    finishPass cfg updates

def pass (cfg : FollowConfig) (updates : Bool) : Sync Unit := do
  repairIfNeeded cfg
  let target ← cfg.tip.resolve
  passTo cfg updates target

/-! ## The loop around it -/

def onSuccess : Sync Unit :=
  Program.modify fun s => { s with failures := 0 }

def onFailure : Sync Unit := do
  Program.modify fun s => { s with failures := s.failures + 1 }
  let written ← saveMap
  match written with
  | .ok () => markSnapshot
  | .error _ => pure ()

/-- One round of the loop: a pass that returns an error is survived, a panic
or the end of the process is not.  The result says how the pass went. -/
def followRound (cfg : FollowConfig) (updates : Bool) :
    Sync (Except Failure Unit) := do
  let outcome ← attempt (pass cfg updates)
  match outcome with
  | .ok () => do
      onSuccess
      pure outcome
  | .error (.err _) => do
      onFailure
      pure outcome
  | .error failure => .throw failure

/-- The state in which `run` enters its loop. -/
def Process.startFollow (s : Process) (now : ℕ) : Process :=
  { s with
    lastSnapshot := now
    failures := 0
    watch := default
    changed := ∅ }

end UsdtPir
