import UsdtPir.Agreement
import UsdtPir.RangeCuts
import UsdtPir.SyncCommand

/-!
# Block arithmetic with overflow checks

A debug build checks every `+` and `-` on block numbers and panics where a
release build wraps around.  The operations are written out in the order in
which they are evaluated, the ones whose result is not used included.  Until it
panics, a debug build does what a release build does.
-/

namespace UsdtPir

open Interaction
open Program

def addOverflow : Failure :=
  .panic "attempt to add with overflow"

def subOverflow : Failure :=
  .panic "attempt to subtract with overflow"

def Failure.IsOverflow (failure : Failure) : Prop :=
  failure = addOverflow ∨ failure = subOverflow

namespace Checked

def add (a b : ℕ) : Sync ℕ :=
  if a + b < 2 ^ 64 then pure (a + b) else .throw addOverflow

def sub (a b : ℕ) : Sync ℕ :=
  if b ≤ a then pure (a - b) else .throw subOverflow

/-- The argument of `map_or` is evaluated whether it is used or not. -/
def startTotals (lo toBlock : ℕ) : Sync SyncStats := do
  let width ← sub toBlock lo
  let blocks ← add width 1
  pure { (default : SyncStats) with
    blocks := if toBlock ≤ lo then 0 else blocks }

def narrowRange (lo hi chunk : ℕ) : Sync (ℕ × ℕ) := do
  let width ← sub hi lo
  let hi ← add lo (width / 2)
  pure (hi, max (chunk / 2) 1)

def fetchLogs (lo : ℕ) : ℕ → ℕ → ℕ → Sync (List Log × ℕ × ℕ)
  | 0, hi, chunk => do
      let answer ← Ask.getLogs (filter lo hi)
      let logs ← liftRpc [] answer
      pure (logs, hi, chunk)
  | fuel + 1, hi, chunk =>
      fetchBody lo hi chunk do
        let (hi, chunk) ← narrowRange lo hi chunk
        fetchLogs lo fuel hi chunk

def syncOneChunk (cfg : FollowConfig) (lo toBlock chunk : ℕ) : Sync (ℕ × ℕ) := do
  let past ← add lo chunk
  let last ← sub past 1
  let want := min last toBlock
  let (logs, hi, chunk) ← fetchLogs lo (want - lo) want chunk
  let stats ← applyChunk logs hi
  Program.modify fun s => { s with
    map := { s.map with cursor := hi }
    totals := s.totals.fold stats }
  maybeSnapshot cfg
  let next ← add hi 1
  pure (next, chunk)

def syncChunks (cfg : FollowConfig) (toBlock : ℕ) : ℕ → ℕ → ℕ → Sync Unit
  | 0, lo, _ => if lo ≤ toBlock then .throw .killed else pure ()
  | fuel + 1, lo, chunk =>
      if lo ≤ toBlock then do
        let (lo, chunk) ← syncOneChunk cfg lo toBlock chunk
        syncChunks cfg toBlock fuel lo chunk
      else
        pure ()

def syncInto (cfg : FollowConfig) (lo toBlock : ℕ) : Sync Unit := do
  Program.modify fun s => { s with changed := ∅ }
  if toBlock < lo then
    pure ()
  else do
    Program.modify fun s => { s with inserted := ∅ }
    let lifetime ← Ask.lifetime
    syncChunks cfg toBlock lifetime lo cfg.chunk
    pruneTransient cfg

def sync (cfg : FollowConfig) (lo toBlock : ℕ) : Sync SyncStats := do
  let totals ← startTotals lo toBlock
  Program.modify fun s => { s with totals := totals }
  syncInto cfg lo toBlock
  let s ← Program.get
  pure s.totals

/-- The argument of `unwrap_or` is evaluated whether it is used or not. -/
def prepareReplay (balances : BalanceMap) (lo : Option ℕ) :
    Sync (ℕ × BalanceMap) := do
  let next ← add balances.cursor 1
  let first := lo.getD next
  if first ≤ balances.cursor then
    pure (first, { balances with cursor := first - 1 })
  else
    pure (first, balances)

def syncOnce (cfg : FollowConfig) (lo toBlock : ℕ) : Sync Unit := do
  markSnapshot
  Program.modify fun s => { s with watch := default, changed := ∅ }
  syncInto cfg lo toBlock

def syncAttempts (cfg : FollowConfig) (toBlock retries origin : ℕ) :
    ℕ → ℕ → ℕ → Sync SyncStats
  | 0, _, _ => .throw .killed
  | fuel + 1, start, stalled => do
      let s ← Program.get
      let outcome ← attempt (syncOnce cfg start toBlock)
      match outcome with
      | .ok () => do
          let totals ← setBlocks origin
          saveMapOrFail
          pure totals
      | .error (.err chain) => do
          let stalled ← waitToRetry cfg.word s.map.cursor retries chain stalled
          let s ← Program.get
          let start ← add s.map.cursor 1
          if toBlock < start then
            setBlocks origin
          else
            syncAttempts cfg toBlock retries origin fuel start stalled
      | .error failure => .throw failure

def runSync (cfg : FollowConfig) (lo toBlock retries : ℕ) :
    Sync SyncStats := do
  Program.modify fun s => { s with totals := default }
  let s ← Program.get
  let lifetime ← Ask.lifetime
  syncAttempts cfg toBlock retries s.map.cursor lifetime lo 0

def syncRange (cfg : FollowConfig) (lo : Option ℕ) (toBlock retries : ℕ) :
    Sync SyncStats := do
  loadOrCreateMap lo
  let s ← Program.get
  let prepared ← prepareReplay s.map lo
  Program.modify fun s => { s with map := prepared.2 }
  if prepared.1 ≤ toBlock then do
    preflight prepared.1
    runSync cfg prepared.1 toBlock retries
  else
    .throw (.err
      [s!"nothing to do: --from {prepared.1} is past --to {toBlock}"])

end Checked

/-! ## Until it panics -/

section Agreement

variable {cfg : FollowConfig} {lo hi toBlock chunk fuel retries origin start
    stalled : ℕ} {α : Type}

theorem agrees_add {a b : ℕ} {f : ℕ → Sync α} {p : Sync α}
    (hnext : a + b < 2 ^ 64 → Agrees Failure.IsOverflow (f (a + b)) p) :
    Agrees Failure.IsOverflow (Checked.add a b >>= f) p := by
  unfold Checked.add
  split
  · rename_i hlt
    exact hnext hlt
  · exact agrees_throw (.inl rfl)

theorem agrees_sub {a b : ℕ} {f : ℕ → Sync α} {p : Sync α}
    (hnext : b ≤ a → Agrees Failure.IsOverflow (f (a - b)) p) :
    Agrees Failure.IsOverflow (Checked.sub a b >>= f) p := by
  unfold Checked.sub
  split
  · rename_i hle
    exact hnext hle
  · exact agrees_throw (.inr rfl)

theorem agrees_fetchLogs :
    Agrees Failure.IsOverflow (Checked.fetchLogs lo fuel hi chunk)
      (fetchLogs lo fuel hi chunk) := by
  induction fuel generalizing hi chunk with
  | zero => exact agrees_refl _
  | succ fuel ih =>
      unfold Checked.fetchLogs fetchBody fetchLogs
      apply agrees_after
      intro answer
      cases answer with
      | ok logs => exact agrees_refl _
      | error e =>
          by_cases hcap : isResultCap e = true ∧ lo < hi
          · simp only [if_pos hcap, Checked.narrowRange, program_bind_assoc]
            apply agrees_sub
            intro _
            apply agrees_add
            intro _
            exact ih
          · simp only [if_neg hcap]
            exact agrees_refl _

theorem agrees_syncOneChunk :
    Agrees Failure.IsOverflow (Checked.syncOneChunk cfg lo toBlock chunk)
      (syncOneChunk cfg lo toBlock chunk) := by
  unfold Checked.syncOneChunk syncOneChunk
  apply agrees_add
  intro hpast
  apply agrees_sub
  intro hlast
  rw [cfg.word.add_of_lt _ _ hpast, cfg.word.sub_of_le _ _ hlast]
  apply agrees_bind agrees_fetchLogs
  intro fetched
  apply agrees_after
  intro stats
  apply agrees_after
  intro _
  apply agrees_after
  intro _
  apply agrees_add
  intro hnext
  rw [cfg.word.add_of_lt _ _ hnext]
  exact agrees_refl _

theorem agrees_syncChunks :
    Agrees Failure.IsOverflow (Checked.syncChunks cfg toBlock fuel lo chunk)
      (syncChunks cfg toBlock fuel lo chunk) := by
  induction fuel generalizing lo chunk with
  | zero => exact agrees_refl _
  | succ fuel ih =>
      unfold Checked.syncChunks syncChunks
      split
      · apply agrees_bind agrees_syncOneChunk
        intro next
        exact ih
      · exact agrees_refl _

theorem agrees_syncInto :
    Agrees Failure.IsOverflow (Checked.syncInto cfg lo toBlock)
      (syncInto cfg lo toBlock) := by
  unfold Checked.syncInto syncInto
  apply agrees_after
  intro _
  split
  · exact agrees_refl _
  · apply agrees_after
    intro _
    apply agrees_after
    intro lifetime
    apply agrees_bind agrees_syncChunks
    intro _
    exact agrees_refl _

theorem agrees_sync :
    Agrees Failure.IsOverflow (Checked.sync cfg lo toBlock)
      (sync cfg lo toBlock) := by
  unfold Checked.sync sync Checked.startTotals startTotals
  simp only [program_bind_assoc]
  apply agrees_sub
  intro hwidth
  apply agrees_add
  intro hblocks
  rw [cfg.word.sub_of_le _ _ hwidth, cfg.word.add_of_lt _ _ hblocks,
    program_pure_bind]
  apply agrees_after
  intro _
  apply agrees_bind agrees_syncInto
  intro _
  exact agrees_refl _

theorem agrees_syncOnce :
    Agrees Failure.IsOverflow (Checked.syncOnce cfg lo toBlock)
      (syncOnce cfg lo toBlock) := by
  unfold Checked.syncOnce syncOnce
  apply agrees_after
  intro _
  apply agrees_after
  intro _
  exact agrees_syncInto

theorem agrees_syncAttempts :
    Agrees Failure.IsOverflow
      (Checked.syncAttempts cfg toBlock retries origin fuel start stalled)
      (syncAttempts cfg toBlock retries origin fuel start stalled) := by
  induction fuel generalizing start stalled with
  | zero => exact agrees_refl _
  | succ fuel ih =>
      unfold Checked.syncAttempts syncAttempts
      apply agrees_after
      intro s
      apply agrees_attempt agrees_syncOnce
      · intro outcome
        cases outcome with
        | ok done => exact agrees_refl _
        | error failure =>
            cases failure with
            | err chain =>
                apply agrees_after
                intro stalled
                apply agrees_after
                intro s
                apply agrees_add
                intro hstart
                rw [cfg.word.add_of_lt _ _ hstart]
                dsimp only
                split
                · exact agrees_refl _
                · exact ih
            | panic message => exact agrees_refl _
            | killed => exact agrees_refl _
      · intro failure hfailure
        cases hfailure with
        | inl hadd =>
            subst hadd
            rfl
        | inr hsub =>
            subst hsub
            rfl

theorem agrees_runSync {lo : ℕ} :
    Agrees Failure.IsOverflow (Checked.runSync cfg lo toBlock retries)
      (runSync cfg lo toBlock retries) := by
  unfold Checked.runSync runSync
  apply agrees_after
  intro _
  apply agrees_after
  intro s
  apply agrees_after
  intro lifetime
  exact agrees_syncAttempts

/-- Until it panics, a debug build does what a release build does. -/
theorem agrees_syncRange {first : Option ℕ} :
    Agrees Failure.IsOverflow (Checked.syncRange cfg first toBlock retries)
      (syncRange cfg first toBlock retries) := by
  unfold Checked.syncRange syncRange Checked.prepareReplay prepareReplay
  apply agrees_after
  intro _
  apply agrees_after
  intro s
  simp only [program_bind_assoc]
  apply agrees_add
  intro hnext
  rw [cfg.word.add_of_lt _ _ hnext]
  have hrest : ∀ prepared : ℕ × BalanceMap,
      Agrees Failure.IsOverflow
        (do
          Program.modify fun s => { s with map := prepared.2 }
          if prepared.1 ≤ toBlock then do
            preflight prepared.1
            Checked.runSync cfg prepared.1 toBlock retries
          else
            .throw (.err
              [s!"nothing to do: --from {prepared.1} is past --to {toBlock}"]))
        (do
          Program.modify fun s => { s with map := prepared.2 }
          if prepared.1 ≤ toBlock then do
            preflight prepared.1
            runSync cfg prepared.1 toBlock retries
          else
            .throw (.err
              [s!"nothing to do: --from {prepared.1} is past --to {toBlock}"])) := by
    intro prepared
    apply agrees_after
    intro _
    split
    · apply agrees_after
      intro _
      exact agrees_runSync
    · exact agrees_refl _
  by_cases hback : first.getD (s.map.cursor + 1) ≤ s.map.cursor
  · simp only [if_pos hback, program_pure_bind]
    exact hrest (first.getD (s.map.cursor + 1),
      { s.map with cursor := first.getD (s.map.cursor + 1) - 1 })
  · simp only [if_neg hback, program_pure_bind]
    exact hrest (first.getD (s.map.cursor + 1), s.map)

end Agreement

end UsdtPir
