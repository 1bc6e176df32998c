import UsdtPir.DurableSync
import UsdtPir.PassOutcomes

/-!
# Failed calls and whole chunks

The loop resumes at the block after the cursor, so the cursor has to be the
last block of a chunk that is in the map as a whole.  A call that fails inside
a chunk leaves nothing of it; only a snapshot that cannot be written is
reported after the chunk is in.
-/

namespace UsdtPir

open Interaction
open Program

/-- The chunk `lo..=hi` is in the map, the watch and the totals and the cursor
is its end; then the snapshot of that map could not be written. -/
structure AppliedUnsaved {ω : Type} (env : Environment Request Answer ω)
    (lo hi : ℕ) (s : Process) (contexts : List String) (final : ω)
    (s' : Process) : Prop where
  applied : ∃ logs stats addrs touched rows s₁,
    env.Gives (.getLogs (filter lo hi))
        (Except.ok logs : Except RpcError (List Log)) ∧
      RangeApplied env.Gives logs hi s s₁ stats addrs touched rows ∧
      s' = { s₁ with
        map := { s₁.map with cursor := hi }
        watch := s.watch.record hi addrs
        totals := s.totals.fold stats }
  refused : ∃ before e, env before (.save s'.map)
      (Except.error e : Except IoError Unit) final ∧ contexts = [e.message]

section Rules

variable {ω : Type} {env : Environment Request Answer ω} {world : ω}
    {s : Process}

/-- The only call that fails in `maybe_snapshot` is the write. -/
theorem meets_maybeSnapshot_refused {cfg : FollowConfig} :
    Meets env (maybeSnapshot cfg) world s (fun _ _ _ => True)
      (fun final failure s' => s' = s ∧ ∃ before e,
        env before (.save s.map) (Except.error e : Except IoError Unit) final ∧
          failure = .err [e.message]) := by
  simp only [maybeSnapshot, meets_bind, meets_get, meets_instantNow]
  intro now after _
  split
  · trivial
  · simp only [meets_bind, meets_saveMapOrFail]
    intro answer after' hanswer
    cases answer with
    | ok written => simp [markSnapshot]
    | error e => exact ⟨trivial, after, e, hanswer, rfl⟩

theorem meets_syncOneChunk_whole {cfg : FollowConfig} {lo toBlock chunk : ℕ} :
    Meets env (syncOneChunk cfg lo toBlock chunk) world s (fun _ _ _ => True)
      (fun final failure s' => s' = s ∨ ∃ hi ≤ toBlock, ∃ contexts,
        failure = .err contexts ∧
          AppliedUnsaved env lo hi s contexts final s') := by
  simp only [syncOneChunk, meets_bind]
  apply meets_mono (meets_fetchLogs env.keeps_gives)
  · intro middle result s₁ hfetched
    rcases hfetched with ⟨hs₁, hlogs, hle⟩
    rw [hs₁]
    have hto : result.2.1 ≤ toBlock := hle.trans (min_le_right _ _)
    simp only [applyChunk, meets_bind]
    apply meets_mono (meets_applyRange env.keeps_gives)
    · intro middle' stats s₂ happlied
      rcases happlied with ⟨touched, rows, hrange⟩
      have hoff : s₂.watch = s.watch ∧ s₂.totals = s.totals := by
        rcases hrange.applied with ⟨out, -, -, hs₂⟩
        rw [hs₂]
        exact ⟨rfl, rfl⟩
      simp only [meets_modify, meets_pure]
      apply meets_mono meets_maybeSnapshot_refused
      · intro _ _ _ _
        trivial
      · intro final failure s' hfailed
        rcases hfailed with ⟨hs', before, e, hrefused, hfailure⟩
        right
        refine ⟨result.2.1, hto, [e.message], hfailure, ?_, before, e, ?_, rfl⟩
        · refine ⟨result.1, stats.1, stats.2, touched, rows, s₂, hlogs, hrange, ?_⟩
          rw [hs', hoff.1, hoff.2]
        · rw [hs']
          exact hrefused
    · intro final failure s' hfailed
      exact .inl hfailed.1
  · intro final failure s' hfailed
    exact .inl hfailed.1

theorem meets_repairIfReorged_untouched {window : ℕ} :
    Meets env (repairIfReorged window) world s (fun _ _ _ => True)
      (fun _ _ s' => s' = s) := by
  simp only [repairIfReorged, meets_bind, meets_get]
  split
  · trivial
  · simp only [meets_bind]
    apply meets_mono (meets_blockHash env.keeps_gives)
    · intro middle hash s₁ hasked
      rw [hasked.1]
      split
      · trivial
      · apply meets_mono (meets_repair env.keeps_gives)
        · intro _ _ _ _
          trivial
        · intro _ _ _ hs'
          exact hs'
    · intro _ _ _ hfailed
      exact hfailed.1

end Rules

/-- However a call fails, no chunk is left half applied. -/
theorem failed_call_leaves_whole_chunks {ω : Type}
    {env : Environment Request Answer ω} {world final : ω} {s s' : Process}
    {contexts : List String} :
    (∀ logs at_, (applyRange logs at_).Runs env world s final
        (.error (.err contexts)) s' → s' = s) ∧
    (∀ cfg lo toBlock chunk, (syncOneChunk cfg lo toBlock chunk).Runs env world
        s final (.error (.err contexts)) s' →
      s' = s ∨ ∃ hi ≤ toBlock, AppliedUnsaved env lo hi s contexts final s') ∧
    (∀ window, (repairIfReorged window).Runs env world s final
        (.error (.err contexts)) s' → s' = s) := by
  refine ⟨?_, ?_, ?_⟩
  · intro logs at_ hrun
    exact ((meets_applyRange env.keeps_gives).of_error hrun).1
  · intro cfg lo toBlock chunk hrun
    rcases meets_syncOneChunk_whole.of_error hrun with hs' | hunsaved
    · exact .inl hs'
    · rcases hunsaved with ⟨hi, hle, contexts', heq, happlied⟩
      cases heq
      exact .inr ⟨hi, hle, happlied⟩
  · intro window hrun
    exact meets_repairIfReorged_untouched.of_error hrun

/-! ### A full disk and a provider that stops answering -/

namespace DiskFull

/-- The disk is full, or it is fine and no multicall is answered. -/
def failing (full : Bool) (clock : ℕ) (q : Request) : Answer q × ℕ :=
  match q with
  | .aggregate3 contract calls block =>
      (if full then (chain.respond 1 3 () (.aggregate3 contract calls block)).1
        else Except.error ⟨"timeout"⟩, clock)
  | q => respond full clock q

def failed {ρ : Type} (p : Sync ρ) (full : Bool) (s : Process) :
    (Except Failure ρ × Process) × ℕ :=
  p.exec (failing full) 1 s

theorem runs_failed {ρ : Type} (p : Sync ρ) (full : Bool) (s : Process)
    (failure : Failure) (houtcome : (failed p full s).1.1 = .error failure) :
    p.Runs (.answering (failing full)) 1 s (failed p full s).2
      (.error failure) (failed p full s).1.2 :=
  runs_answering (failing full) p 1 s houtcome

/-- A cursor whose hash the provider no longer knows, with one address to
correct. -/
def reorged : Process :=
  { start with watch := ⟨some (word 7), [(0, [holder])]⟩ }

/-- The reads fail and nothing moves; the disk fails and the chunk stays in. -/
theorem failed_call_leaves_whole_chunks_full :
    (failed (applyRange (chain.logs 1) 1) false start).1.2 = start ∧
    (∃ hi ≤ 1, AppliedUnsaved (.answering (failing true)) 1 hi start
      ["No space left on device"]
      (failed (syncOneChunk config 1 1 50) true start).2
      (failed (syncOneChunk config 1 1 50) true start).1.2) ∧
    (failed (repairIfReorged 64) false reorged).1.2 = reorged := by
  refine ⟨?_, ?_, ?_⟩
  · exact failed_call_leaves_whole_chunks.1 (chain.logs 1) 1
      (runs_failed _ false start
        (.err ["aggregate3 of 2 calls at block 1", "timeout"])
        (by decide +kernel))
  · have hcursor :
        (failed (syncOneChunk config 1 1 50) true start).1.2.map.cursor = 1 := by
      decide +kernel
    rcases failed_call_leaves_whole_chunks.2.1 config 1 1 50
        (runs_failed _ true start (.err ["No space left on device"])
          (by decide +kernel)) with hs' | happlied
    · rw [hs'] at hcursor
      cases hcursor
    · exact happlied
  · exact failed_call_leaves_whole_chunks.2.2 64
      (runs_failed _ false reorged
        (.err ["aggregate3 of 2 calls at block 0", "timeout"])
        (by decide +kernel))

end DiskFull

end UsdtPir
