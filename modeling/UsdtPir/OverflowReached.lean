import UsdtPir.BlockArithmetic

/-!
# Answers that reach an overflow

A provider that narrows a chunk and then refuses the next one makes a sync
start again at any block of its range with a whole chunk, so a range that ends
within a chunk of the largest block number can always be made to overflow.
-/

namespace UsdtPir

open Interaction
open Program

section Forced

variable {s : Process} {cfg : FollowConfig} {lo hi toBlock chunk fuel : ℕ}

/-- The provider caps the result of a range that can be narrowed. -/
theorem capped_of_anything {ok : Unit → List Log × ℕ × ℕ → Process → Prop}
    {err : Unit → Failure → Process → Prop}
    (h : Meets anything (Checked.fetchLogs lo fuel hi chunk) () s ok err)
    (hlo : lo < hi) (hhi : hi < 2 ^ 64) (hfuel : 1 ≤ fuel) :
    ok () ([], lo + (hi - lo) / 2, max (chunk / 2) 1) s := by
  cases fuel with
  | zero => omega
  | succ fuel =>
      simp only [Checked.fetchLogs, fetchBody, meets_bind, meets_getLogs] at h
      have hcapped := h (.error ⟨"exceeds"⟩) () trivial
      have hcap : isResultCap ⟨"exceeds"⟩ = true ∧ lo < hi :=
        ⟨by decide, hlo⟩
      simp only [if_pos hcap, Checked.narrowRange, meets_bind, meets_sub,
        meets_add, meets_pure] at hcapped
      have hagain := (hcapped.1 hlo.le).1 (by omega)
      cases fuel with
      | zero =>
          simp only [Checked.fetchLogs, meets_bind, meets_getLogs,
            meets_liftRpc, meets_pure] at hagain
          exact (hagain (.ok []) () trivial).1 [] rfl
      | succ fuel =>
          simp only [Checked.fetchLogs, fetchBody, meets_bind, meets_getLogs]
            at hagain
          exact hagain (.ok []) () trivial

theorem served_of_anything {ok : Unit → List Log × ℕ × ℕ → Process → Prop}
    {err : Unit → Failure → Process → Prop}
    (h : Meets anything (Checked.fetchLogs lo fuel hi chunk) () s ok err) :
    ok () ([], hi, chunk) s := by
  cases fuel with
  | zero =>
      simp only [Checked.fetchLogs, meets_bind, meets_getLogs, meets_liftRpc,
        meets_pure] at h
      exact (h (.ok []) () trivial).1 [] rfl
  | succ fuel =>
      simp only [Checked.fetchLogs, fetchBody, meets_bind, meets_getLogs] at h
      exact h (.ok []) () trivial

theorem refused_of_anything {ok : Unit → List Log × ℕ × ℕ → Process → Prop}
    {err : Unit → Failure → Process → Prop}
    (h : Meets anything (Checked.fetchLogs lo fuel hi chunk) () s ok err) :
    err () (.err ["refused"]) s := by
  cases fuel with
  | zero =>
      simp only [Checked.fetchLogs, meets_bind, meets_getLogs, meets_liftRpc,
        meets_pure] at h
      exact (h (.error ⟨"refused"⟩) () trivial).2 ⟨"refused"⟩ rfl
  | succ fuel =>
      simp only [Checked.fetchLogs, fetchBody, meets_bind, meets_getLogs] at h
      have hrefused := h (.error ⟨"refused"⟩) () trivial
      have hcap : ¬ (isResultCap ⟨"refused"⟩ = true ∧ lo < hi) := by
        intro hcap
        exact absurd hcap.1 (by decide)
      simp only [if_neg hcap, meets_liftRpc] at hrefused
      exact hrefused.2 ⟨"refused"⟩ rfl

theorem applied_of_anything {ok : Unit → BatchStats → Process → Prop}
    {err : Unit → Failure → Process → Prop}
    (h : Meets anything (applyChunk [] hi) () s ok err) :
    ∃ stats s', ok () stats s' := by
  simp [applyChunk, applyRange, collectAddresses, collectTouched] at h
  exact ⟨_, _, h⟩

/-- The snapshot is written, or it is not yet due. -/
theorem snapshot_of_anything {ok : Unit → Unit → Process → Prop}
    {err : Unit → Failure → Process → Prop}
    (h : Meets anything (maybeSnapshot cfg) () s ok err) :
    ∃ s', s'.map = s.map ∧ ok () () s' := by
  simp only [maybeSnapshot, meets_bind, meets_get, meets_instantNow] at h
  have hnow := h (0 : ℕ) () trivial
  by_cases hdue : (0 : ℕ) - s.lastSnapshot < cfg.snapshotEvery
  · rw [if_pos hdue, meets_pure] at hnow
    exact ⟨s, rfl, hnow⟩
  · rw [if_neg hdue] at hnow
    simp only [meets_bind, meets_saveMapOrFail] at hnow
    have hsaved := hnow (.ok ()) () trivial
    simp only [markSnapshot, meets_bind, meets_instantNow, meets_modify]
      at hsaved
    have hmarked := hsaved (0 : ℕ) () trivial
    refine ⟨_, ?_, hmarked⟩
    rfl

/-- Some chunk that ends before the last block of the range. -/
theorem chunk_of_anything {ok : Unit → ℕ × ℕ → Process → Prop}
    {err : Unit → Failure → Process → Prop}
    (h : Meets anything (Checked.syncOneChunk cfg lo toBlock chunk) () s ok err)
    (hlo : lo < toBlock) (hchunk : 1 ≤ chunk) (hsum : lo + chunk < 2 ^ 64) :
    ∃ hi left s', lo ≤ hi ∧ hi < toBlock ∧ s'.map.cursor = hi ∧
      ok () (hi + 1, left) s' := by
  simp only [Checked.syncOneChunk, meets_bind, meets_add, meets_sub] at h
  have hfetch := (h.1 hsum).1 (by omega)
  have hdone : ∀ hi left, hi + 1 < 2 ^ 64 →
      Meets anything (applyChunk [] hi) () s
        (fun middle stats s' => Meets anything
          (do
            Program.modify fun s => { s with
              map := { s.map with cursor := hi }
              totals := s.totals.fold stats }
            maybeSnapshot cfg
            let next ← Checked.add hi 1
            pure (next, left)) middle s' ok err) err →
      ∃ s', s'.map.cursor = hi ∧ ok () (hi + 1, left) s' := by
    intro hi left hfits happly
    rcases applied_of_anything happly with ⟨stats, s₁, happlied⟩
    simp only [meets_bind, meets_modify] at happlied
    rcases snapshot_of_anything happlied with ⟨s', hmap, hadd⟩
    simp only [meets_add, meets_pure] at hadd
    exact ⟨s', by rw [hmap], hadd.1 hfits⟩
  by_cases hinside : lo + chunk - 1 < toBlock
  · have hwant : min (lo + chunk - 1) toBlock = lo + chunk - 1 :=
      min_eq_left hinside.le
    rw [hwant] at hfetch
    have hserved := served_of_anything hfetch
    dsimp only at hserved
    rcases hdone (lo + chunk - 1) chunk (by omega) (by simpa using hserved) with
      ⟨s', hcursor, hok⟩
    exact ⟨lo + chunk - 1, chunk, s', by omega, hinside, hcursor, hok⟩
  · have hwant : min (lo + chunk - 1) toBlock = toBlock :=
      min_eq_right (Nat.le_of_not_lt hinside)
    rw [hwant] at hfetch
    have hcapped := capped_of_anything hfetch hlo (by omega) (by omega)
    dsimp only at hcapped
    rcases hdone (lo + (toBlock - lo) / 2) (max (chunk / 2) 1) (by omega)
      (by simpa using hcapped) with ⟨s', hcursor, hok⟩
    exact ⟨lo + (toBlock - lo) / 2, max (chunk / 2) 1, s', by omega, by omega,
      hcursor, hok⟩

/-- An attempt that moves the cursor, but not to the end, and is then refused,
or that overflows. -/
theorem attempt_of_anything {ok : Unit → Unit → Process → Prop}
    {err : Unit → Failure → Process → Prop}
    (h : Meets anything (Checked.syncOnce cfg lo toBlock) () s ok err)
    (hlo : lo ≤ toBlock) (hto : toBlock < 2 ^ 64) (hchunk : 1 ≤ cfg.chunk)
    (hlarge : 2 ^ 64 ≤ toBlock + cfg.chunk) :
    (∃ s', err () addOverflow s') ∨
      ∃ s', lo ≤ s'.map.cursor ∧ s'.map.cursor < toBlock ∧
        err () (.err ["refused"]) s' := by
  simp only [Checked.syncOnce, markSnapshot, meets_bind, meets_instantNow,
    meets_modify] at h
  have hmarked := h (0 : ℕ) () trivial
  simp only [Checked.syncInto, meets_bind, meets_modify,
    if_neg (Nat.not_lt_of_le hlo), meets_lifetime] at hmarked
  have hchunks := hmarked (2 : ℕ) () trivial
  simp only [Checked.syncChunks, if_pos hlo, meets_bind] at hchunks
  by_cases hsum : lo + cfg.chunk < 2 ^ 64
  · have hless : lo < toBlock := by omega
    rcases chunk_of_anything hchunks hless hchunk hsum with
      ⟨hi, left, s₁, hrange, hhi, hcursor, hnext⟩
    have hle : hi + 1 ≤ toBlock := hhi
    dsimp only at hnext
    rw [if_pos hle] at hnext
    simp only [Checked.syncOneChunk, meets_bind, meets_add, meets_sub] at hnext
    by_cases hsum' : hi + 1 + left < 2 ^ 64
    · right
      have hrefused := refused_of_anything ((hnext.1 hsum').1 (by omega))
      rw [← hcursor] at hrange hhi
      exact ⟨s₁, hrange, hhi, hrefused⟩
    · left
      exact ⟨s₁, hnext.2 (Nat.le_of_not_lt hsum')⟩
  · left
    simp only [Checked.syncOneChunk, meets_bind, meets_add] at hchunks
    exact ⟨_, hchunks.2 (Nat.le_of_not_lt hsum)⟩

/-- The attempts start again ever further on until one overflows. -/
theorem attempts_overflow {retries origin start stalled : ℕ}
    (hto : toBlock < 2 ^ 64) (hchunk : 1 ≤ cfg.chunk)
    (hlarge : 2 ^ 64 ≤ toBlock + cfg.chunk) (hstart : start ≤ toBlock)
    (hcursor : s.map.cursor < start) (hfuel : toBlock - start < fuel) :
    ¬ Meets anything
      (Checked.syncAttempts cfg toBlock retries origin fuel start stalled) () s
      (fun _ _ _ => True) (fun _ failure _ => ¬ failure.IsOverflow) := by
  induction fuel generalizing start stalled s with
  | zero => omega
  | succ fuel ih =>
      intro h
      unfold Checked.syncAttempts at h
      simp only [meets_bind, meets_get, meets_attempt] at h
      rcases attempt_of_anything h hstart hto hchunk hlarge with
        hoverflow | hrefused
      · rcases hoverflow with ⟨s', hoverflow⟩
        exact hoverflow isOverflow_add
      · rcases hrefused with ⟨s', hmoved, hleft, hrefused⟩
        simp only [waitToRetry, meets_bind, meets_saveMap] at hrefused
        have hsaved := hrefused (.ok ()) () trivial
        have hgain : 0 < s'.map.cursor - s.map.cursor := by omega
        simp only [meets_get, recordRetryProgress, if_pos hgain, Nat.not_lt_zero,
          if_false, meets_pure, meets_add] at hsaved
        have hagain := hsaved.1 (by omega)
        have hrest : ¬ toBlock < s'.map.cursor + 1 := by omega
        rw [if_neg hrest] at hagain
        refine ih ?_ ?_ ?_ hagain
        · omega
        · exact Nat.lt_succ_self s'.map.cursor
        · omega

theorem preflight_of_anything {ok : Unit → Unit → Process → Prop}
    {err : Unit → Failure → Process → Prop}
    (h : Meets anything (preflight lo) () s ok err)
    (hdeployed : MULTICALL3_DEPLOY_BLOCK ≤ lo) : ok () () s := by
  simp only [preflight, ensureMainnet, meets_bind, meets_chainId,
    meets_liftRpc] at h
  have hmainnet := (h (.ok MAINNET_CHAIN_ID) () trivial).1 MAINNET_CHAIN_ID rfl
  simp only [if_true, meets_pure, ensureMulticallAt, if_pos hdeployed,
    ensureStateAvailable, meets_bind, meets_attempt] at hmainnet
  have hchunks : readBalances [USDT] lo = readChunks lo ∅ [[USDT]] := rfl
  simp only [hchunks, readChunks, callBalanceChunk, meets_bind,
    meets_aggregate3, meets_liftRpc] at hmainnet
  have hread := (hmainnet (.ok [⟨false, []⟩, ⟨false, []⟩]) () trivial).1 _ rfl
  have hdecoded : insertBalanceResults ∅ [USDT] [⟨false, []⟩, ⟨false, []⟩] =
      .ok ((∅ : HashMap Address Reading).insert USDT ⟨0, 0⟩) := rfl
  simp only [hdecoded, meets_ofExcept] at hread
  have hstate := hread.1 _ rfl
  simp only [meets_pure, ensureLogsAvailable, meets_bind, meets_getLogs]
    at hstate
  exact hstate (.ok []) () trivial

end Forced

/-! ## The command -/

section Command

variable {s : Process} {cfg : FollowConfig} {lo : Option ℕ}
    {toBlock chunk retries : ℕ}

theorem opened_of_anything {ok : Unit → Unit → Process → Prop}
    {err : Unit → Failure → Process → Prop} {c : ℕ}
    (h : Meets anything (loadOrCreateMap lo) () s ok err)
    (hopened : openedCursor s.saved lo = some c) :
    ∃ s', s'.map.cursor = c ∧ ok () () s' := by
  simp only [loadOrCreateMap, meets_bind, meets_get] at h
  cases hsaved : s.saved with
  | some map =>
      rw [hsaved] at h hopened
      simp only [meets_modify] at h
      cases hopened
      refine ⟨_, ?_, h⟩
      rfl
  | none =>
      rw [hsaved] at h hopened
      cases lo with
      | none => cases hopened
      | some first =>
          simp only [createMap, meets_bind, meets_pure, meets_modify] at h
          cases hopened
          refine ⟨_, ?_, h⟩
          rfl

theorem fits_of_neverOverflows_syncRange (hto : toBlock < 2 ^ 64)
    (hchunk : 1 ≤ cfg.chunk)
    (h : NeverOverflows s (Checked.syncRange cfg lo toBlock retries)) :
    ArithmeticFits s.saved lo toBlock cfg.chunk := by
  intro c hopened
  have hmeets := h.meets
  simp only [Checked.syncRange, meets_bind] at hmeets
  rcases opened_of_anything hmeets hopened with ⟨s₁, hcursor, hprepare⟩
  simp only [meets_get, Checked.prepareReplay, meets_bind, meets_add, hcursor]
    at hprepare
  have hfits : c + 1 < 2 ^ 64 := by
    by_contra hlarge
    exact hprepare.2 (Nat.le_of_not_lt hlarge) isOverflow_add
  constructor
  · exact hfits
  · intro hle hdeployed
    by_contra hlarge
    have hpositive : 0 < lo.getD (c + 1) :=
      Nat.lt_of_lt_of_le (by decide) hdeployed
    have hrest : ∀ map : BalanceMap, map.cursor < lo.getD (c + 1) →
        ¬ Meets anything (do
          Program.modify fun s => { s with map := map }
          if lo.getD (c + 1) ≤ toBlock then do
            preflight (lo.getD (c + 1))
            Checked.runSync cfg (lo.getD (c + 1)) toBlock retries
          else
            .throw (.err
              [s!"nothing to do: --from {lo.getD (c + 1)} is past --to {toBlock}"]))
          () s₁ (fun _ _ _ => True)
          (fun _ failure _ => ¬ failure.IsOverflow) := by
      intro map hmap hrun
      simp only [meets_bind, meets_modify, if_pos hle] at hrun
      have hsync := preflight_of_anything hrun hdeployed
      simp only [Checked.runSync, meets_bind, meets_modify, meets_get,
        meets_lifetime] at hsync
      have hattempts := hsync (toBlock - lo.getD (c + 1) + 1) () trivial
      exact attempts_overflow hto hchunk (Nat.le_of_not_lt hlarge) hle hmap
        (Nat.lt_succ_self _) hattempts
    have hprepared := hprepare.1 hfits
    by_cases hback : lo.getD (c + 1) ≤ c
    · simp only [if_pos hback, meets_pure] at hprepared
      apply hrest { s₁.map with cursor := lo.getD (c + 1) - 1 }
      · exact Nat.sub_lt hpositive Nat.one_pos
      · rw [meets_bind]
        exact hprepared
    · simp only [if_neg hback, meets_pure] at hprepared
      apply hrest s₁.map
      · rw [hcursor]
        exact Nat.lt_of_not_le hback
      · rw [meets_bind]
        exact hprepared

theorem neverOverflows_syncOneChunk {first : ℕ} (hfirst : first ≤ toBlock)
    (hchunk : 1 ≤ chunk) :
    NeverOverflows s (Checked.syncOneChunk cfg first toBlock chunk) ↔
      first + chunk < 2 ^ 64 := by
  constructor
  · intro h
    have hmeets := h.meets
    simp only [Checked.syncOneChunk, meets_bind, meets_add, isOverflow_add,
      not_true] at hmeets
    by_contra hlarge
    exact hmeets.2 (Nat.le_of_not_lt hlarge)
  · intro hsum
    apply neverOverflows_of_meets
    intro ω env world
    have hobserved : Meets (env.observed noteAsked)
        (Checked.syncOneChunk cfg first toBlock chunk) (world, []) s _ _ :=
      meets_syncOneChunk_ordered hfirst hchunk hsum ordered_nil
    apply Meets.of_observed
    apply meets_mono hobserved
    · intro _ _ _ _
      trivial
    · intro _ _ _ hfailed
      exact hfailed.calm

/-- Every range a sync asks for, in either build, runs forward and ends inside
the range it was given. -/
def IteratesForward (s : Process) (cfg : FollowConfig)
    (first toBlock retries : ℕ) : Prop :=
  ∀ {ω : Type} (env : Environment Request Answer ω) (world : ω)
    (final : ω × List (ℕ × ℕ)) (outcome : Except Failure SyncStats)
    (s' : Process),
    (runSync cfg first toBlock retries).Runs (env.observed noteAsked)
        (world, []) s final outcome s' →
      RangesForward toBlock final.2

theorem iteratesForward {first : ℕ} (hchunk : 1 ≤ cfg.chunk)
    (hto : toBlock + cfg.chunk < 2 ^ 64) (hcursor : s.map.cursor + 1 < 2 ^ 64) :
    IteratesForward s cfg first toBlock retries := by
  intro ω env world final outcome s' hrun
  have hordered : Meets (env.observed noteAsked)
      (Checked.runSync cfg first toBlock retries) (world, []) s
      (fun final _ _ => RangesForward toBlock final.2)
      (fun final failure _ => RangesForward toBlock final.2 ∧
        ¬ failure.IsOverflow) := meets_runSync_ordered hto hchunk hcursor
  have hnever : Meets (env.observed noteAsked)
      (Checked.runSync cfg first toBlock retries) (world, []) s
      (fun _ _ _ => True) (fun _ failure _ => ¬ failure.IsOverflow) := by
    apply meets_mono hordered
    · intro _ _ _ _
      trivial
    · intro _ _ _ hfailed
      exact hfailed.2
  -- A release build does what the debug build does that never panics.
  have hchecked := (agrees_runSync.runs_iff hnever).mpr hrun
  cases outcome with
  | ok stats => exact hordered.of_ok hchecked
  | error failure => exact (hordered.of_error hchecked).1

/-- Exactly when the operations of a sync stay inside 64 bits. -/
theorem sync_arithmetic_iff (s : Process) (cfg : FollowConfig)
    (lo : Option ℕ) (toBlock retries : ℕ) (hto : toBlock < 2 ^ 64)
    (hchunk : 1 ≤ cfg.chunk) :
    (NeverOverflows s (Checked.syncRange cfg lo toBlock retries) ↔
      ArithmeticFits s.saved lo toBlock cfg.chunk) ∧
    (∀ map, NeverOverflows s (Checked.prepareReplay map lo) ↔
      map.cursor + 1 < 2 ^ 64) ∧
    (∀ first, NeverOverflows s (Checked.startTotals first toBlock) ↔
      first ≤ toBlock ∧ toBlock - first + 1 < 2 ^ 64) ∧
    (∀ first chunk, first ≤ toBlock → 1 ≤ chunk →
      (NeverOverflows s (Checked.syncOneChunk cfg first toBlock chunk) ↔
        first + chunk < 2 ^ 64)) ∧
    (∀ first chunk, first ≤ toBlock →
      NeverOverflows s (Checked.narrowRange first toBlock chunk)) ∧
    (∀ first, first ≤ toBlock → toBlock + cfg.chunk < 2 ^ 64 →
      NeverOverflows s (Checked.sync cfg first toBlock)) ∧
    (∀ first, toBlock + cfg.chunk < 2 ^ 64 → s.map.cursor + 1 < 2 ^ 64 →
      IteratesForward s cfg first toBlock retries) := by
  refine ⟨⟨?_, ?_⟩, ?_, ?_, ?_, ?_, ?_, ?_⟩
  · exact fits_of_neverOverflows_syncRange hto hchunk
  · exact neverOverflows_syncRange_of_fits hchunk
  · intro map
    exact neverOverflows_prepareReplay
  · intro first
    exact neverOverflows_startTotals
  · intro first chunk hfirst hpositive
    exact neverOverflows_syncOneChunk hfirst hpositive
  · intro first chunk hfirst
    exact neverOverflows_narrowRange hfirst hto
  · intro first hfirst hsum
    exact neverOverflows_sync hfirst hsum hchunk
  · intro first hsum hcursor
    exact iteratesForward hchunk hsum hcursor

end Command

namespace LargestChunk

def config (chunk : ℕ) : FollowConfig :=
  ⟨chunk, 600, .finalized, 64, .wrapping⟩

/-- There is no snapshot yet. -/
def start : Process :=
  { Process.launched (BalanceMap.new 0) with saved := none }

/-- The default chunk: a release build does what a debug build does. -/
theorem sync_arithmetic_iff_fifty :
    NeverOverflows start
        (Checked.syncRange (config 50) (some 20000000) 20000100 10) ∧
      BuildsAgree start
        (Checked.syncRange (config 50) (some 20000000) 20000100 10)
        (syncRange (config 50) (some 20000000) 20000100 10) ∧
      BuildsAgree start (Checked.sync (config 50) 20000000 20000100)
        (sync (config 50) 20000000 20000100) := by
  obtain ⟨hrange, -, -, -, -, hsync, -⟩ := sync_arithmetic_iff start (config 50)
    (some 20000000) 20000100 10 (by decide) (by decide)
  have hfits : ArithmeticFits start.saved (some 20000000) 20000100
      (config 50).chunk := by
    intro c hopened
    cases hopened
    constructor
    · decide
    · intro _ _
      decide
  have hnever : NeverOverflows start
      (Checked.syncRange (config 50) (some 20000000) 20000100 10) :=
    hrange.mpr hfits
  have hwhole : NeverOverflows start
      (Checked.sync (config 50) 20000000 20000100) :=
    hsync 20000000 (by decide) (by decide)
  exact ⟨hnever, NeverOverflows.buildsAgree agrees_syncRange hnever,
    NeverOverflows.buildsAgree agrees_sync hwhole⟩

/-- The largest chunk there is, and the totals of a range that is empty. -/
theorem sync_overflows :
    ¬ NeverOverflows start
      (Checked.syncRange (config (2 ^ 64 - 1)) (some 20000000) 20000100 10) ∧
    ¬ NeverOverflows start (Checked.startTotals 5 4) := by
  constructor
  · intro hnever
    have hfits := fits_of_neverOverflows_syncRange (by decide) (by decide) hnever
    have hrange := (hfits 19999999 rfl).2 (by decide) (by decide)
    exact absurd hrange (by decide)
  · intro hnever
    have hle := (neverOverflows_startTotals.mp hnever).1
    omega

end LargestChunk

end UsdtPir
