import UsdtPir.AskedQuestions
import UsdtPir.BoundedRetries
import UsdtPir.CheckedSync

/-!
# When block arithmetic overflows

The last block of a chunk is computed as a sum that the end of the range bounds
only afterwards, and two arguments are evaluated that are not used.  So a range
that ends within a chunk of the largest block number, a snapshot at that number
and the totals of an empty range overflow, and nothing else does.
-/

namespace UsdtPir

open Interaction
open Program

/-- However the environment answers, no run from this state ends with an
overflow. -/
def NeverOverflows {α : Type} (s : Process) (p : Sync α) : Prop :=
  ∀ {ω : Type} (env : Environment Request Answer ω) (world final : ω)
    (failure : Failure) (s' : Process),
    p.Runs env world s final (.error failure) s' → ¬ failure.IsOverflow

/-- A debug build, the first, does what a release build does. -/
def BuildsAgree {α : Type} (s : Process) (p p' : Sync α) : Prop :=
  ∀ {ω : Type} (env : Environment Request Answer ω) (world final : ω)
    (outcome : Except Failure α) (s' : Process),
    p.Runs env world s final outcome s' ↔ p'.Runs env world s final outcome s'

/-- Note the ranges whose logs are asked for. -/
def noteAsked (asked : List (ℕ × ℕ)) : (q : Request) → Answer q → List (ℕ × ℕ)
  | .getLogs f, _ => asked ++ [(f.fromBlock, f.toBlock)]
  | _, _ => asked

/-- Every range runs forward and ends inside the one that was asked for. -/
def RangesForward (toBlock : ℕ) (asked : List (ℕ × ℕ)) : Prop :=
  ∀ r ∈ asked, r.1 ≤ r.2 ∧ r.2 ≤ toBlock

/-! ## Single operations -/

section Operations

variable {ω α : Type} {env : Environment Request Answer ω} {world : ω}
    {s : Process} {a b : ℕ} {failure : Failure}

@[simp]
theorem isOverflow_add : addOverflow.IsOverflow :=
  .inl rfl

@[simp]
theorem isOverflow_sub : subOverflow.IsOverflow :=
  .inr rfl

@[simp]
theorem not_isOverflow_err (chain : List String) :
    ¬ (Failure.err chain).IsOverflow := by
  simp [Failure.IsOverflow, addOverflow, subOverflow]

@[simp]
theorem not_isOverflow_killed : ¬ Failure.killed.IsOverflow := by
  simp [Failure.IsOverflow, addOverflow, subOverflow]

theorem not_isOverflow_outgrewU32 : ¬ outgrewU32.IsOverflow := by
  simp [Failure.IsOverflow, addOverflow, subOverflow, outgrewU32]

theorem Untouched.not_isOverflow {s' : Process} (h : Untouched s failure s') :
    ¬ failure.IsOverflow := by
  rcases h with ⟨-, chain, rfl⟩
  exact not_isOverflow_err chain

@[simp]
theorem meets_add {ok : ω → ℕ → Process → Prop}
    {err : ω → Failure → Process → Prop} :
    Meets env (Checked.add a b) world s ok err ↔
      (a + b < 2 ^ 64 → ok world (a + b) s) ∧
        (2 ^ 64 ≤ a + b → err world addOverflow s) := by
  unfold Checked.add
  by_cases hlt : a + b < 2 ^ 64
  · have hnot : ¬ 2 ^ 64 ≤ a + b := Nat.not_le_of_lt hlt
    rw [if_pos hlt, meets_pure]
    simp only [hlt, hnot, true_imp_iff, false_imp_iff, and_true]
  · have hle : 2 ^ 64 ≤ a + b := Nat.le_of_not_lt hlt
    rw [if_neg hlt, meets_throw]
    simp only [hlt, hle, true_imp_iff, false_imp_iff, true_and]

@[simp]
theorem meets_sub {ok : ω → ℕ → Process → Prop}
    {err : ω → Failure → Process → Prop} :
    Meets env (Checked.sub a b) world s ok err ↔
      (b ≤ a → ok world (a - b) s) ∧ (a < b → err world subOverflow s) := by
  unfold Checked.sub
  by_cases hle : b ≤ a
  · have hnot : ¬ a < b := Nat.not_lt_of_le hle
    rw [if_pos hle, meets_pure]
    simp only [hle, hnot, true_imp_iff, false_imp_iff, and_true]
  · have hlt : a < b := Nat.lt_of_not_le hle
    rw [if_neg hle, meets_throw]
    simp only [hle, hlt, true_imp_iff, false_imp_iff, true_and]

theorem neverOverflows_of_meets {p : Sync α}
    (h : ∀ {ω : Type} (env : Environment Request Answer ω) (world : ω),
      Meets env p world s (fun _ _ _ => True)
        (fun _ failure _ => ¬ failure.IsOverflow)) :
    NeverOverflows s p := by
  intro ω env world final failure s' hrun
  exact (h env world).of_error hrun

/-- An environment that may give any answer. -/
def anything : Environment Request Answer Unit :=
  fun _ _ _ _ => True

theorem NeverOverflows.meets {p : Sync α} (h : NeverOverflows s p) :
    Meets anything p () s (fun _ _ _ => True)
      (fun _ failure _ => ¬ failure.IsOverflow) := by
  rw [meets_iff_forall_runs]
  constructor
  · intro _ _ _ _
    trivial
  · intro final failure s' hrun
    exact h anything () final failure s' hrun

theorem NeverOverflows.buildsAgree {p p' : Sync α}
    (hagrees : Agrees Failure.IsOverflow p p') (h : NeverOverflows s p) :
    BuildsAgree s p p' := by
  intro ω env world final outcome s'
  apply hagrees.runs_iff
  rw [meets_iff_forall_runs]
  constructor
  · intro _ _ _ _
    trivial
  · intro final failure s' hrun
    exact h env world final failure s' hrun

theorem neverOverflows_startTotals {lo toBlock : ℕ} :
    NeverOverflows s (Checked.startTotals lo toBlock) ↔
      lo ≤ toBlock ∧ toBlock - lo + 1 < 2 ^ 64 := by
  constructor
  · intro h
    have hmeets := h.meets
    simp only [Checked.startTotals, meets_bind, meets_sub, meets_add,
      meets_pure, isOverflow_add, isOverflow_sub, not_true] at hmeets
    constructor
    · by_contra hgt
      exact hmeets.2 (Nat.lt_of_not_le hgt)
    · by_contra hlarge
      have hle : lo ≤ toBlock := by
        by_contra hgt
        exact hmeets.2 (Nat.lt_of_not_le hgt)
      exact (hmeets.1 hle).2 (Nat.le_of_not_lt hlarge)
  · intro h
    apply neverOverflows_of_meets
    intro ω env world
    simp only [Checked.startTotals, meets_bind, meets_sub, meets_add,
      meets_pure]
    constructor
    · intro _
      constructor
      · intro _
        trivial
      · intro hlarge
        omega
    · intro hgt
      omega

theorem neverOverflows_prepareReplay {map : BalanceMap} {lo : Option ℕ} :
    NeverOverflows s (Checked.prepareReplay map lo) ↔ map.cursor + 1 < 2 ^ 64 := by
  constructor
  · intro h
    have hmeets := h.meets
    simp only [Checked.prepareReplay, meets_bind, meets_add, isOverflow_add,
      not_true] at hmeets
    by_contra hlarge
    exact hmeets.2 (Nat.le_of_not_lt hlarge)
  · intro h
    apply neverOverflows_of_meets
    intro ω env world
    simp only [Checked.prepareReplay, meets_bind, meets_add]
    constructor
    · intro _
      split
      · trivial
      · trivial
    · intro hlarge
      omega

theorem neverOverflows_narrowRange {lo hi chunk : ℕ} (hlo : lo ≤ hi)
    (hhi : hi < 2 ^ 64) : NeverOverflows s (Checked.narrowRange lo hi chunk) := by
  apply neverOverflows_of_meets
  intro ω env world
  simp only [Checked.narrowRange, meets_bind, meets_sub, meets_add, meets_pure]
  constructor
  · intro _
    constructor
    · intro _
      trivial
    · intro hlarge
      omega
  · intro hlt
    omega

end Operations

/-! ## Whole runs -/

section Runs

variable {ω : Type} {env : Environment Request Answer ω} {world : ω}
    {asked : List (ℕ × ℕ)} {s : Process} {cfg : FollowConfig}
    {lo hi toBlock chunk fuel retries origin start stalled : ℕ}

theorem ordered_nil : RangesForward toBlock [] := by
  intro r hr
  cases hr

theorem RangesForward.concat (h : RangesForward toBlock asked) (hlo : lo ≤ hi)
    (hhi : hi ≤ toBlock) : RangesForward toBlock (asked ++ [(lo, hi)]) := by
  intro r hr
  rcases List.mem_append.mp hr with hold | hnew
  · exact h r hold
  · rw [List.mem_singleton.mp hnew]
    exact ⟨hlo, hhi⟩

theorem noteAsked_other (asked : List (ℕ × ℕ)) (question : Request)
    (answer : Answer question) (hkind : ¬ question.IsGetLogs)
    (hasked : RangesForward toBlock asked) :
    RangesForward toBlock (noteAsked asked question answer) := by
  cases question with
  | getLogs f => exact absurd trivial hkind
  | _ => exact hasked

theorem meets_applyRange_calm {logs : List Log} {at_ : ℕ} :
    Meets env (applyRange logs at_) world s (fun _ _ _ => True)
      (fun _ failure s' => s' = s ∧ ¬ failure.IsOverflow) := by
  unfold applyRange
  simp only [meets_bind]
  apply meets_mono (meets_collectAddresses env.keeps_gives)
  · intro middle touched s₁ hcollected
    rw [hcollected.1]
    split
    · trivial
    · simp only [applyTouched, meets_bind, meets_order]
      intro addrs after _
      apply meets_mono (meets_readBalances env.keeps_gives)
      · intro after' readings s₂ hread
        rw [hread.1]
        apply meets_iterate
        intro order _ after'' _ rows _
        simp only [meets_get]
        split
        · rw [meets_throw]
          exact ⟨rfl, not_isOverflow_outgrewU32⟩
        · trivial
      · intro _ _ _ hfailed
        exact ⟨hfailed.1, hfailed.not_isOverflow⟩
  · intro _ _ _ hfailed
    exact ⟨hfailed.1, hfailed.not_isOverflow⟩

theorem meets_applyChunk_calm {logs : List Log} :
    Meets env (applyChunk logs hi) world s (fun _ _ _ => True)
      (fun _ failure s' => s' = s ∧ ¬ failure.IsOverflow) := by
  simp only [applyChunk, meets_bind]
  apply meets_mono meets_applyRange_calm
  · intro _ _ _ _
    simp only [meets_modify, meets_pure]
  · intro _ _ _ hfailed
    exact hfailed

/-- Narrowing stays between the block that was asked for first and the last. -/
theorem meets_fetchLogs_ordered (hlo : lo ≤ hi) (hto : hi ≤ toBlock)
    (hhi : hi < 2 ^ 64) (hchunk : 1 ≤ chunk) (hasked : RangesForward toBlock asked) :
    Meets (env.observed noteAsked) (Checked.fetchLogs lo fuel hi chunk)
      (world, asked) s
      (fun final result s' => RangesForward toBlock final.2 ∧ s' = s ∧
        (lo ≤ result.2.1 ∧ result.2.1 ≤ hi) ∧
        1 ≤ result.2.2 ∧ result.2.2 ≤ chunk)
      (fun final failure s' => RangesForward toBlock final.2 ∧ s' = s ∧
        ¬ failure.IsOverflow) := by
  induction fuel generalizing hi chunk world asked with
  | zero =>
      simp only [Checked.fetchLogs, meets_bind, meets_getLogs, meets_liftRpc,
        meets_pure]
      intro answer after hanswer
      have hafter : RangesForward toBlock after.2 := by
        rw [hanswer.2]
        exact hasked.concat hlo hto
      constructor
      · intro logs _
        exact ⟨hafter, trivial, ⟨hlo, le_rfl⟩, hchunk, le_rfl⟩
      · intro e _
        exact ⟨hafter, trivial, not_isOverflow_err _⟩
  | succ fuel ih =>
      simp only [Checked.fetchLogs, fetchBody, meets_bind, meets_getLogs]
      intro answer after hanswer
      have hafter : RangesForward toBlock after.2 := by
        rw [hanswer.2]
        exact hasked.concat hlo hto
      cases answer with
      | ok logs => exact ⟨hafter, rfl, ⟨hlo, le_rfl⟩, hchunk, le_rfl⟩
      | error e =>
          by_cases hcap : isResultCap e = true ∧ lo < hi
          · simp only [if_pos hcap, Checked.narrowRange, meets_bind, meets_sub,
              meets_add, meets_pure]
            constructor
            · intro _
              constructor
              · intro _
                have hfirst : lo ≤ lo + (hi - lo) / 2 := Nat.le_add_right _ _
                have hlast : lo + (hi - lo) / 2 ≤ hi := by omega
                apply meets_mono (ih hfirst (hlast.trans hto)
                  (Nat.lt_of_le_of_lt hlast hhi) (le_max_right _ _) hafter)
                · intro final result s' hdone
                  rcases hdone with ⟨hordered, hs', hrange, hsize⟩
                  have hless : max (chunk / 2) 1 ≤ chunk := by omega
                  exact ⟨hordered, hs', ⟨hrange.1, hrange.2.trans hlast⟩,
                    hsize.1, hsize.2.trans hless⟩
                · intro _ _ _ hfailed
                  exact hfailed
              · intro hlarge
                omega
            · intro hlt
              omega
          · simp only [if_neg hcap, meets_liftRpc]
            constructor
            · intro logs hlogs
              cases hlogs
            · intro _ _
              exact ⟨hafter, trivial, not_isOverflow_err _⟩

/-- A sync that did not overflow stopped with its cursor where it was or at a
block it was asked for. -/
structure Halted (toBlock before : ℕ) (asked : List (ℕ × ℕ))
    (failure : Failure) (s' : Process) : Prop where
  forward : RangesForward toBlock asked
  cursor : s'.map.cursor = before ∨
    s'.map.cursor ≤ toBlock ∧ s'.map.cursor + 1 < 2 ^ 64
  calm : ¬ failure.IsOverflow

/-- The sum is the only operation of an iteration that can overflow: the last
block is below it. -/
theorem meets_syncOneChunk_ordered (hlo : lo ≤ toBlock) (hchunk : 1 ≤ chunk)
    (hsum : lo + chunk < 2 ^ 64) (hasked : RangesForward toBlock asked) :
    Meets (env.observed noteAsked) (Checked.syncOneChunk cfg lo toBlock chunk)
      (world, asked) s
      (fun final next s' => RangesForward toBlock final.2 ∧
        s'.map.cursor + 1 = next.1 ∧ next.1 ≤ toBlock + 1 ∧
        1 ≤ next.2 ∧ next.2 ≤ chunk)
      (fun final failure s' => Halted toBlock s.map.cursor final.2 failure s') := by
  simp only [Checked.syncOneChunk, meets_bind, meets_add, meets_sub]
  constructor
  · intro _
    constructor
    · intro _
      have hwant : lo ≤ min (lo + chunk - 1) toBlock := by omega
      have hlast : min (lo + chunk - 1) toBlock ≤ toBlock := min_le_right _ _
      have hbelow : min (lo + chunk - 1) toBlock + 1 < 2 ^ 64 := by omega
      apply meets_mono (meets_fetchLogs_ordered hwant hlast (by omega) hchunk
        hasked)
      · intro middle result s₁ hfetched
        rcases middle with ⟨middle, asked₁⟩
        rcases result with ⟨logs, hi, left⟩
        rcases hfetched with ⟨hasked₁, rfl, hrange, hsize⟩
        dsimp only at hasked₁ hrange hsize ⊢
        have hother : Asks (fun q => ¬ q.IsGetLogs) (applyChunk logs hi) :=
          asks_applyChunk.weaken Request.IsRead.not_getLogs
        apply meets_mono (meets_applyChunk_calm.observed hother
          noteAsked_other hasked₁)
        · intro after stats s₂ happlied
          rcases after with ⟨after, asked₂⟩
          have hasked₂ : RangesForward toBlock asked₂ := happlied.1
          simp only [meets_modify]
          have hsnapshot : Asks (fun q => ¬ q.IsGetLogs) (maybeSnapshot cfg) :=
            asks_maybeSnapshot id fun _ => id
          apply meets_mono (meets_maybeSnapshot.observed hsnapshot
            noteAsked_other hasked₂)
          · intro final _ s' hdone
            rcases hdone with ⟨hordered, hs', -⟩
            have hcursor : s'.map.cursor = hi := by rw [hs']
            constructor
            · intro _
              exact ⟨hordered, by rw [hcursor], by omega, hsize⟩
            · intro hlarge
              omega
          · intro final failure s' hfailed
            rcases hfailed with ⟨hordered, hs', hfailure⟩
            have hcursor : s'.map.cursor = hi := by rw [hs']
            have hstop : ¬ failure.IsOverflow := by
              rcases hfailure with ⟨chain, rfl⟩
              exact not_isOverflow_err chain
            exact ⟨hordered, .inr ⟨by omega, by omega⟩, hstop⟩
        · intro final failure s' hfailed
          rcases hfailed with ⟨hordered, hs', hstop⟩
          rw [hs']
          exact ⟨hordered, .inl rfl, hstop⟩
      · intro final failure s' hfailed
        rcases hfailed with ⟨hordered, hs', hstop⟩
        rw [hs']
        exact ⟨hordered, .inl rfl, hstop⟩
    · intro hlt
      omega
  · intro hlarge
    omega

theorem meets_syncChunks_ordered (hto : toBlock + chunk < 2 ^ 64)
    (hchunk : 1 ≤ chunk) (hasked : RangesForward toBlock asked) :
    Meets (env.observed noteAsked)
      (Checked.syncChunks cfg toBlock fuel lo chunk) (world, asked) s
      (fun final _ _ => RangesForward toBlock final.2)
      (fun final failure s' => Halted toBlock s.map.cursor final.2 failure s') := by
  induction fuel generalizing lo chunk world asked s with
  | zero =>
      unfold Checked.syncChunks
      split
      · rw [meets_throw]
        exact ⟨hasked, .inl rfl, not_isOverflow_killed⟩
      · exact hasked
  | succ fuel ih =>
      unfold Checked.syncChunks
      split
      · rename_i hlo
        rw [meets_bind]
        apply meets_mono (meets_syncOneChunk_ordered hlo hchunk (by omega)
          hasked)
        · intro middle next s₁ hdone
          rcases middle with ⟨middle, asked₁⟩
          rcases hdone with ⟨hasked₁, hcursor, hnext, hpos, hless⟩
          apply meets_mono (ih (by omega) hpos hasked₁)
          · intro _ _ _ hordered
            exact hordered
          · intro final failure s' hfailed
            rcases hfailed with ⟨hordered, hmoved, hstop⟩
            refine ⟨hordered, ?_, hstop⟩
            rcases hmoved with hsame | hmoved
            · right
              rw [hsame]
              constructor
              · omega
              · omega
            · exact .inr hmoved
        · intro _ _ _ hfailed
          exact hfailed
      · exact hasked

theorem meets_syncInto_ordered (hto : toBlock + cfg.chunk < 2 ^ 64)
    (hchunk : 1 ≤ cfg.chunk) (hasked : RangesForward toBlock asked) :
    Meets (env.observed noteAsked) (Checked.syncInto cfg lo toBlock)
      (world, asked) s
      (fun final _ _ => RangesForward toBlock final.2)
      (fun final failure s' => Halted toBlock s.map.cursor final.2 failure s') := by
  simp only [Checked.syncInto, meets_bind, meets_modify]
  split
  · exact hasked
  · simp only [meets_bind, meets_modify, meets_lifetime]
    intro lifetime after hlifetime
    have hafter : RangesForward toBlock after.2 := by
      rw [hlifetime.2]
      exact hasked
    apply meets_mono (meets_syncChunks_ordered hto hchunk hafter)
    · intro _ _ _ hordered
      simp only [pruneTransient, meets_modify]
      exact hordered
    · intro _ _ _ hfailed
      exact hfailed

theorem meets_syncOnce_ordered (hto : toBlock + cfg.chunk < 2 ^ 64)
    (hchunk : 1 ≤ cfg.chunk) (hasked : RangesForward toBlock asked) :
    Meets (env.observed noteAsked) (Checked.syncOnce cfg lo toBlock)
      (world, asked) s
      (fun final _ _ => RangesForward toBlock final.2)
      (fun final failure s' => Halted toBlock s.map.cursor final.2 failure s') := by
  simp only [Checked.syncOnce, markSnapshot, meets_bind, meets_instantNow,
    meets_modify]
  intro now after hnow
  have hafter : RangesForward toBlock after.2 := by
    rw [hnow.2]
    exact hasked
  exact meets_syncInto_ordered hto hchunk hafter

theorem neverOverflows_sync (hlo : lo ≤ toBlock)
    (hto : toBlock + cfg.chunk < 2 ^ 64) (hchunk : 1 ≤ cfg.chunk) :
    NeverOverflows s (Checked.sync cfg lo toBlock) := by
  apply neverOverflows_of_meets
  intro ω env world
  have hinto : ∀ s, Meets env (Checked.syncInto cfg lo toBlock) world s
      (fun _ _ _ => True) (fun _ failure _ => ¬ failure.IsOverflow) := by
    intro s
    have hordered : Meets (env.observed noteAsked)
        (Checked.syncInto cfg lo toBlock) (world, []) s _ _ :=
      meets_syncInto_ordered hto hchunk ordered_nil
    apply Meets.of_observed
    apply meets_mono hordered
    · intro _ _ _ _
      trivial
    · intro _ _ _ hfailed
      exact hfailed.calm
  simp only [Checked.sync, Checked.startTotals, meets_bind, meets_sub, meets_add,
    meets_pure, meets_modify, meets_get]
  constructor
  · intro _
    constructor
    · intro _
      exact hinto _
    · intro hlarge
      omega
  · intro hlt
    omega

theorem asks_waitToRetry {word : Word} {before : ℕ} {chain : List String} :
    Asks (fun q => ¬ q.IsGetLogs)
      (waitToRetry word before retries chain stalled) := by
  unfold waitToRetry
  apply asks_bind (asks_saveMap fun _ => id)
  intro _
  apply asks_bind asks_get
  intro s
  dsimp only
  split
  · exact asks_throw
  · exact asks_pure

theorem meets_syncAttempts_ordered (hto : toBlock + cfg.chunk < 2 ^ 64)
    (hchunk : 1 ≤ cfg.chunk) (hasked : RangesForward toBlock asked)
    (hcursor : s.map.cursor + 1 < 2 ^ 64) :
    Meets (env.observed noteAsked)
      (Checked.syncAttempts cfg toBlock retries origin fuel start stalled)
      (world, asked) s
      (fun final _ _ => RangesForward toBlock final.2)
      (fun final failure _ => RangesForward toBlock final.2 ∧
        ¬ failure.IsOverflow) := by
  induction fuel generalizing start stalled world asked s with
  | zero =>
      unfold Checked.syncAttempts
      rw [meets_throw]
      exact ⟨hasked, not_isOverflow_killed⟩
  | succ fuel ih =>
      unfold Checked.syncAttempts
      simp only [meets_bind, meets_get]
      rw [meets_attempt]
      apply meets_mono (meets_syncOnce_ordered hto hchunk hasked)
      · intro middle _ s₁ hasked₁
        simp only [setBlocks, meets_bind, meets_modify, meets_get, meets_pure,
          meets_saveMapOrFail]
        intro answer after hsave
        have hafter : RangesForward toBlock after.2 := by
          rw [hsave.2]
          exact hasked₁
        cases answer with
        | ok written => exact hafter
        | error e => exact ⟨hafter, not_isOverflow_err _⟩
      · intro middle failure s₁ hfailed
        rcases middle with ⟨middle, asked₁⟩
        rcases hfailed with ⟨hasked₁, hmoved, hstop⟩
        have hcursor₁ : s₁.map.cursor + 1 < 2 ^ 64 := by
          rcases hmoved with hsame | hmoved
          · rw [hsame]
            exact hcursor
          · exact hmoved.2
        cases failure with
        | panic message => exact ⟨hasked₁, hstop⟩
        | killed => exact ⟨hasked₁, hstop⟩
        | err chain =>
            rw [meets_bind]
            apply meets_mono (meets_waitToRetry.observed asks_waitToRetry
              noteAsked_other hasked₁)
            · intro after stalled' s₂ hwaited
              rcases after with ⟨after, asked₂⟩
              rcases hwaited with ⟨hasked₂, hmap, -⟩
              simp only [meets_bind, meets_get, meets_add]
              constructor
              · intro _
                split
                · simp only [setBlocks, meets_bind, meets_modify, meets_get,
                    meets_pure]
                  exact hasked₂
                · apply ih hasked₂
                  rw [hmap]
                  exact hcursor₁
              · intro hlarge
                rw [hmap] at hlarge
                omega
            · intro final failure s' hgaveUp
              rcases hgaveUp with ⟨hordered, -, -, rfl⟩
              exact ⟨hordered, not_isOverflow_err _⟩

/-- Every iteration of a sync asks for `lo..=hi` with `lo ≤ hi ≤ toBlock`. -/
theorem meets_runSync_ordered (hto : toBlock + cfg.chunk < 2 ^ 64)
    (hchunk : 1 ≤ cfg.chunk) (hcursor : s.map.cursor + 1 < 2 ^ 64) :
    Meets (env.observed noteAsked) (Checked.runSync cfg lo toBlock retries)
      (world, []) s
      (fun final _ _ => RangesForward toBlock final.2)
      (fun final failure _ => RangesForward toBlock final.2 ∧
        ¬ failure.IsOverflow) := by
  simp only [Checked.runSync, meets_bind, meets_modify, meets_get,
    meets_lifetime]
  intro lifetime after hlifetime
  have hafter : RangesForward toBlock after.2 := by
    rw [hlifetime.2]
    exact ordered_nil
  exact meets_syncAttempts_ordered hto hchunk hafter hcursor

theorem meets_preflight_calm :
    Meets env (preflight lo) world s
      (fun _ _ s' => s'.map = s.map ∧ MULTICALL3_DEPLOY_BLOCK ≤ lo)
      (fun _ failure _ => ¬ failure.IsOverflow) := by
  simp only [preflight, ensureMainnet, meets_bind, meets_chainId, meets_liftRpc]
  intro answer after _
  constructor
  · intro id _
    split
    · rw [meets_pure]
      unfold ensureMulticallAt
      split
      · rename_i hdeployed
        rw [meets_pure]
        simp only [ensureStateAvailable, meets_bind, meets_attempt]
        apply meets_mono (meets_readBalances env.keeps_gives)
        · intro after' readings s₁ hread
          rw [hread.1]
          simp only [meets_pure, ensureLogsAvailable, meets_bind, meets_getLogs]
          intro served after'' _
          cases served with
          | ok logs => exact ⟨rfl, hdeployed⟩
          | error e =>
              simp only [meets_bind, meets_blockNumber, meets_liftRpc]
              intro head after₃ _
              constructor
              · intro number _
                simp only [meets_getLogs]
                intro atHead after₄ _
                cases atHead with
                | ok logs => exact not_isOverflow_err _
                | error e => exact not_isOverflow_err _
              · intro e _
                exact not_isOverflow_err _
        · intro after' failure s₁ hfailed
          rcases hfailed with ⟨-, chain, rfl⟩
          exact not_isOverflow_err _
      · rw [meets_throw]
        exact not_isOverflow_err _
    · rw [meets_throw]
      exact not_isOverflow_err _
  · intro e _
    exact not_isOverflow_err _

end Runs

/-! ## The command -/

/-- The cursor of the map that is opened: the snapshot's, or the block before
the first one. -/
def openedCursor (saved : Option BalanceMap) (lo : Option ℕ) : Option ℕ :=
  (saved.map BalanceMap.cursor).or (lo.map fun first => first - 1)

/-- The snapshot is not at the last block number there is, and a range that is
synced at all ends a chunk below it. -/
def ArithmeticFits (saved : Option BalanceMap) (lo : Option ℕ)
    (toBlock chunk : ℕ) : Prop :=
  ∀ c, openedCursor saved lo = some c → c + 1 < 2 ^ 64 ∧
    (lo.getD (c + 1) ≤ toBlock → MULTICALL3_DEPLOY_BLOCK ≤ lo.getD (c + 1) →
      toBlock + chunk < 2 ^ 64)

section Command

variable {ω : Type} {env : Environment Request Answer ω} {world : ω}
    {s : Process} {cfg : FollowConfig} {lo : Option ℕ}
    {toBlock retries start : ℕ}

theorem meets_loadOrCreateMap_calm :
    Meets env (loadOrCreateMap lo) world s
      (fun _ _ s' => openedCursor s.saved lo = some s'.map.cursor)
      (fun _ failure _ => ¬ failure.IsOverflow) := by
  simp only [loadOrCreateMap, meets_bind, meets_get]
  cases hsaved : s.saved with
  | some map =>
      simp only [meets_modify]
      rfl
  | none =>
      cases lo with
      | some first =>
          simp only [createMap, meets_bind, meets_pure, meets_modify]
          rfl
      | none =>
          simp only [createMap, meets_bind, meets_throw]
          exact not_isOverflow_err _

theorem neverOverflows_syncRange_of_fits (hchunk : 1 ≤ cfg.chunk)
    (hfits : ArithmeticFits s.saved lo toBlock cfg.chunk) :
    NeverOverflows s (Checked.syncRange cfg lo toBlock retries) := by
  apply neverOverflows_of_meets
  intro ω env world
  simp only [Checked.syncRange, meets_bind]
  apply meets_mono meets_loadOrCreateMap_calm
  · intro middle _ s₁ hopened
    rcases hfits _ hopened with ⟨hcursor, hrange⟩
    simp only [meets_get, Checked.prepareReplay, meets_bind, meets_add]
    constructor
    · intro _
      have hrest : ∀ map : BalanceMap, map.cursor + 1 < 2 ^ 64 →
          Meets env (do
            Program.modify fun s => { s with map := map }
            if lo.getD (s₁.map.cursor + 1) ≤ toBlock then do
              preflight (lo.getD (s₁.map.cursor + 1))
              Checked.runSync cfg (lo.getD (s₁.map.cursor + 1)) toBlock retries
            else
              .throw (.err
                [s!"nothing to do: --from {lo.getD (s₁.map.cursor + 1)} is past --to {toBlock}"]))
            middle s₁ (fun _ _ _ => True)
            (fun _ failure _ => ¬ failure.IsOverflow) := by
        intro map hmap
        simp only [meets_bind, meets_modify]
        split
        · rename_i hle
          rw [meets_bind]
          apply meets_mono meets_preflight_calm
          · intro after _ s₂ hchecked
            rcases hchecked with ⟨hsame, hdeployed⟩
            have hcursor₂ : s₂.map.cursor + 1 < 2 ^ 64 := by
              rw [hsame]
              exact hmap
            have hobserved : Meets (env.observed noteAsked)
                (Checked.runSync cfg (lo.getD (s₁.map.cursor + 1)) toBlock
                  retries) (after, []) s₂ _ _ :=
              meets_runSync_ordered (hrange hle hdeployed) hchunk hcursor₂
            apply Meets.of_observed
            apply meets_mono hobserved
            · intro _ _ _ _
              trivial
            · intro _ _ _ hfailed
              exact hfailed.2
          · intro _ _ _ hfailed
            exact hfailed
        · rw [meets_throw]
          exact not_isOverflow_err _
      split
      · apply hrest
        have hback : lo.getD (s₁.map.cursor + 1) ≤ s₁.map.cursor := by assumption
        dsimp only
        omega
      · exact hrest s₁.map hcursor
    · intro hlarge
      omega
  · intro _ _ _ hfailed
    exact hfailed

end Command

end UsdtPir
