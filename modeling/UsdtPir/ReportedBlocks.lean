import Mathlib.Data.Finset.Union
import Mathlib.Order.Interval.Finset.Nat
import UsdtPir.BlockArithmetic
import UsdtPir.RangeCuts
import UsdtPir.ScannedBlocks

/-!
# Reported blocks and folded blocks

`sync` computes its figure from the ends of the range before it starts, and a
bounded sync from where the cursor was and where it ends.  Beside both runs the
ledger of the ranges that were folded.
-/

namespace UsdtPir

open Interaction
open Program

/-- The blocks in the ranges, each of them once. -/
def foldedBlocks (ranges : List (ℕ × ℕ)) : Finset ℕ :=
  ranges.toFinset.biUnion fun r => Finset.Icc r.1 r.2

section Blocks

variable {ranges : List (ℕ × ℕ)} {lo hi b : ℕ}

@[simp] theorem foldedBlocks_nil : foldedBlocks [] = ∅ :=
  rfl

theorem mem_foldedBlocks :
    b ∈ foldedBlocks ranges ↔ ∃ r ∈ ranges, r.1 ≤ b ∧ b ≤ r.2 := by
  simp [foldedBlocks]

theorem foldedBlocks_concat :
    foldedBlocks (ranges ++ [(lo, hi)]) =
      foldedBlocks ranges ∪ Finset.Ico lo (hi + 1) := by
  ext b
  rw [Finset.mem_union, mem_foldedBlocks, mem_foldedBlocks, Finset.mem_Ico]
  constructor
  · intro h
    obtain ⟨r, hr, hle⟩ := h
    cases List.mem_append.mp hr with
    | inl hold => exact .inl ⟨r, hold, hle⟩
    | inr hnew =>
        rw [List.mem_singleton.mp hnew] at hle
        exact .inr ⟨hle.1, Nat.lt_succ_of_le hle.2⟩
  · intro h
    cases h with
    | inl hold =>
        obtain ⟨r, hr, hle⟩ := hold
        exact ⟨r, List.mem_append_left _ hr, hle⟩
    | inr hnew =>
        exact ⟨(lo, hi), by simp, hnew.1, Nat.le_of_lt_succ hnew.2⟩

end Blocks

/-! ## What a sync folds -/

/-- The blocks from `lo` on and below `lo'` were folded, and the cursor is at
the last of them.  The number of blocks to report is left alone. -/
structure FoldsUpTo (lo lo' : ℕ) (l : Ledger) (s : Process) (l' : Ledger)
    (s' : Process) : Prop where
  le : lo ≤ lo'
  blocks : foldedBlocks l'.folded =
    foldedBlocks l.folded ∪ Finset.Ico lo lo'
  cursor : s'.map.cursor = if lo = lo' then s.map.cursor else lo' - 1
  reported : s'.totals.blocks = s.totals.blocks

section Scanning

variable {ω : Type} {env : Environment Request Answer ω} {world : ω}
    {cfg : FollowConfig} {l l₁ l' : Ledger} {s s₁ s' : Process}
    {lo mid lo' hi toBlock chunk fuel : ℕ}

theorem FoldsUpTo.kept (hfolded : l'.folded = l.folded)
    (hcursor : s'.map.cursor = s.map.cursor)
    (hreported : s'.totals.blocks = s.totals.blocks) :
    FoldsUpTo lo lo l s l' s' where
  le := le_rfl
  blocks := by simp [hfolded]
  cursor := by simp [hcursor]
  reported := hreported

theorem FoldsUpTo.trans (h : FoldsUpTo lo mid l s l₁ s₁)
    (h' : FoldsUpTo mid lo' l₁ s₁ l' s') : FoldsUpTo lo lo' l s l' s' where
  le := h.le.trans h'.le
  blocks := by
    rw [h'.blocks, h.blocks, Finset.union_assoc,
      Finset.Ico_union_Ico_eq_Ico h.le h'.le]
  cursor := by
    have hle := h.le
    have hle' := h'.le
    rw [h'.cursor, h.cursor]
    split_ifs <;> first | rfl | omega
  reported := h'.reported.trans h.reported

theorem Gains.scanned (h : Gains lo hi l s l' s') (hle : lo ≤ hi)
    (hreported : s'.totals.blocks = s.totals.blocks) :
    FoldsUpTo lo (hi + 1) l s l' s' where
  le := Nat.le_succ_of_le hle
  blocks := by rw [h.folded, foldedBlocks_concat]
  cursor := by
    rw [h.cursor, if_neg (by omega)]
    rfl
  reported := hreported

theorem ChunkApplied.reported {truth : (q : Request) → Answer q → Prop}
    (h : ChunkApplied truth lo hi s s') :
    s'.totals.blocks = s.totals.blocks := by
  obtain ⟨logs, stats, addrs, touched, rows, s₁, -, -, hs', -⟩ := h
  rw [hs']
  rfl

/-- One chunk, whether or not it ends well: a chunk that fails has been folded
as a whole or not at all. -/
theorem meets_syncOneChunk_scanned
    (hexact : cfg.word.ExactTo (toBlock + chunk)) (hto : lo ≤ toBlock)
    (hchunk : 1 ≤ chunk) :
    Meets (env.observed noteScan) (syncOneChunk cfg lo toBlock chunk)
      (world, l) s
      (fun final next s' => ∃ hi left, hi ≤ toBlock ∧ 1 ≤ left ∧
        left ≤ chunk ∧ next = (hi + 1, left) ∧
        FoldsUpTo lo (hi + 1) l s final.2 s' ∧ lo ≤ hi)
      (fun final _ s' => ∃ lo' ≤ toBlock + 1,
        FoldsUpTo lo lo' l s final.2 s') := by
  have hwant : cfg.word.sub (cfg.word.add lo chunk) 1 = lo + chunk - 1 := by
    rw [hexact lo chunk (by omega), cfg.word.sub_of_le _ _ (by omega)]
  have hforward : lo ≤ min (cfg.word.sub (cfg.word.add lo chunk) 1) toBlock := by
    rw [hwant]
    omega
  apply meets_mono (meets_syncOneChunk_gains.and (meets_syncOneChunk_taken
    (env.observed noteScan).keeps_gives hexact hto hchunk))
  · intro final next s' hdone
    obtain ⟨⟨hi, -, -, hgains⟩, hi', left, hle, hhi, hleft, hless, hnext,
      happlied⟩ := hdone
    have hsame : hi = hi' := by
      rw [← hgains.cursor, happlied.cursor]
    subst hsame
    exact ⟨hi, left, hhi, hleft, hless, hnext,
      hgains.scanned hle happlied.reported, hle⟩
  · intro final failure s' hstopped
    obtain ⟨hledger, hstate⟩ := hstopped
    have hreported : s'.totals.blocks = s.totals.blocks := by
      cases hstate with
      | inl hsame => rw [hsame]
      | inr happlied =>
          obtain ⟨hi, happlied⟩ := happlied
          exact happlied.reported
    cases hledger with
    | inl hnothing =>
        obtain ⟨hsame, pending, hledger⟩ := hnothing
        refine ⟨lo, by omega, .kept ?_ ?_ hreported⟩
        · rw [hledger]
        · rw [hsame]
    | inr hfolded =>
        obtain ⟨hi, hhi, hle, hgains⟩ := hfolded
        exact ⟨hi + 1, by omega, hgains.scanned (hle hforward) hreported⟩

theorem meets_syncChunks_scanned
    (hexact : cfg.word.ExactTo (toBlock + chunk)) (hlo : lo ≤ toBlock + 1)
    (hchunk : 1 ≤ chunk) :
    Meets (env.observed noteScan) (syncChunks cfg toBlock fuel lo chunk)
      (world, l) s
      (fun final _ s' => FoldsUpTo lo (toBlock + 1) l s final.2 s')
      (fun final _ s' => ∃ lo' ≤ toBlock + 1,
        FoldsUpTo lo lo' l s final.2 s') := by
  have hkept : FoldsUpTo lo lo l s l s := .kept rfl rfl rfl
  induction fuel generalizing lo chunk world l s with
  | zero =>
      unfold syncChunks
      split
      case isTrue => exact ⟨lo, hlo, hkept⟩
      case isFalse hnot =>
        have hend : lo = toBlock + 1 := by omega
        subst hend
        exact hkept
  | succ fuel ih =>
      unfold syncChunks
      split
      case isTrue hle =>
        rw [meets_bind]
        apply meets_mono (meets_syncOneChunk_scanned hexact hle hchunk)
        · intro middle next s₁ hdone
          obtain ⟨hi, left, hhi, hleft, hless, rfl, hscanned, -⟩ := hdone
          have hexact' : cfg.word.ExactTo (toBlock + left) :=
            hexact.mono (by omega)
          apply meets_mono (ih hexact' (by omega) hleft (.kept rfl rfl rfl))
          · intro final _ s' hrest
            exact hscanned.trans hrest
          · intro final failure s' hrest
            obtain ⟨lo', hend, hrest⟩ := hrest
            exact ⟨lo', hend, hscanned.trans hrest⟩
        · intro final failure s' hstopped
          exact hstopped
      case isFalse hnot =>
        have hend : lo = toBlock + 1 := by omega
        subst hend
        exact hkept

/-- `sync_into` leaves the number of blocks to its caller. -/
theorem meets_syncInto_scanned
    (hexact : cfg.word.ExactTo (toBlock + cfg.chunk)) (hchunk : 1 ≤ cfg.chunk) :
    Meets (env.observed noteScan) (syncInto cfg lo toBlock) (world, l) s
      (fun final _ s' => FoldsUpTo lo (max lo (toBlock + 1)) l s final.2 s')
      (fun final _ s' => ∃ lo' ≤ toBlock + 1, lo ≤ toBlock ∧
        FoldsUpTo lo lo' l s final.2 s') := by
  simp only [syncInto, meets_bind, meets_modify]
  split
  case isTrue hempty =>
    rw [max_eq_left (by omega)]
    exact .kept rfl rfl rfl
  case isFalse hnot =>
    have hle : lo ≤ toBlock := Nat.le_of_not_lt hnot
    simp only [meets_bind, meets_modify, meets_lifetime]
    intro lifetime after hafter
    obtain ⟨after, recorded⟩ := after
    obtain ⟨-, hrecorded⟩ := hafter
    dsimp only at hrecorded
    rw [max_eq_right (by omega)]
    have hentered : FoldsUpTo lo lo l s recorded
        { s with changed := ∅, inserted := ∅ } :=
      .kept (by rw [hrecorded]; rfl) rfl rfl
    apply meets_mono (meets_syncChunks_scanned hexact (by omega) hchunk)
    · intro final _ s' hdone
      simp only [pruneTransient, meets_modify]
      have hpruned := hentered.trans hdone
      exact ⟨hpruned.le, hpruned.blocks, by
        rw [BalanceMap.pruneZero_cursor, hpruned.cursor], hpruned.reported⟩
    · intro final failure s' hstopped
      obtain ⟨lo', hend, hstopped⟩ := hstopped
      exact ⟨lo', hend, hle, hentered.trans hstopped⟩

/-- What a sync of one range reports, next to what it folded. -/
theorem meets_sync_reported
    (hexact : cfg.word.ExactTo (toBlock + cfg.chunk)) (hchunk : 1 ≤ cfg.chunk) :
    Meets (env.observed noteScan) (sync cfg lo toBlock) (world, .empty) s
      (fun final stats _ =>
        stats.blocks = (if toBlock ≤ lo then 0 else toBlock - lo + 1) ∧
        (foldedBlocks final.2.folded).card = toBlock + 1 - lo)
      (fun _ _ _ => True) := by
  simp only [sync, meets_bind, meets_modify]
  apply meets_mono (meets_syncInto_scanned hexact hchunk)
  · intro final _ s' hdone
    simp only [meets_get, meets_pure]
    constructor
    · rw [hdone.reported]
      unfold startTotals
      dsimp only
      by_cases hle : toBlock ≤ lo
      · rw [if_pos hle, if_pos hle]
      · rw [if_neg hle, if_neg hle, cfg.word.sub_of_le toBlock lo (by omega),
          hexact (toBlock - lo) 1 (by omega)]
    · rw [hdone.blocks]
      simp only [Ledger.empty, foldedBlocks_nil, Finset.empty_union,
        Nat.card_Ico]
      omega
  · intro _ _ _ _
    trivial

/-! ## What an interrupted sync folds -/

/-- Every block past the origin through the cursor was folded, and no other, and
none is waiting to be. -/
structure Caught (origin : ℕ) (l : Ledger) (s : Process) : Prop where
  idle : l.pending = none
  le : origin ≤ s.map.cursor
  blocks : foldedBlocks l.folded =
    Finset.Ico (origin + 1) (s.map.cursor + 1)

theorem Caught.blocks_after {origin : ℕ} (h : Caught origin l s)
    (hscan : FoldsUpTo (s.map.cursor + 1) lo' l s l' s') :
    s'.map.cursor + 1 = lo' ∧
      foldedBlocks l'.folded = Finset.Ico (origin + 1) lo' := by
  have hle := hscan.le
  have hcursor := hscan.cursor
  have horigin := h.le
  constructor
  · by_cases hsame : s.map.cursor + 1 = lo'
    · rw [hcursor, if_pos hsame]
      exact hsame
    · rw [hcursor, if_neg hsame]
      omega
  · rw [hscan.blocks, h.blocks,
      Finset.Ico_union_Ico_eq_Ico (by omega) hle]

theorem meets_syncOnce_scanned (hidle : l.pending = none)
    (hexact : cfg.word.ExactTo (toBlock + cfg.chunk)) (hchunk : 1 ≤ cfg.chunk) :
    Meets (env.observed noteScan) (syncOnce cfg lo toBlock) (world, l) s
      (fun final _ s' => FoldsUpTo lo (max lo (toBlock + 1)) l s final.2 s')
      (fun final _ s' => ∃ lo' ≤ toBlock + 1, lo ≤ toBlock ∧
        FoldsUpTo lo lo' l s final.2 s') := by
  simp only [syncOnce, markSnapshot, meets_bind, meets_instantNow, meets_modify]
  intro now after hafter
  obtain ⟨after, recorded⟩ := after
  obtain ⟨-, hrecorded⟩ := hafter
  dsimp only at hrecorded
  have hfolded : recorded.folded = l.folded := by
    rw [hrecorded]
    change l.folded ++ l.pending.toList = l.folded
    rw [hidle]
    exact List.append_nil _
  have hentered : FoldsUpTo lo lo l s recorded
      { s with lastSnapshot := now, watch := default, changed := ∅ } :=
    .kept hfolded rfl rfl
  apply meets_mono (meets_syncInto_scanned hexact hchunk)
  · intro final _ s' hdone
    exact hentered.trans hdone
  · intro final failure s' hstopped
    obtain ⟨lo', hend, hle, hstopped⟩ := hstopped
    exact ⟨lo', hend, hle, hentered.trans hstopped⟩

theorem meets_waitToRetry_idle {word : Word} {before retries stalled : ℕ}
    {chain : List String} :
    Meets (env.observed noteScan) (waitToRetry word before retries chain stalled)
      (world, l) s
      (fun final _ s' => s'.map = s.map ∧ final.2.pending = none ∧
        final.2.folded = l.folded)
      (fun _ _ _ => True) := by
  simp only [waitToRetry, meets_bind, meets_saveMap]
  intro answer after hafter
  obtain ⟨after, recorded⟩ := after
  obtain ⟨-, hrecorded⟩ := hafter
  dsimp only at hrecorded
  cases answer with
  | ok written =>
      have hkept : recorded.pending = none ∧ recorded.folded = l.folded := by
        rw [hrecorded]
        exact ⟨rfl, rfl⟩
      simp only [meets_get]
      split
      · trivial
      · exact ⟨rfl, hkept⟩
  | error e =>
      have hkept : recorded.pending = none ∧ recorded.folded = l.folded := by
        rw [hrecorded]
        exact ⟨rfl, rfl⟩
      simp only [meets_get]
      split
      · trivial
      · exact ⟨rfl, hkept⟩

theorem meets_report {origin : ℕ}
    (h : s.map.cursor - origin = (foldedBlocks l.folded).card) :
    Meets (env.observed noteScan)
      (do
        let totals ← setBlocks origin
        saveMapOrFail
        pure totals) (world, l) s
      (fun final stats _ =>
        stats.blocks = (foldedBlocks final.2.folded).card)
      (fun _ _ _ => True) := by
  simp only [setBlocks, meets_bind, meets_modify, meets_get,
    meets_saveMapOrFail]
  intro answer after hafter
  obtain ⟨after, recorded⟩ := after
  obtain ⟨-, hrecorded⟩ := hafter
  dsimp only at hrecorded
  cases answer with
  | ok written =>
      have hfolded : recorded.folded = l.folded := by
        rw [hrecorded]
        rfl
      simp only [meets_pure, hfolded]
      exact h
  | error e => trivial

/-- Attempts that begin at the block after the cursor report what they have
folded by the time one returns. -/
theorem meets_syncAttempts_reported {origin retries stalled : ℕ}
    (hexact : cfg.word.ExactTo (toBlock + cfg.chunk)) (hchunk : 1 ≤ cfg.chunk)
    (hcaught : Caught origin l s) :
    Meets (env.observed noteScan)
      (syncAttempts cfg toBlock retries origin fuel (s.map.cursor + 1) stalled)
      (world, l) s
      (fun final stats _ =>
        stats.blocks = (foldedBlocks final.2.folded).card)
      (fun _ _ _ => True) := by
  have hreport : ∀ {k : Ledger} {c : ℕ},
      foldedBlocks k.folded = Finset.Ico (origin + 1) (c + 1) →
      c - origin = (foldedBlocks k.folded).card := by
    intro k c hblocks
    rw [hblocks, Nat.card_Ico]
    omega
  induction fuel generalizing world l s stalled with
  | zero => trivial
  | succ fuel ih =>
      simp only [syncAttempts, meets_bind, meets_get, meets_attempt]
      apply meets_mono (meets_syncOnce_scanned hcaught.idle hexact hchunk)
      · intro final _ s₁ hdone
        obtain ⟨final, recorded⟩ := final
        obtain ⟨hcursor, hblocks⟩ := hcaught.blocks_after hdone
        rw [← hcursor] at hblocks
        simpa only [meets_bind] using meets_report (hreport hblocks)
      · intro final failure s₁ hstopped
        obtain ⟨final, recorded⟩ := final
        obtain ⟨lo', hend, -, hscan⟩ := hstopped
        obtain ⟨hcursor, hblocks⟩ := hcaught.blocks_after hscan
        rw [← hcursor] at hblocks
        have hle := hscan.le
        have horigin := hcaught.le
        cases failure with
        | err chain =>
            rw [meets_bind]
            apply meets_mono meets_waitToRetry_idle
            · intro after stalled' s₂ hwaited
              obtain ⟨after, recorded'⟩ := after
              obtain ⟨hmap, hidle, hfolded⟩ := hwaited
              have hadd : cfg.word.add s₂.map.cursor 1 = s₂.map.cursor + 1 := by
                apply hexact
                rw [hmap]
                omega
              have hagain : Caught origin recorded' s₂ := by
                constructor
                · exact hidle
                · rw [hmap]
                  omega
                · rw [hfolded, hmap]
                  exact hblocks
              simp only [meets_bind, meets_get, hadd]
              split
              · simp only [setBlocks, meets_bind, meets_modify, meets_get,
                  meets_pure]
                exact hreport hagain.blocks
              · exact ih hagain
            · intro _ _ _ _
              trivial
        | panic message => trivial
        | killed => trivial

/-- A bounded sync that leaves no gap behind the cursor, or has nothing to do. -/
theorem meets_runSync_reported {retries : ℕ}
    (hexact : cfg.word.ExactTo (toBlock + cfg.chunk)) (hchunk : 1 ≤ cfg.chunk)
    (hlo : lo = s.map.cursor + 1 ∨ toBlock < lo) :
    Meets (env.observed noteScan) (runSync cfg lo toBlock retries)
      (world, .empty) s
      (fun final stats _ =>
        stats.blocks = (foldedBlocks final.2.folded).card)
      (fun _ _ _ => True) := by
  simp only [runSync, meets_bind, meets_modify, meets_get, meets_lifetime]
  intro fuel after hafter
  obtain ⟨after, recorded⟩ := after
  obtain ⟨-, hrecorded⟩ := hafter
  have hempty : recorded = .empty := hrecorded
  subst hempty
  cases hlo with
  | inl hnext =>
      rw [hnext]
      apply meets_syncAttempts_reported (s := { s with totals := default })
        hexact hchunk
      constructor
      · rfl
      · exact le_rfl
      · simp [Ledger.empty]
  | inr hpast =>
      cases fuel with
      | zero => trivial
      | succ fuel =>
          simp only [syncAttempts, meets_bind, meets_get, meets_attempt]
          apply meets_mono (meets_syncOnce_scanned rfl hexact hchunk)
          · intro final _ s₁ hdone
            obtain ⟨final, recorded⟩ := final
            rw [max_eq_left (by omega)] at hdone
            have hnone : foldedBlocks recorded.folded = ∅ := by
              have hblocks := hdone.blocks
              simpa [Ledger.empty] using hblocks
            have hstill : s₁.map.cursor = s.map.cursor := by
              rw [hdone.cursor, if_pos rfl]
            have hnothing : s₁.map.cursor - s.map.cursor =
                (foldedBlocks recorded.folded).card := by
              rw [hnone, hstill, Nat.sub_self]
              rfl
            simpa only [meets_bind] using meets_report hnothing
          · intro final failure s₁ hstopped
            obtain ⟨lo', -, hle, -⟩ := hstopped
            omega

end Scanning

/-! ## A provider that answers everything -/

section Served

variable {cfg : FollowConfig} {world : Unit} {l : Ledger} {s : Process}
    {lo hi toBlock chunk fuel : ℕ}

theorem served_of_watched {ok : Unit × Ledger → List Log × ℕ × ℕ → Process → Prop}
    {err : Unit × Ledger → Failure → Process → Prop}
    (h : Meets (anything.observed noteScan) (fetchLogs lo fuel hi chunk)
      (world, l) s ok err) :
    ∃ final, ok final ([], hi, chunk) s := by
  cases fuel with
  | zero =>
      simp only [fetchLogs, meets_bind, meets_getLogs, meets_liftRpc,
        meets_pure] at h
      exact ⟨_, (h (.ok []) (world, _) ⟨trivial, rfl⟩).1 [] rfl⟩
  | succ fuel =>
      simp only [fetchLogs, meets_bind, meets_getLogs] at h
      exact ⟨_, h (.ok []) (world, _) ⟨trivial, rfl⟩⟩

theorem snapshot_of_watched {ok : Unit × Ledger → Unit → Process → Prop}
    {err : Unit × Ledger → Failure → Process → Prop}
    (h : Meets (anything.observed noteScan) (maybeSnapshot cfg) (world, l) s
      ok err) :
    ∃ final s', ok final () s' := by
  simp only [maybeSnapshot, meets_bind, meets_get, meets_instantNow] at h
  have hnow := h (0 : ℕ) (world, _) ⟨trivial, rfl⟩
  split at hnow
  · exact ⟨_, _, hnow⟩
  · simp only [meets_bind, meets_saveMapOrFail] at hnow
    have hsaved := hnow (.ok ()) (world, _) ⟨trivial, rfl⟩
    simp only [markSnapshot, meets_bind, meets_instantNow, meets_modify]
      at hsaved
    exact ⟨_, _, hsaved (0 : ℕ) (world, _) ⟨trivial, rfl⟩⟩

theorem chunk_of_watched {ok : Unit × Ledger → ℕ × ℕ → Process → Prop}
    {err : Unit × Ledger → Failure → Process → Prop}
    (h : Meets (anything.observed noteScan) (syncOneChunk cfg lo toBlock chunk)
      (world, l) s ok err) :
    ∃ final next s', ok final next s' := by
  simp only [syncOneChunk, meets_bind] at h
  obtain ⟨⟨world', l'⟩, happly⟩ := served_of_watched h
  simp [applyChunk, applyRange, collectAddresses, collectTouched] at happly
  obtain ⟨final, s', hdone⟩ := snapshot_of_watched happly
  exact ⟨final, _, s', hdone⟩

theorem chunks_of_watched {ok : Unit × Ledger → Unit → Process → Prop}
    {err : Unit × Ledger → Failure → Process → Prop}
    (hexact : cfg.word.ExactTo (toBlock + chunk)) (hchunk : 1 ≤ chunk)
    (hfuel : toBlock < lo + fuel)
    (h : Meets (anything.observed noteScan) (syncChunks cfg toBlock fuel lo chunk)
      (world, l) s ok err) :
    ∃ final s', ok final () s' := by
  induction fuel generalizing lo chunk world l s with
  | zero =>
      unfold syncChunks at h
      rw [if_neg (by omega), meets_pure] at h
      exact ⟨_, _, h⟩
  | succ fuel ih =>
      unfold syncChunks at h
      by_cases hle : lo ≤ toBlock
      · rw [if_pos hle, meets_bind] at h
        obtain ⟨⟨world', l'⟩, next, s₁, hscanned, hrest⟩ := chunk_of_watched
          ((meets_syncOneChunk_scanned hexact hle hchunk).and h)
        obtain ⟨hi, left, hhi, hleft, hless, rfl, -, hrange⟩ := hscanned
        exact ih (hexact.mono (by omega)) hleft (by omega) hrest
      · rw [if_neg hle, meets_pure] at h
        exact ⟨_, _, h⟩

theorem once_of_watched {ok : Unit × Ledger → Unit → Process → Prop}
    {err : Unit × Ledger → Failure → Process → Prop}
    (hexact : cfg.word.ExactTo (toBlock + cfg.chunk)) (hchunk : 1 ≤ cfg.chunk)
    (hto : lo ≤ toBlock)
    (h : Meets (anything.observed noteScan) (syncOnce cfg lo toBlock)
      (world, l) s ok err) :
    ∃ final s', ok final () s' := by
  simp only [syncOnce, markSnapshot, syncInto, meets_bind, meets_instantNow,
    meets_modify, if_neg (Nat.not_lt_of_le hto), meets_lifetime] at h
  have hmarked := h (0 : ℕ) (world, _) ⟨trivial, rfl⟩ (toBlock + 1 : ℕ)
    (world, _) ⟨trivial, rfl⟩
  obtain ⟨final, s₁, hdone⟩ := chunks_of_watched hexact hchunk (by omega) hmarked
  simp only [pruneTransient, meets_modify] at hdone
  exact ⟨final, _, hdone⟩

/-- One attempt that folds the whole range is reported by the way the cursor
went. -/
theorem reported_of_watched {retries : ℕ}
    {ok : Unit × Ledger → SyncStats → Process → Prop}
    {err : Unit × Ledger → Failure → Process → Prop}
    (hexact : cfg.word.ExactTo (toBlock + cfg.chunk)) (hchunk : 1 ≤ cfg.chunk)
    (hto : lo ≤ toBlock)
    (h : Meets (anything.observed noteScan) (runSync cfg lo toBlock retries)
      (world, .empty) s ok err) :
    ∃ final stats s', ok final stats s' ∧
      stats.blocks = toBlock - s.map.cursor ∧
      (foldedBlocks final.2.folded).card = toBlock + 1 - lo := by
  simp only [runSync, meets_bind, meets_modify, meets_get, meets_lifetime] at h
  have hentered := h (1 : ℕ) (world, _) ⟨trivial, rfl⟩
  simp only [syncAttempts, meets_bind, meets_get, meets_attempt] at hentered
  obtain ⟨⟨world', recorded⟩, s₁, hscan, hdone⟩ := once_of_watched hexact hchunk
    hto ((meets_syncOnce_scanned rfl hexact hchunk).and hentered)
  rw [max_eq_right (by omega)] at hscan
  simp only [setBlocks, meets_bind, meets_modify, meets_get,
    meets_saveMapOrFail] at hdone
  have hsaved := hdone (.ok ()) (world', _) ⟨trivial, rfl⟩
  simp only [meets_pure] at hsaved
  refine ⟨_, _, _, hsaved, ?_, ?_⟩
  · dsimp only
    rw [hscan.cursor, if_neg (by omega)]
    rfl
  · change (foldedBlocks recorded.folded).card = _
    have hblocks : foldedBlocks recorded.folded = Finset.Ico lo (toBlock + 1) := by
      rw [hscan.blocks]
      change foldedBlocks [] ∪ _ = _
      rw [foldedBlocks_nil, Finset.empty_union]
    rw [hblocks, Nat.card_Ico]

end Served

/-- The figure of every sync of a range that returns, and of every bounded sync
of it, against any provider. -/
theorem reported_blocks_iff (cfg : FollowConfig) (s : Process)
    (lo toBlock retries : ℕ) (hchunk : 1 ≤ cfg.chunk)
    (hexact : cfg.word.ExactTo (toBlock + cfg.chunk)) :
    (∀ {ω : Type} (env : Environment Request Answer ω) (world : ω)
      (final : ω × Ledger) (stats : SyncStats) (s' : Process),
      (sync cfg lo toBlock).Runs (env.observed noteScan) (world, .empty) s final
          (.ok stats) s' →
        (foldedBlocks final.2.folded).card = toBlock + 1 - lo ∧
        (stats.blocks = (foldedBlocks final.2.folded).card ↔ lo ≠ toBlock)) ∧
    ((∀ {ω : Type} (env : Environment Request Answer ω) (world : ω)
      (final : ω × Ledger) (stats : SyncStats) (s' : Process),
      (runSync cfg lo toBlock retries).Runs (env.observed noteScan)
          (world, .empty) s final (.ok stats) s' →
        stats.blocks = (foldedBlocks final.2.folded).card) ↔
      lo = s.map.cursor + 1 ∨ toBlock < lo) := by
  constructor
  · intro ω env world final stats s' hrun
    have hreported : stats.blocks =
          (if toBlock ≤ lo then 0 else toBlock - lo + 1) ∧
        (foldedBlocks final.2.folded).card = toBlock + 1 - lo :=
      (meets_sync_reported hexact hchunk).of_ok hrun
    obtain ⟨hblocks, hcard⟩ := hreported
    constructor
    · exact hcard
    · rw [hblocks, hcard]
      split <;> omega
  · constructor
    · intro hall
      by_contra hgap
      rw [not_or] at hgap
      have hmeets : Meets (anything.observed noteScan)
          (runSync cfg lo toBlock retries) ((), .empty) s
          (fun final stats _ =>
            stats.blocks = (foldedBlocks final.2.folded).card)
          (fun _ _ _ => True) := by
        rw [meets_iff_forall_runs]
        constructor
        · intro final stats s' hrun
          exact hall anything () final stats s' hrun
        · intro _ _ _ _
          trivial
      obtain ⟨final, stats, s', hsame, hblocks, hcard⟩ :=
        reported_of_watched hexact hchunk (Nat.le_of_not_lt hgap.2) hmeets
      rw [hblocks, hcard] at hsame
      omega
    · intro hlo ω env world final stats s' hrun
      exact (meets_runSync_reported hexact hchunk hlo).of_ok hrun

/-! ### A single block, and a gap -/

namespace FailsOnce

def scanned (p : Sync SyncStats) (asked : ℕ) :
    (Except Failure SyncStats × Process) × (ℕ × Ledger) :=
  p.exec (noted answer noteScan) (asked, .empty) start

theorem respects (asked : ℕ) (q : Request) :
    env asked q (answer asked q).1 (answer asked q).2 :=
  rfl

/-- A run that returns, with the number it reports. -/
theorem runs_scanned {p : Sync SyncStats} {asked blocks : ℕ}
    (h : (scanned p asked).1.1.map SyncStats.blocks = .ok blocks) :
    ∃ stats, stats.blocks = blocks ∧
      p.Runs (env.observed noteScan) (asked, .empty) start
        (scanned p asked).2 (.ok stats) (scanned p asked).1.2 := by
  cases houtcome : (scanned p asked).1.1 with
  | error failure =>
      rw [houtcome] at h
      cases h
  | ok stats =>
      rw [houtcome] at h
      refine ⟨stats, Except.ok.inj h, ?_⟩
      unfold scanned at houtcome ⊢
      exact runs_exec_noted id p asked Ledger.empty start respects houtcome

/-- The first question for logs of the sync of blocks 10 and 11 is answered and
the second is not; the sync goes on and reports both blocks. -/
theorem reported_blocks_iff_resumed :
    (foldedBlocks (scanned (runSync (chunked 1) 10 11 0) 0).2.2.folded).card =
      2 := by
  have hexact : (chunked 1).word.ExactTo (11 + (chunked 1).chunk) :=
    Word.exactTo_of_lt (by decide)
  have hreports : (scanned (runSync (chunked 1) 10 11 0) 0).1.1.map
      SyncStats.blocks = .ok 2 := by
    decide +kernel
  obtain ⟨stats, hblocks, hrun⟩ := runs_scanned hreports
  rw [← hblocks]
  exact ((reported_blocks_iff (chunked 1) start 10 11 0 (by decide) hexact).2.mpr
    (.inl rfl) env 0 _ stats _ hrun).symm

/-- One block was folded and none is reported; two blocks were folded past a gap
and seven are. -/
theorem misreported_blocks :
    (∃ stats s' final, (sync (chunked 1) 10 10).Runs (env.observed noteScan)
        (2, .empty) start final (.ok stats) s' ∧ stats.blocks = 0 ∧
      (foldedBlocks final.2.folded).card = 1) ∧
    ∃ stats s' final, (runSync (chunked 1) 15 16 0).Runs (env.observed noteScan)
        (2, .empty) start final (.ok stats) s' ∧ stats.blocks = 7 ∧
      (foldedBlocks final.2.folded).card = 2 := by
  constructor
  · have hreports : (scanned (sync (chunked 1) 10 10) 2).1.1.map
        SyncStats.blocks = .ok 0 := by
      decide +kernel
    obtain ⟨stats, hblocks, hrun⟩ := runs_scanned hreports
    exact ⟨stats, _, _, hrun, hblocks, by decide +kernel⟩
  · have hreports : (scanned (runSync (chunked 1) 15 16 0) 2).1.1.map
        SyncStats.blocks = .ok 7 := by
      decide +kernel
    obtain ⟨stats, hblocks, hrun⟩ := runs_scanned hreports
    exact ⟨stats, _, _, hrun, hblocks, by decide +kernel⟩

end FailsOnce

end UsdtPir
