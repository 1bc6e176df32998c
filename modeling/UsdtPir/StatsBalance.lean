import UsdtPir.RangeTallies

/-!
# The account of a sync

Two quantities are kept by every chunk, and so by every sync, however it ends:
the entries of the map less those inserted plus those removed, and the touched
addresses less those settled.
-/

namespace UsdtPir

open Interaction
open Program

/-- The touched addresses a sync has settled. -/
def SyncStats.settled (totals : SyncStats) : ℕ :=
  totals.inserted + totals.updated + totals.removed + totals.unchanged +
    totals.skippedNewZero

theorem SyncStats.settled_fold (totals : SyncStats) (stats : BatchStats) :
    (totals.fold stats).settled = totals.settled + stats.settled := by
  simp only [fold, settled, BatchStats.settled]
  omega

/-- The account between two states. -/
structure Balanced (s s' : Process) : Prop where
  len : s'.map.len + s'.totals.removed + s.totals.inserted =
    s.map.len + s'.totals.inserted + s.totals.removed
  settled : s'.totals.touched + s.totals.settled =
    s.totals.touched + s'.totals.settled
  pruned : s'.totals.pruned = 0 ∨ s'.totals.pruned = s.totals.pruned

theorem Balanced.of_eq {s s' : Process} (hmap : s'.map = s.map)
    (htotals : s'.totals = s.totals) : Balanced s s' := by
  constructor
  · rw [hmap, htotals]
    omega
  · rw [htotals]
  · rw [htotals]
    exact .inr rfl

theorem Balanced.trans {s s₁ s' : Process} (h : Balanced s s₁)
    (h' : Balanced s₁ s') : Balanced s s' := by
  constructor
  · have hfirst := h.len
    have hlater := h'.len
    omega
  · have hfirst := h.settled
    have hlater := h'.settled
    omega
  · rcases h'.pruned with hzero | hsame
    · exact .inl hzero
    · rw [hsame]
      exact h.pruned

section Sync

variable {truth : (q : Request) → Answer q → Prop} {cfg : FollowConfig}
    {lo hi lo' toBlock : ℕ} {s s' : Process}

/-- A range settles every address it touched. -/
theorem RangeApplied.settled {logs : List Log} {at_ : ℕ} {stats : BatchStats}
    {addrs : List Address} {touched : HashMap Address Touch}
    {rows : List (Address × Reading)}
    (h : RangeApplied truth logs at_ s s' stats addrs touched rows) :
    stats.settled = stats.touched := by
  rcases h.applied with ⟨out, happlied, hstats, -⟩
  rcases applyReadings_settled happlied with ⟨hsettled, htouched⟩
  have hperm : (rows.map Prod.fst).Perm touched.keys := by
    apply (List.perm_ext_iff_of_nodup h.nodup touched.keys_nodup).mpr
    intro a
    rw [h.keys, AList.mem_keys]
  have hlength : rows.length = touched.keys.length := by
    rw [← hperm.length_eq, List.length_map]
  rw [hstats, hsettled, htouched, hlength]
  show 0 + touched.keys.length = touched.keys.length
  exact Nat.zero_add _

theorem ChunkApplied.balanced (h : ChunkApplied truth lo hi s s') :
    Balanced s s' := by
  rcases h with ⟨logs, stats, addrs, touched, rows, s₁, -, hrange, hs', -⟩
  rcases hrange.applied with ⟨out, happlied, hstats, -⟩
  have hlen := applyReadings_len happlied
  have hsettled := hrange.settled
  rw [hs']
  constructor
  · show s₁.map.len + (s.totals.removed + stats.removed) + s.totals.inserted =
      s.map.len + (s.totals.inserted + stats.inserted) + s.totals.removed
    rw [hstats]
    change s₁.map.len + out.stats.removed + 0 =
      s.map.len + out.stats.inserted + 0 at hlen
    omega
  · show s.totals.touched + stats.touched + s.totals.settled =
      s.totals.touched + (s.totals.fold stats).settled
    rw [SyncStats.settled_fold, hsettled]
    omega
  · exact .inr rfl

theorem Chunks.balanced (h : Chunks truth cfg toBlock lo s lo' s') :
    Balanced s s' := by
  induction h with
  | nil lo s => exact .of_eq rfl rfl
  | cons hlo hhi hchunk hrest ih => exact hchunk.balanced.trans ih

/-- Pruning finds nothing, so it leaves the account as it is. -/
theorem Chunks.balanced_pruned
    (h : Chunks truth cfg toBlock lo s.startSync lo' s') :
    Balanced s (s'.pruned cfg) := by
  have hstart : Balanced s s.startSync := .of_eq rfl rfl
  have hchunks := hstart.trans h.balanced
  rcases h.journaled with ⟨new, hnew⟩
  have hnone := hnew.pruned_eq
  have hinserted : (s'.pruned cfg).totals.inserted = s'.totals.inserted := by
    show cfg.word.sub s'.totals.inserted _ = _
    rw [hnone, cfg.word.sub_of_le _ _ (Nat.zero_le _), Nat.sub_zero]
  have hmap : (s'.pruned cfg).map = s'.map := congrArg Prod.snd hnone
  constructor
  · rw [hmap, hinserted]
    exact hchunks.len
  · have hsettled := hchunks.settled
    simp only [SyncStats.settled, hinserted] at hsettled ⊢
    exact hsettled
  · exact .inl (congrArg Prod.fst hnone)

end Sync

/-- However a sync ends, the account is kept. -/
theorem meets_syncInto_balanced {ω : Type} {env : Environment Request Answer ω}
    {world : ω} {cfg : FollowConfig} {lo toBlock : ℕ} {s : Process} :
    Meets env (syncInto cfg lo toBlock) world s (fun _ _ s' => Balanced s s')
      (fun _ _ s' => Balanced s s') := by
  by_cases hlo : lo ≤ toBlock
  · apply meets_mono (meets_syncInto env.keeps_gives hlo)
    · intro final result s' hdone
      rcases hdone with ⟨lo', s₁, -, hchunks, hs'⟩
      rw [hs']
      exact hchunks.balanced_pruned
    · intro final failure s' hfailed
      rcases hfailed with ⟨lo', hchunks⟩
      have hstart : Balanced s s.startSync := .of_eq rfl rfl
      exact hstart.trans hchunks.balanced
  · apply meets_mono (meets_syncInto_empty (by omega))
    · intro final result s' hs'
      rw [hs']
      exact .of_eq rfl rfl
    · intro _ _ _ hfalse
      exact hfalse.elim

/-- Calls of `sync_into` one after the other, whatever their settings and their
outcome, with the same map and the same totals passed to each. -/
inductive SyncCalls : Process → Process → Prop
  | none (s : Process) : SyncCalls s s
  | call {s s₁ s₂ s' : Process} {ω : Type} {env : Environment Request Answer ω}
      {world final : ω} {cfg : FollowConfig} {lo toBlock : ℕ}
      {outcome : Except Failure Unit} (hcalls : SyncCalls s s₁)
      (hmap : s₂.map = s₁.map) (htotals : s₂.totals = s₁.totals)
      (hrun : (syncInto cfg lo toBlock).Runs env world s₂ final outcome s') :
      SyncCalls s s'

theorem SyncCalls.balanced {s s' : Process} (h : SyncCalls s s') :
    Balanced s s' := by
  induction h with
  | none => exact .of_eq rfl rfl
  | @call s₁ s₂ s' ω env world final cfg lo toBlock outcome hcalls hmap htotals
      hrun ih =>
      apply (ih.trans (.of_eq hmap htotals)).trans
      cases outcome with
      | ok result => exact meets_syncInto_balanced.of_ok hrun
      | error failure => exact meets_syncInto_balanced.of_error hrun

/-- The increase of a counter of the totals. -/
def increase (counter : SyncStats → ℕ) (s s' : Process) : ℤ :=
  (counter s'.totals : ℤ) - counter s.totals

/-- Over any sequence of syncs with one `SyncStats`, the map grows by what was
inserted less what was removed, and every touched address is settled once. -/
theorem statistics_balance {s s' : Process} (hcalls : SyncCalls s s')
    (hpruned : s.totals.pruned = 0) :
    (s'.map.len : ℤ) = s.map.len + increase SyncStats.inserted s s' -
      increase SyncStats.removed s s' ∧
    increase SyncStats.touched s s' =
      increase SyncStats.inserted s s' + increase SyncStats.updated s s' +
        increase SyncStats.removed s s' + increase SyncStats.unchanged s s' +
        increase SyncStats.skippedNewZero s s' + s'.totals.pruned := by
  have hbalanced := hcalls.balanced
  have hzero : s'.totals.pruned = 0 := by
    rcases hbalanced.pruned with hzero | hsame
    · exact hzero
    · rw [hsame, hpruned]
  have hlen := hbalanced.len
  have hsettled := hbalanced.settled
  simp only [SyncStats.settled] at hsettled
  simp only [increase, hzero]
  constructor
  · omega
  · omega

namespace DrainRefundDrain

/-- The provider serves no logs past block 3. -/
def noMoreLogs : (q : Request) → Option (Answer q)
  | .getLogs f =>
      if 3 < f.fromBlock then some (Except.error ⟨"timeout"⟩) else none
  | _ => none

def failed : (Except Failure Unit × Process) × Unit :=
  (syncInto config 4 6).exec (chain.respondUnless noMoreLogs 3 3) () finish

/-- A sync that inserts and removes the holder, then one that fails. -/
theorem statistics_balance_drained :
    (failed.1.2.map.len : ℤ) = start.map.len +
      increase SyncStats.inserted start failed.1.2 -
        increase SyncStats.removed start failed.1.2 ∧
    increase SyncStats.touched start failed.1.2 =
      increase SyncStats.inserted start failed.1.2 +
        increase SyncStats.updated start failed.1.2 +
        increase SyncStats.removed start failed.1.2 +
        increase SyncStats.unchanged start failed.1.2 +
        increase SyncStats.skippedNewZero start failed.1.2 +
        failed.1.2.totals.pruned :=
  statistics_balance
    (.call (.call (.none start) rfl rfl runs) rfl rfl
      (runs_answering (chain.respondUnless noMoreLogs 3 3)
        (syncInto config 4 6) () finish rfl))
    rfl

/-- The two drains are counted, and the refund between them. -/
example : failed.1.1 = .error (.err ["timeout"]) ∧
    failed.1.2.totals.removed = 2 ∧ failed.1.2.totals.inserted = 1 := by
  decide +kernel

end DrainRefundDrain

end UsdtPir
