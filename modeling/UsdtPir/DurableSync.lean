import UsdtPir.Observation
import UsdtPir.SyncCommand
import UsdtPir.FaithfulProvider

/-!
# What a finished sync leaves on disk

The writes to the snapshot file are noted with their outcome.  A sync can return
in two ways: after an attempt that succeeded, with a write whose error it passes
on, or after one that failed at the very end, with a write whose error it only
logs.
-/

namespace UsdtPir

open Interaction
open Program

/-- The map that was to be written, and whether it was. -/
abbrev Write := BalanceMap × Bool

def noteWrite (writes : List Write) :
    (q : Request) → Answer q → List Write
  | .save map, .ok () => writes ++ [(map, true)]
  | .save map, .error _ => writes ++ [(map, false)]
  | _, _ => writes

/-- The next block to ask for is not past the end. -/
def Unfinished (cfg : FollowConfig) (toBlock : ℕ) (s : Process) : Prop :=
  cfg.word.add s.map.cursor 1 ≤ toBlock

def LastWriteFailed (writes : List Write) (s : Process) : Prop :=
  ∃ earlier, writes = earlier ++ [(s.map, false)]

section Rules

variable {ω : Type} {env : Environment Request Answer ω} {world : ω}
    {writes : List Write} {s : Process} {cfg : FollowConfig}
    {lo toBlock chunk fuel : ℕ}

theorem keeps_true {κ : Type} {env : Environment Request Answer κ} :
    env.Keeps fun _ _ => True :=
  fun _ _ _ _ _ => trivial

theorem cursor_eq_of_past {cursor : ℕ} (hto : toBlock < 2 ^ 64)
    (hle : cursor ≤ toBlock) (hpast : ¬ cfg.word.add cursor 1 ≤ toBlock) :
    cursor = toBlock := by
  by_cases hroom : cursor + 1 < 2 ^ 64
  · rw [cfg.word.add_of_lt _ _ hroom] at hpast
    omega
  · omega

theorem meets_saveMap_noted :
    Meets (env.observed noteWrite) saveMap (world, writes) s
      (fun final result s' =>
        (result = .ok () ∧ final.2 = writes ++ [(s.map, true)] ∧
          s' = { s with saved := some s.map }) ∨
        (∃ e, result = .error e ∧ final.2 = writes ++ [(s.map, false)] ∧
          s' = s))
      (fun _ _ _ => False) := by
  rw [meets_saveMap]
  rintro answer ⟨after, recorded⟩ ⟨-, hrecorded⟩
  cases answer with
  | ok written => exact .inl ⟨rfl, hrecorded, rfl⟩
  | error e => exact .inr ⟨e, rfl, hrecorded, rfl⟩

theorem meets_maybeSnapshot_noted :
    Meets (env.observed noteWrite) (maybeSnapshot cfg) (world, writes) s
      (fun _ _ s' => s'.map = s.map)
      (fun final _ s' => s'.map = s.map ∧ LastWriteFailed final.2 s') := by
  simp only [maybeSnapshot, meets_bind, meets_get, meets_instantNow]
  rintro now ⟨after, recorded⟩ ⟨-, hrecorded⟩
  split
  · simp
  · simp only [meets_bind, meets_saveMapOrFail]
    rintro answer ⟨after', recorded'⟩ ⟨-, hrecorded'⟩
    cases answer with
    | ok written => simp [markSnapshot]
    | error e =>
        have hlast : LastWriteFailed recorded' s := ⟨recorded, hrecorded'⟩
        simp [hlast]

/-- A chunk that fails leaves the map, or fails at its snapshot. -/
theorem meets_syncOneChunk_noted :
    Meets (env.observed noteWrite) (syncOneChunk cfg lo toBlock chunk)
      (world, writes) s
      (fun _ next s' => s'.map.cursor ≤ toBlock ∧
        next.1 = cfg.word.add s'.map.cursor 1)
      (fun final _ s' => s'.map = s.map ∨
        s'.map.cursor ≤ toBlock ∧ LastWriteFailed final.2 s') := by
  simp only [syncOneChunk, meets_bind]
  refine meets_mono (meets_fetchLogs keeps_true) ?_ ?_
  · rintro middle ⟨logs, hi, left⟩ s₁ ⟨rfl, -, hle⟩
    have hto : hi ≤ toBlock := hle.trans (min_le_right _ _)
    simp only [applyChunk, meets_bind]
    refine meets_mono (meets_applyRange keeps_true) ?_ ?_
    · rintro ⟨after, recorded⟩ ⟨stats, addrs⟩ s₂ -
      simp only [meets_modify, meets_pure]
      refine meets_mono meets_maybeSnapshot_noted ?_ ?_
      · intro final _ s' hmap
        rw [hmap]
        exact ⟨hto, rfl⟩
      · rintro final failure s' ⟨hmap, hfailed⟩
        right
        refine ⟨?_, hfailed⟩
        rw [hmap]
        exact hto
    · rintro final failure s' ⟨rfl, -⟩
      exact .inl rfl
  · rintro final failure s' ⟨rfl, -⟩
    exact .inl rfl

/-- Chunks that are finished reached the end.  Where they fail the end is not
reached, or the last write failed there. -/
theorem meets_syncChunks_noted (hto : toBlock < 2 ^ 64)
    (hle : s.map.cursor ≤ toBlock) (hs : lo ≤ toBlock → Unfinished cfg toBlock s) :
    Meets (env.observed noteWrite) (syncChunks cfg toBlock fuel lo chunk)
      (world, writes) s
      (fun _ _ s' => (toBlock < lo ∧ s' = s) ∨ s'.map.cursor = toBlock)
      (fun final _ s' => s'.map.cursor ≤ toBlock ∧
        (Unfinished cfg toBlock s' ∨ LastWriteFailed final.2 s')) := by
  induction fuel generalizing lo chunk world writes s with
  | zero =>
      unfold syncChunks
      split
      · rename_i hlo
        rw [meets_throw]
        exact ⟨hle, .inl (hs hlo)⟩
      · rename_i hlo
        rw [meets_pure]
        exact .inl ⟨Nat.lt_of_not_le hlo, rfl⟩
  | succ fuel ih =>
      unfold syncChunks
      split
      · rename_i hlo
        rw [meets_bind]
        refine meets_mono meets_syncOneChunk_noted ?_ ?_
        · rintro ⟨middle, recorded⟩ ⟨next, left⟩ s₁ ⟨hcursor, rfl⟩
          dsimp only
          refine meets_mono (ih hcursor fun hnext => hnext) ?_ ?_
          · rintro final _ s' (⟨hpast, rfl⟩ | hreached)
            · right
              exact cursor_eq_of_past hto hcursor (Nat.not_le_of_lt hpast)
            · exact .inr hreached
          · intro final failure s' hfailed
            exact hfailed
        · rintro final failure s' (hmap | ⟨hcursor, hfailed⟩)
          · rw [Unfinished, hmap]
            exact ⟨hle, .inl (hs hlo)⟩
          · exact ⟨hcursor, .inr hfailed⟩
      · rename_i hlo
        rw [meets_pure]
        exact .inl ⟨Nat.lt_of_not_le hlo, rfl⟩

theorem meets_syncOnce_noted (hto : toBlock < 2 ^ 64) (hlo : lo ≤ toBlock)
    (hle : s.map.cursor ≤ toBlock) (hs : Unfinished cfg toBlock s) :
    Meets (env.observed noteWrite) (syncOnce cfg lo toBlock) (world, writes) s
      (fun _ _ s' => s'.map.cursor = toBlock)
      (fun final _ s' => s'.map.cursor ≤ toBlock ∧
        (Unfinished cfg toBlock s' ∨ LastWriteFailed final.2 s')) := by
  simp only [syncOnce, markSnapshot, meets_bind, meets_instantNow, meets_modify]
  rintro now ⟨after, recorded⟩ -
  simp only [syncInto, meets_bind, meets_modify, if_neg (Nat.not_lt_of_le hlo),
    meets_lifetime]
  rintro lifetime ⟨after', recorded'⟩ -
  refine meets_mono (meets_syncChunks_noted hto hle fun _ => hs) ?_
    (fun _ _ _ h => h)
  rintro final _ s' (⟨hpast, -⟩ | hreached)
  · omega
  · simp only [pruneTransient, meets_modify]
    rw [BalanceMap.pruneZero_cursor]
    exact hreached

/-- The last write went through, or the last two failed at the end. -/
def EndsDurable (toBlock : ℕ) (writes : List Write) (s : Process) : Prop :=
  s.map.cursor = toBlock ∧
    ((s.saved = some s.map ∧ ∃ earlier, writes = earlier ++ [(s.map, true)]) ∨
      ∃ earlier m, m.cursor = toBlock ∧
        writes = earlier ++ [(m, false), (s.map, false)])

theorem meets_syncAttempts_noted {retries origin start stalled : ℕ}
    (hto : toBlock < 2 ^ 64) (hstart : start ≤ toBlock)
    (hle : s.map.cursor ≤ toBlock) (hs : Unfinished cfg toBlock s) :
    Meets (env.observed noteWrite)
      (syncAttempts cfg toBlock retries origin fuel start stalled)
      (world, writes) s
      (fun final _ s' => EndsDurable toBlock final.2 s') (fun _ _ _ => True) := by
  induction fuel generalizing start stalled world writes s with
  | zero => trivial
  | succ fuel ih =>
      simp only [syncAttempts, meets_bind, meets_get, meets_attempt]
      refine meets_mono (meets_syncOnce_noted hto hstart hle hs) ?_ ?_
      · rintro ⟨middle, recorded⟩ _ s₁ hreached
        simp only [setBlocks, meets_bind, meets_modify, meets_get, meets_pure,
          meets_saveMapOrFail]
        rintro answer ⟨after, recorded'⟩ ⟨-, hrecorded⟩
        cases answer with
        | ok written =>
            exact ⟨hreached, .inl ⟨rfl, recorded, hrecorded⟩⟩
        | error e => trivial
      · rintro ⟨middle, recorded⟩ failure s₁ ⟨hcursor, hfailed⟩
        cases failure with
        | err chain =>
            simp only [meets_bind, waitToRetry]
            refine meets_mono meets_saveMap_noted ?_ (fun _ _ _ h => h.elim)
            rintro ⟨after, recorded'⟩ written s₂ hwritten
            have hmap : s₂.map = s₁.map := by
              rcases hwritten with ⟨-, -, rfl⟩ | ⟨e, -, -, rfl⟩
              · rfl
              · rfl
            simp only [meets_get]
            split
            · trivial
            · simp only [meets_pure]
              split
              · rename_i hpast
                rw [hmap] at hpast
                have hlast : LastWriteFailed recorded s₁ := by
                  rcases hfailed with hunfinished | hlast
                  · exact absurd hunfinished (Nat.not_le_of_lt hpast)
                  · exact hlast
                have hreached : s₁.map.cursor = toBlock :=
                  cursor_eq_of_past hto hcursor (Nat.not_le_of_lt hpast)
                simp only [setBlocks, meets_bind, meets_modify, meets_get,
                  meets_pure]
                rcases hwritten with ⟨-, hrecorded, rfl⟩ | ⟨e, -, hrecorded, rfl⟩
                · exact ⟨hreached, .inl ⟨rfl, recorded, hrecorded⟩⟩
                · rcases hlast with ⟨earlier, hearlier⟩
                  refine ⟨hreached, .inr ⟨earlier, s₂.map, hreached, ?_⟩⟩
                  dsimp only at hrecorded hearlier ⊢
                  rw [hrecorded, hearlier, List.append_assoc]
                  rfl
              · rename_i hnext
                have hnext' : cfg.word.add s₂.map.cursor 1 ≤ toBlock :=
                  Nat.le_of_not_lt hnext
                apply ih hnext'
                · rw [hmap]
                  exact hcursor
                · exact hnext'
        | panic message => trivial
        | killed => trivial

theorem prepareReplay_cursor_lt {word : Word} {map map' : BalanceMap}
    {arg : Option ℕ} (h : prepareReplay word map arg = (lo, map'))
    (hlo : 1 ≤ lo) : map'.cursor < lo := by
  unfold prepareReplay at h
  dsimp only at h
  split at h
  · rw [Prod.mk.injEq] at h
    rcases h with ⟨hfirst, rfl⟩
    dsimp only
    omega
  · rename_i hahead
    rw [Prod.mk.injEq] at h
    rcases h with ⟨hfirst, rfl⟩
    omega

theorem meets_runSync_noted {retries : ℕ} (hto : toBlock < 2 ^ 64)
    (hlo : lo ≤ toBlock) (hcursor : s.map.cursor < lo) :
    Meets (env.observed noteWrite) (runSync cfg lo toBlock retries)
      (world, writes) s
      (fun final _ s' => EndsDurable toBlock final.2 s') (fun _ _ _ => True) := by
  simp only [runSync, meets_bind, meets_modify, meets_get, meets_lifetime]
  rintro lifetime ⟨after, recorded⟩ -
  apply meets_syncAttempts_noted hto hlo
  · dsimp only
    omega
  · unfold Unfinished
    dsimp only
    rw [cfg.word.add_of_lt _ _ (by omega)]
    omega

end Rules

/-- The last write went through and holds the map, which is at the end. -/
def HeldOnDisk (toBlock : ℕ) (writes : List Write) (s : Process) : Prop :=
  s.map.cursor = toBlock ∧ s.saved = some s.map ∧
    ∃ earlier, writes = earlier ++ [(s.map, true)]

/-- The snapshot of the chunk that reached the end and the write after the
attempt both failed. -/
def EndsUnwritten (toBlock : ℕ) (writes : List Write) : Prop :=
  ∃ earlier m m', m.cursor = toBlock ∧ m'.cursor = toBlock ∧
    writes = earlier ++ [(m, false), (m', false)]

/-- A sync that returns `Ok` is on disk exactly when its writes do not end with
two failures at the last block. -/
theorem runSync_durable_iff {ω : Type} {env : Environment Request Answer ω}
    {world final : ω} {writes : List Write} {s s' : Process}
    {cfg : FollowConfig} {lo toBlock retries : ℕ} {stats : SyncStats}
    (arg : Option ℕ) (map : BalanceMap)
    (hprepared : prepareReplay cfg.word map arg = (lo, s.map))
    (hlo : 1 ≤ lo) (hle : lo ≤ toBlock) (hto : toBlock < 2 ^ 64)
    (hrun : (runSync cfg lo toBlock retries).Runs (env.observed noteWrite)
      (world, []) s (final, writes) (.ok stats) s') :
    HeldOnDisk toBlock writes s' ↔ ¬ EndsUnwritten toBlock writes := by
  have hcursor := prepareReplay_cursor_lt hprepared hlo
  have hends : EndsDurable toBlock writes s' :=
    (meets_runSync_noted hto hle hcursor).of_ok hrun
  constructor
  · rintro ⟨-, -, earlier, hlast⟩ ⟨earlier', m, m', -, -, hfailed⟩
    rw [hlast] at hfailed
    have hlasts := congrArg List.getLast? hfailed
    simp at hlasts
  · intro hwritten
    rcases hends with ⟨hreached, ⟨hsaved, hlast⟩ | ⟨earlier, m, hm, hfailed⟩⟩
    · exact ⟨hreached, hsaved, hlast⟩
    · exact absurd ⟨earlier, m, s'.map, hm, hreached, hfailed⟩ hwritten

/-- Every sync that returns `Ok` would be on disk. -/
def DurableSyncs {ω : Type} (env : Environment Request Answer ω) : Prop :=
  ∀ {world final : ω} {writes : List Write} {s s' : Process}
    {cfg : FollowConfig} {lo toBlock retries : ℕ} {stats : SyncStats}
    (arg : Option ℕ) (map : BalanceMap),
    prepareReplay cfg.word map arg = (lo, s.map) → 1 ≤ lo → lo ≤ toBlock →
      toBlock < 2 ^ 64 →
      (runSync cfg lo toBlock retries).Runs (env.observed noteWrite)
        (world, []) s (final, writes) (.ok stats) s' →
      HeldOnDisk toBlock writes s'

/-! ### A disk that is full -/

namespace DiskFull

def holder : Address :=
  FixedBytes.filled 20 0xaa

/-- The holder receives 5 in block 1. -/
def chain : Chain :=
  Chain.sketch (fun b => if b = 1 then [holder] else [])
    (fun a b => if a = holder ∧ 1 ≤ b then 5 else 0) (fun _ => 0)

def config : FollowConfig :=
  ⟨50, 600, .finalized, 64, .wrapping⟩

def start : Process :=
  { Process.launched (BalanceMap.new 0) with saved := none }

/-- The clock moves on by a quarter of an hour whenever it is read, and the disk
is full or not. -/
def respond (full : Bool) (clock : ℕ) : (q : Request) → Answer q × ℕ
  | .instantNow => (900 * clock, clock + 1)
  | .save map =>
      (if full then Except.error ⟨"No space left on device"⟩
        else (chain.respond 1 3 () (.save map)).1, clock)
  | q => ((chain.respond 1 3 () q).1, clock)

def finish (full : Bool) :
    (Except Failure SyncStats × Process) × (ℕ × List Write) :=
  (runSync config 1 1 10).exec (noted (respond full) noteWrite) (0, []) start

theorem balance_lt (token a : Address) (b : ℕ) :
    chain.balance token a b < 2 ^ 256 := by
  apply Chain.sketch_balance_lt
  intro a b
  split
  · decide
  · decide

theorem says_respond (full : Bool) (clock : ℕ) (q : Request) :
    chain.Says 1 q (respond full clock q).1 := by
  cases q with
  | instantNow => exact ⟨trivial, trivial⟩
  | save map => exact ⟨trivial, trivial⟩
  | _ => exact chain.says_respond balance_lt 1 3 () _

theorem finish_ok (full : Bool) : ∃ stats, (finish full).1.1 = .ok stats := by
  cases full with
  | true =>
      refine ⟨⟨1, 1, 1, 1, 1, 0, 0, 0, 0, 0⟩, ?_⟩
      decide +kernel
  | false =>
      refine ⟨⟨1, 1, 1, 1, 1, 0, 0, 0, 0, 0⟩, ?_⟩
      decide +kernel

theorem run (full : Bool) : ∃ stats, (runSync config 1 1 10).Runs
    ((Environment.of (chain.Says 1)).observed noteWrite) ((), []) start
    ((), (finish full).2.2) (.ok stats) (finish full).1.2 := by
  rcases finish_ok full with ⟨stats, hstats⟩
  unfold finish at hstats ⊢
  exact ⟨stats, Program.runs_exec_noted (fun _ => ()) (runSync config 1 1 10) 0
    [] start (says_respond full) hstats⟩

theorem runSync_durable_written :
    HeldOnDisk 1 (finish false).2.2 (finish false).1.2 ↔
      ¬ EndsUnwritten 1 (finish false).2.2 := by
  rcases run false with ⟨stats, hrun⟩
  exact runSync_durable_iff (some 1) (BalanceMap.new 0) rfl le_rfl
    le_rfl (by decide) hrun

theorem saved_none : (finish true).1.2.saved = none := by
  decide +kernel

/-- Nothing was ever written, and the sync returns `Ok`. -/
theorem sync_returns_without_write :
    ¬ DurableSyncs (Environment.of (chain.Says 1)) := by
  intro hdurable
  rcases run true with ⟨stats, hrun⟩
  have hheld := hdurable (some 1) (BalanceMap.new 0) rfl le_rfl
    le_rfl (by decide) hrun
  have hsaved := congrArg Option.isSome hheld.2.1
  rw [saved_none] at hsaved
  contradiction

end DiskFull

end UsdtPir
