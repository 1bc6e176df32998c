import Mathlib.Algebra.Order.Ring.Nat
import Mathlib.Data.List.Induction
import UsdtPir.DurableSync
import UsdtPir.RangeCuts

/-!
# A bounded sync ends

The retries of a bounded sync limit how often in a row an attempt may fail
without moving the cursor.  Failures that move it are not limited, but they
shorten what is left, so the number of attempts is.
-/

/-! ## Attempts in a row that gain nothing -/

namespace Retrying

/-- How many of the last attempts gained nothing, in a row. -/
def streak (gains : List ℕ) : ℕ :=
  gains.foldl (fun n gain => if gain = 0 then n + 1 else 0) 0

@[simp]
theorem streak_nil : streak [] = 0 :=
  rfl

@[simp]
theorem streak_concat (gains : List ℕ) (gain : ℕ) :
    streak (gains ++ [gain]) = if gain = 0 then streak gains + 1 else 0 := by
  simp [streak]

/-- No streak was longer than `retries` at any time. -/
def Patient (retries : ℕ) (gains : List ℕ) : Prop :=
  ∀ before, before <+: gains → streak before ≤ retries

variable {retries gain : ℕ} {gains : List ℕ}

theorem patient_nil : Patient retries [] := by
  intro before hbefore
  rw [List.prefix_nil.mp hbefore]
  exact Nat.zero_le retries

theorem Patient.concat (h : Patient retries gains)
    (hlast : streak (gains ++ [gain]) ≤ retries) :
    Patient retries (gains ++ [gain]) := by
  intro before hbefore
  rcases List.prefix_concat_iff.mp hbefore with rfl | hbefore
  · exact hlast
  · exact h before hbefore

theorem Patient.of_concat (h : Patient retries (gains ++ [gain])) :
    Patient retries gains :=
  fun before hbefore => h before (hbefore.trans (List.prefix_append gains [gain]))

/-- Every attempt gains something or lengthens a streak. -/
theorem Patient.length_le (h : Patient retries gains) :
    gains.length ≤ (retries + 1) * gains.sum + streak gains := by
  induction gains using List.reverseRecOn with
  | nil => exact Nat.zero_le _
  | append_singleton gains gain ih =>
      have hbefore := h.of_concat
      have hstreak := hbefore gains List.prefix_rfl
      have hlength := ih hbefore
      rw [List.length_append, List.length_singleton, List.sum_append,
        List.sum_singleton, streak_concat]
      by_cases hgain : gain = 0
      · have hsum : gains.sum + gain = gains.sum := by omega
        rw [if_pos hgain, hsum]
        omega
      · rw [if_neg hgain, Nat.mul_add]
        have hmore : retries + 1 ≤ (retries + 1) * gain :=
          Nat.le_mul_of_pos_right _ (Nat.pos_of_ne_zero hgain)
        omega

end Retrying

namespace UsdtPir

open Interaction
open Program
open Interval
open Retrying

/-! ## Blocks that fit a stamp -/

def Failure.IsErr : Failure → Prop
  | .err _ => True
  | _ => False

/-- Both blocks of a touch fit into a `u32`. -/
def Touch.Small (touch : Touch) : Prop :=
  (∀ b, touch.usdt = some b → b < 2 ^ 32) ∧
    ∀ b, touch.usdc = some b → b < 2 ^ 32

section Small

variable {slot : U32} {block : Option ℕ} {map : BalanceMap} {addr : Address}
    {r : Reading} {seen : Touch} {touched : HashMap Address Touch}

theorem block32_of_lt {b : ℕ} (h : b < 2 ^ 32) :
    block32 b = some (BitVec.ofNat 32 b) :=
  if_pos h

theorem updateBlock_isSome (h : ∀ b, block = some b → b < 2 ^ 32) :
    (updateBlock slot block).isSome := by
  cases block with
  | none => rfl
  | some b =>
      simp only [updateBlock, block32_of_lt (h b rfl), Option.bind_eq_bind,
        Option.bind_some]
      split
      · rfl
      · rfl

theorem applyExisting_isSome (h : seen.Small) (e : Entry) :
    (applyExisting e r seen).isSome := by
  have husdt : ∃ p, updateBlock e.usdtBlock seen.usdt = some p :=
    Option.isSome_iff_exists.mp (updateBlock_isSome h.1)
  have husdc : ∃ p, updateBlock e.usdcBlock seen.usdc = some p :=
    Option.isSome_iff_exists.mp (updateBlock_isSome h.2)
  rcases husdt with ⟨usdt, husdt⟩
  rcases husdc with ⟨usdc, husdc⟩
  simp [applyExisting, stampSeenBlocks, husdt, husdc]

theorem newEntry_isSome (h : seen.Small) : (newEntry r seen).isSome := by
  have hslot : ∀ {block : Option ℕ}, (∀ b, block = some b → b < 2 ^ 32) →
      ∃ stamp, block.elim (some 0) block32 = some stamp := by
    intro block hblock
    cases block with
    | none => exact ⟨0, rfl⟩
    | some b => exact ⟨_, block32_of_lt (hblock b rfl)⟩
  rcases hslot h.1 with ⟨usdt, husdt⟩
  rcases hslot h.2 with ⟨usdc, husdc⟩
  unfold newEntry
  rw [husdt, husdc]
  rfl

theorem BalanceMap.apply_isSome (h : seen.Small) :
    (map.apply addr r seen).isSome := by
  unfold BalanceMap.apply
  split
  · rename_i e hget
    have hexisting : ∃ p, applyExisting e r seen = some p :=
      Option.isSome_iff_exists.mp (applyExisting_isSome h e)
    rcases hexisting with ⟨⟨applied, e'⟩, happlied⟩
    simp only [happlied, Option.bind_eq_bind, Option.bind_some]
    split
    · rfl
    · rfl
  · split
    · rfl
    · have hnew : ∃ e, newEntry r seen = some e :=
        Option.isSome_iff_exists.mp (newEntry_isSome h)
      rcases hnew with ⟨e, he⟩
      simp [BalanceMap.insertNew, he]

theorem applyReadings_isSome
    (h : ∀ a, ((touched.lookup a).getD default).Small)
    (rows : List (Address × Reading)) (acc : BalanceMap × ApplyOutputs) :
    (applyReadings touched rows acc).isSome := by
  induction rows generalizing acc with
  | nil => rfl
  | cons row rest ih =>
      have hone : ∃ p, acc.1.apply row.1 row.2
          ((touched.lookup row.1).getD default) = some p :=
        Option.isSome_iff_exists.mp (BalanceMap.apply_isSome (h row.1))
      rcases hone with ⟨⟨applied, map⟩, happly⟩
      simp only [applyReadings, applyReading, happly, Option.bind_eq_bind,
        Option.bind_some]
      exact ih _

/-- Logs of small blocks give small touches. -/
theorem Collects.small {truth : (q : Request) → Answer q → Prop}
    {logs : List Log} (h : Collects truth logs touched)
    (hlogs : ∀ log ∈ logs, ∀ b, log.blockNumber = some b → b < 2 ^ 32)
    (a : Address) : ((touched.lookup a).getD default).Small := by
  rcases h.stamps with ⟨owner, -, hseen⟩
  have hsees : ∀ {token b}, Sees logs owner a token b → b < 2 ^ 32 := by
    intro token b hsees
    rcases hsees with ⟨log, hlog, -, -, hb⟩ | ⟨-, -, log, hlog, -, hb⟩
    · exact hlogs log hlog b hb
    · exact hlogs log hlog b hb
  constructor
  · intro b hb
    have hlast := (hseen a).1
    rw [hb] at hlast
    exact hsees hlast.1
  · intro b hb
    have hlast := (hseen a).2
    rw [hb] at hlast
    exact hsees hlast.1

end Small

/-! ## No panic -/

/-- No log that is served carries a block that does not fit a stamp. -/
def SmallLogs (truth : (q : Request) → Answer q → Prop) : Prop :=
  ∀ f logs, truth (.getLogs f) (Except.ok logs : Except RpcError (List Log)) →
    ∀ log ∈ logs, ∀ b, log.blockNumber = some b → b < 2 ^ 32

section Calm

variable {ω : Type} {env : Environment Request Answer ω} {world : ω}
    {s : Process} {cfg : FollowConfig} {truth : (q : Request) → Answer q → Prop}
    {lo hi toBlock chunk fuel : ℕ}

theorem Untouched.isErr {failure : Failure} {s' : Process}
    (h : Untouched s failure s') : failure.IsErr := by
  rcases h with ⟨-, chain, rfl⟩
  trivial

theorem meets_applyRange_isErr (hkeeps : env.Keeps truth) {logs : List Log}
    {at_ : ℕ} (hlogs : ∀ log ∈ logs, ∀ b, log.blockNumber = some b →
      b < 2 ^ 32) :
    Meets env (applyRange logs at_) world s (fun _ _ _ => True)
      (fun _ failure _ => failure.IsErr) := by
  unfold applyRange
  simp only [meets_bind]
  refine meets_mono (meets_collectAddresses hkeeps) ?_
    (fun _ _ _ h => h.isErr)
  rintro middle touched s₁ ⟨rfl, hcollects⟩
  split
  · rw [meets_pure]
    trivial
  · simp only [applyTouched, meets_bind, meets_order]
    rintro ⟨addrs, hperm⟩ after hanswer
    refine meets_mono (meets_readBalances hkeeps) ?_ (fun _ _ _ h => h.isErr)
    rintro after' readings s₂ ⟨rfl, hkeys, htrue⟩
    refine meets_iterate fun order _ after'' _ rows hrows => ?_
    simp only [meets_get]
    split
    · rename_i hnone
      have hsome := applyReadings_isSome (hcollects.small hlogs) rows
        (s₂.map, ⟨s₂.inserted, s₂.changed, { (default : BatchStats) with
          logs := logs.length, touched := touched.keys.length }⟩)
      rw [hnone] at hsome
      cases hsome
    · simp only [meets_bind, meets_modify, meets_pure]

theorem meets_fetchLogs_isErr (hkeeps : env.Keeps truth) :
    Meets env (fetchLogs lo fuel hi chunk) world s
      (fun _ result _ => truth (.getLogs (filter lo result.2.1))
        (Except.ok result.1 : Except RpcError (List Log)))
      (fun _ failure _ => failure.IsErr) :=
  meets_mono (meets_fetchLogs hkeeps) (fun _ _ _ h => h.2.1)
    (fun _ _ _ h => h.isErr)

theorem meets_syncOneChunk_isErr (hkeeps : env.Keeps truth)
    (hsmall : SmallLogs truth) :
    Meets env (syncOneChunk cfg lo toBlock chunk) world s (fun _ _ _ => True)
      (fun _ failure _ => failure.IsErr) := by
  simp only [syncOneChunk, meets_bind]
  apply meets_mono (meets_fetchLogs_isErr hkeeps)
  · intro middle result s₁ hlogs
    rcases result with ⟨logs, hi, left⟩
    simp only [applyChunk, meets_bind]
    apply meets_mono (meets_applyRange_isErr hkeeps (hsmall _ _ hlogs))
    · intro after result s₂ _
      simp only [meets_modify, meets_pure]
      apply meets_mono meets_maybeSnapshot
      · intro final _ s' _
        trivial
      · intro final failure s' h
        exact h.isErr
    · intro final failure s' h
      exact h
  · intro final failure s' h
    exact h

/-- The loop stops with an error, unless its lifetime ends. -/
theorem meets_syncChunks_isErr (hkeeps : env.Keeps truth)
    (hsmall : SmallLogs truth) :
    Meets env (syncChunks cfg toBlock fuel lo chunk) world s
      (fun _ _ _ => True)
      (fun _ failure _ => failure.IsErr ∨ failure = .killed) := by
  induction fuel generalizing lo chunk world s with
  | zero =>
      unfold syncChunks
      split
      · exact .inr rfl
      · trivial
  | succ fuel ih =>
      unfold syncChunks
      split
      · rw [meets_bind]
        apply meets_mono (meets_syncOneChunk_isErr hkeeps hsmall)
        · intro middle next s₁ _
          exact ih
        · intro final failure s' h
          exact .inl h
      · trivial

end Calm

/-! ## One attempt -/

/-- The turns of an attempt, and the cursor it left: whatever else an attempt
does to the state, the map moves with its turns. -/
def TurnsTaken (truth : (q : Request) → Answer q → Prop) (cfg : FollowConfig)
    (start toBlock : ℕ) (s : Process) (turns : List Turn) (lo' : ℕ)
    (s' : Process) : Prop :=
  ∃ left s₀ s₁, s₀.map = s.map ∧
    Turns truth toBlock start cfg.chunk s₀ turns lo' left s₁ ∧
    s'.map.cursor = s₁.map.cursor

section Attempting

variable {ω : Type} {env : Environment Request Answer ω} {world : ω}
    {s s' : Process} {cfg : FollowConfig}
    {truth : (q : Request) → Answer q → Prop} {start toBlock lo' : ℕ}
    {turns : List Turn}

theorem TurnsTaken.rises
    (h : TurnsTaken truth cfg start toBlock s turns lo' s')
    (hlo : s.map.cursor < start) (hto : s.map.cursor ≤ toBlock) :
    (s.map.cursor :: turns.map Turn.hi).Pairwise (· < ·) ∧
      (∀ n ∈ turns.map Turn.hi, n ≤ s'.map.cursor) ∧
      s.map.cursor ≤ s'.map.cursor ∧ s'.map.cursor ≤ toBlock := by
  rcases h with ⟨left, s₀, s₁, hmap, hturns, hcursor⟩
  rw [← hmap] at hlo hto ⊢
  rw [hcursor]
  exact hturns.rises hlo hto

/-- An attempt takes its turns, and stops with an error or with the process. -/
theorem meets_syncOnce_turns (hkeeps : env.Keeps truth)
    (hsmall : SmallLogs truth)
    (hexact : cfg.word.ExactTo (toBlock + cfg.chunk)) (hchunk : 1 ≤ cfg.chunk)
    (hlife : ∀ n : ℕ, truth .lifetime n → toBlock < start + n)
    (hto : start ≤ toBlock) :
    Meets env (syncOnce cfg start toBlock) world s
      (fun _ _ s' => ∃ turns,
        TurnsTaken truth cfg start toBlock s turns (toBlock + 1) s')
      (fun _ failure s' => failure.IsErr ∧ ∃ turns lo',
        TurnsTaken truth cfg start toBlock s turns lo' s' ∧
        lo' ≤ toBlock + 1) := by
  have hnot : ¬ toBlock < start := Nat.not_lt_of_le hto
  simp only [syncOnce, markSnapshot, syncInto, meets_bind, meets_instantNow,
    meets_modify, if_neg hnot, meets_lifetime]
  intro now after _ fuel after' hfuel
  apply meets_mono ((meets_syncChunks_taken hkeeps hexact
    (Nat.le_succ_of_le hto) hchunk).and (meets_syncChunks_isErr hkeeps hsmall))
  · intro final _ s₁ hdone
    rcases hdone with ⟨⟨turns, left, hturns⟩, -⟩
    simp only [pruneTransient, meets_modify]
    refine ⟨turns, left, { s with
      lastSnapshot := now
      watch := default
      changed := ∅
      inserted := ∅ }, s₁, rfl, hturns, ?_⟩
    rw [BalanceMap.pruneZero_cursor]
  · intro final failure s₁ hstopped
    rcases hstopped with ⟨⟨turns, lo', left, hturns, hkilled⟩, hfailure⟩
    constructor
    · rcases hfailure with herr | hkill
      · exact herr
      · have hcount := hkilled hkill
        have hlength := hturns.cuts.length_le
        rw [List.length_map] at hlength
        have henough := hlife fuel (hkeeps _ _ _ _ hfuel)
        omega
    · refine ⟨turns, lo', ⟨left, { s with
        lastSnapshot := now
        watch := default
        changed := ∅
        inserted := ∅ }, s₁, rfl, hturns, rfl⟩, ?_⟩
      exact hturns.le_end (Nat.le_succ_of_le hto)

end Attempting

/-! ## All attempts -/

/-- One attempt, with the turns it took. -/
structure Attempt where
  before : Process
  turns : List Turn
  after : Process

/-- How far the attempt moved the cursor. -/
def Attempt.gain (a : Attempt) : ℕ :=
  a.after.map.cursor - a.before.map.cursor

def gains (attempts : List Attempt) : List ℕ :=
  attempts.map Attempt.gain

/-- The places the cursor was moved to. -/
def cursors (attempts : List Attempt) : List ℕ :=
  attempts.flatMap fun a => a.turns.map Turn.hi

/-- The attempt is a run of `sync_once`. -/
def Attempt.Ran {ω : Type} (env : Environment Request Answer ω)
    (cfg : FollowConfig) (start toBlock : ℕ) (world : ω)
    (outcome : Except Failure Unit) (final : ω) (a : Attempt) : Prop :=
  (syncOnce cfg start toBlock).Runs env world a.before final outcome a.after ∧
    ∃ lo', TurnsTaken env.Gives cfg start toBlock a.before a.turns lo' a.after

/-- Attempts that failed and were followed by another one, which begins at
`start` with `stalled` on the counter. -/
inductive Tried {ω : Type} (env : Environment Request Answer ω)
    (cfg : FollowConfig) (toBlock retries : ℕ) (world : ω) (s : Process)
    (lo : ℕ) : List Attempt → ω → Process → ℕ → ℕ → Prop
  | start : Tried env cfg toBlock retries world s lo [] world s lo 0
  | again {attempts : List Attempt} {a : Attempt} {middle failed after : ω}
      {s₁ : Process} {start stalled stalled' : ℕ} {chain : List String}
      (hbefore : Tried env cfg toBlock retries world s lo attempts middle
        a.before start stalled)
      (hran : a.Ran env cfg start toBlock middle (.error (.err chain)) failed)
      (hwait : (waitToRetry cfg.word a.before.map.cursor retries chain
        stalled).Runs env failed a.after after (.ok stalled') s₁)
      (hnext : cfg.word.add s₁.map.cursor 1 ≤ toBlock) :
      Tried env cfg toBlock retries world s lo (attempts ++ [a]) after s₁
        (cfg.word.add s₁.map.cursor 1) stalled'

/-- The context that the last error is given. -/
def givingUp (retries cursor : ℕ) : String :=
  s!"giving up after {retries} attempt(s) with no progress at block {cursor}; re-run to resume"

/-- What comes of the sync, from how its last attempt ended, the gains of all
attempts and the cursor they left. -/
inductive Concludes (toBlock retries : ℕ) (gained : List ℕ) (cursor : ℕ) :
    Except Failure Unit → Except Failure SyncStats → Prop
  | done (stats : SyncStats) :
      Concludes toBlock retries gained cursor (.ok ()) (.ok stats)
  | unsaved (e : IoError) :
      Concludes toBlock retries gained cursor (.ok ())
        (.error (.err [e.message]))
  | reached {chain : List String} (stats : SyncStats)
      (hpatience : streak gained ≤ retries) (hend : cursor = toBlock) :
      Concludes toBlock retries gained cursor (.error (.err chain)) (.ok stats)
  | gaveUp {chain : List String} (hpatience : streak gained = retries + 1) :
      Concludes toBlock retries gained cursor (.error (.err chain))
        (.error (.err (givingUp retries cursor :: chain)))

/-- A bounded sync that made the attempts and then the last one. -/
structure Ended {ω : Type} (env : Environment Request Answer ω)
    (cfg : FollowConfig) (toBlock retries : ℕ) (world : ω) (s : Process)
    (lo : ℕ) (attempts : List Attempt) (last : Attempt)
    (outcome : Except Failure SyncStats) (s' : Process) : Prop where
  ran : ∃ middle start stalled ended after,
    Tried env cfg toBlock retries world s lo attempts middle last.before start
      stalled ∧
    last.Ran env cfg start toBlock middle ended after ∧
    Concludes toBlock retries (gains (attempts ++ [last]))
      last.after.map.cursor ended outcome
  map : s'.map = last.after.map
  bounded : (attempts ++ [last]).length ≤
    (retries + 1) * (toBlock - s.map.cursor + 1)
  patient : Patient retries (gains attempts)
  rises : (s.map.cursor :: cursors (attempts ++ [last])).Pairwise (· < ·)
  ends : ∀ n ∈ cursors (attempts ++ [last]), n ≤ last.after.map.cursor
  starts : s.map.cursor ≤ last.after.map.cursor
  inside : last.after.map.cursor ≤ toBlock

/-- The state between two attempts. -/
structure Underway (c toBlock retries : ℕ) (attempts : List Attempt)
    (cursor start stalled : ℕ) : Prop where
  below : cursor < start
  inside : start ≤ toBlock
  total : cursor = c + (gains attempts).sum
  stalled : stalled = streak (gains attempts)
  patient : Patient retries (gains attempts)
  rises : (c :: cursors attempts).Pairwise (· < ·)
  ends : ∀ n ∈ cursors attempts, n ≤ cursor

section Retries

variable {ω : Type} {env : Environment Request Answer ω} {world final : ω}
    {s s' : Process} {cfg : FollowConfig} {c lo lo' toBlock retries start : ℕ}
    {cursor stalled before : ℕ} {attempts : List Attempt} {a : Attempt}
    {word : Word} {chain : List String} {truth : (q : Request) → Answer q → Prop}

theorem meets_waitToRetry :
    Meets env (waitToRetry word before retries chain stalled) world s
      (fun _ stalled' s' => s'.map = s.map ∧
        stalled' = recordRetryProgress word (s.map.cursor - before) stalled ∧
        stalled' ≤ retries)
      (fun _ failure s' => s'.map = s.map ∧
        retries < recordRetryProgress word (s.map.cursor - before) stalled ∧
        failure = .err (givingUp retries s.map.cursor :: chain)) := by
  simp only [waitToRetry, meets_bind, meets_saveMap]
  intro answer after _
  cases answer with
  | ok written =>
      simp only [meets_get]
      split
      · rename_i hgive
        exact ⟨rfl, hgive, rfl⟩
      · rename_i hwait
        exact ⟨rfl, rfl, Nat.le_of_not_lt hwait⟩
  | error e =>
      simp only [meets_get]
      split
      · rename_i hgive
        exact ⟨rfl, hgive, rfl⟩
      · rename_i hwait
        exact ⟨rfl, rfl, Nat.le_of_not_lt hwait⟩

/-- The counter is the streak, one attempt further. -/
theorem recordRetryProgress_eq (hcount : ∀ n ≤ retries, word.bump n = n + 1)
    {gained : List ℕ} (hpatient : Patient retries gained) (gain : ℕ) :
    recordRetryProgress word gain (streak gained) =
      streak (gained ++ [gain]) := by
  have hle := hpatient gained List.prefix_rfl
  rw [streak_concat, recordRetryProgress, hcount _ hle]
  by_cases hgain : gain = 0
  · rw [if_pos hgain, if_neg (by omega)]
  · rw [if_neg hgain, if_pos (by omega)]

theorem underway_nil (hlo : c < lo) (hto : lo ≤ toBlock) :
    Underway c toBlock retries [] c lo 0 where
  below := hlo
  inside := hto
  total := rfl
  stalled := rfl
  patient := patient_nil
  rises := List.pairwise_singleton _ c
  ends := by simp [cursors]

@[simp]
theorem cursors_concat :
    cursors (attempts ++ [a]) = cursors attempts ++ a.turns.map Turn.hi := by
  simp [cursors]

@[simp]
theorem gains_concat : gains (attempts ++ [a]) = gains attempts ++ [a.gain] := by
  simp [gains]

/-- What one more attempt adds to the cursors. -/
theorem Underway.attempt
    (h : Underway c toBlock retries attempts a.before.map.cursor start stalled)
    (htaken : TurnsTaken truth cfg start toBlock a.before a.turns lo' a.after) :
    (c :: cursors (attempts ++ [a])).Pairwise (· < ·) ∧
      (∀ n ∈ cursors (attempts ++ [a]), n ≤ a.after.map.cursor) ∧
      a.after.map.cursor = c + (gains (attempts ++ [a])).sum ∧
      a.after.map.cursor ≤ toBlock := by
  have hinside := h.inside
  have hbelow := h.below
  have htotal := h.total
  rcases htaken.rises hbelow (by omega) with ⟨hrise, hends, hup, hto⟩
  have hearlier : ∀ n ∈ c :: cursors attempts, n ≤ a.before.map.cursor := by
    intro n hn
    rcases List.mem_cons.mp hn with rfl | hn
    · omega
    · exact h.ends n hn
  rw [List.pairwise_cons] at hrise
  constructor
  · rw [cursors_concat, ← List.cons_append, List.pairwise_append]
    constructor
    · exact h.rises
    · constructor
      · exact hrise.2
      · intro n hn m hm
        exact Nat.lt_of_le_of_lt (hearlier n hn) (hrise.1 m hm)
  · constructor
    · intro n hn
      rw [cursors_concat, List.mem_append] at hn
      rcases hn with hn | hn
      · exact (h.ends n hn).trans hup
      · exact hends n hn
    · constructor
      · rw [gains_concat, List.sum_append, List.sum_singleton, Attempt.gain]
        omega
      · exact hto

/-- Before another attempt, there were fewer than the bound. -/
theorem Underway.length_lt
    (h : Underway c toBlock retries attempts cursor start stalled) :
    attempts.length + 1 ≤ (retries + 1) * (toBlock - c + 1) := by
  have hlength := h.patient.length_le
  rw [gains, List.length_map, ← gains] at hlength
  have hstreak := h.patient (gains attempts) List.prefix_rfl
  have hbelow := h.below
  have hinside := h.inside
  have htotal := h.total
  have hroom : (gains attempts).sum + 1 ≤ toBlock - c + 1 := by omega
  have hmore := Nat.mul_le_mul_left (retries + 1) hroom
  rw [Nat.mul_succ] at hmore
  omega

/-- The counter after another attempt is the streak after it. -/
theorem Underway.counter
    (h : Underway c toBlock retries attempts a.before.map.cursor start stalled)
    (hcount : ∀ n ≤ retries, word.bump n = n + 1) :
    recordRetryProgress word (a.after.map.cursor - a.before.map.cursor) stalled =
      streak (gains (attempts ++ [a])) := by
  rw [h.stalled, gains_concat]
  exact recordRetryProgress_eq hcount h.patient _

theorem Underway.again (hexact : word.ExactTo (toBlock + 1))
    (h : Underway c toBlock retries attempts a.before.map.cursor start stalled)
    (htaken : TurnsTaken truth cfg start toBlock a.before a.turns lo' a.after)
    (hpatience : streak (gains (attempts ++ [a])) ≤ retries)
    (hnext : word.add a.after.map.cursor 1 ≤ toBlock) :
    Underway c toBlock retries (attempts ++ [a]) a.after.map.cursor
      (word.add a.after.map.cursor 1) (streak (gains (attempts ++ [a]))) := by
  rcases h.attempt htaken with ⟨hrises, hends, htotal, hto⟩
  have hadd := hexact a.after.map.cursor 1 (Nat.succ_le_succ hto)
  have hpatient : Patient retries (gains (attempts ++ [a])) := by
    rw [gains_concat] at hpatience ⊢
    exact h.patient.concat hpatience
  exact {
    below := by rw [hadd]; exact Nat.lt_succ_self _
    inside := hnext
    total := htotal
    stalled := rfl
    patient := hpatient
    rises := hrises
    ends := hends }

theorem Ended.of_last {ended : Except Failure Unit} {middle after : ω}
    {outcome : Except Failure SyncStats}
    (htried : Tried env cfg toBlock retries world s lo attempts middle a.before
      start stalled)
    (hunderway : Underway s.map.cursor toBlock retries attempts
      a.before.map.cursor start stalled)
    (hran : a.Ran env cfg start toBlock middle ended after)
    (hconcludes : Concludes toBlock retries (gains (attempts ++ [a]))
      a.after.map.cursor ended outcome)
    (hmap : s'.map = a.after.map) :
    Ended env cfg toBlock retries world s lo attempts a outcome s' := by
  rcases hran.2 with ⟨lo', htaken⟩
  rcases hunderway.attempt htaken with ⟨hrises, hends, htotal, hto⟩
  exact {
    ran := ⟨middle, start, stalled, ended, after, htried, hran, hconcludes⟩
    map := hmap
    bounded := by
      rw [List.length_append, List.length_singleton]
      exact hunderway.length_lt
    patient := hunderway.patient
    rises := hrises
    ends := hends
    starts := htotal ▸ Nat.le_add_right _ _
    inside := hto }

/-- The loop ends.  The fuel and the attempts made add up to the bound, which
the attempts alone cannot reach. -/
theorem meets_syncAttempts_ended {s₀ : Process} {entered : ω} {origin fuel : ℕ}
    (htried : Tried env cfg toBlock retries entered s₀ lo attempts world s start
      stalled)
    (hsmall : SmallLogs env.Gives) (hchunk : 1 ≤ cfg.chunk)
    (hexact : cfg.word.ExactTo (toBlock + cfg.chunk))
    (hcount : ∀ n ≤ retries, cfg.word.bump n = n + 1)
    (hlife : ∀ n : ℕ, env.Gives .lifetime n →
      (retries + 1) * (toBlock - s₀.map.cursor + 1) ≤ n)
    (hunderway : Underway s₀.map.cursor toBlock retries attempts s.map.cursor
      start stalled)
    (hfuel : (retries + 1) * (toBlock - s₀.map.cursor + 1) ≤
      attempts.length + fuel) :
    Meets env (syncAttempts cfg toBlock retries origin fuel start stalled)
      world s
      (fun _ stats s' => ∃ attempts last, Ended env cfg toBlock retries entered
        s₀ lo attempts last (.ok stats) s')
      (fun _ failure s' => ∃ attempts last, Ended env cfg toBlock retries entered
        s₀ lo attempts last (.error failure) s') := by
  induction fuel generalizing attempts world s start stalled with
  | zero =>
      have hlength := hunderway.length_lt
      omega
  | succ fuel ih =>
      have hlives : ∀ n : ℕ, env.Gives .lifetime n → toBlock < start + n := by
        intro n hn
        have henough := hlife n hn
        have hone : toBlock - s₀.map.cursor + 1 ≤
            (retries + 1) * (toBlock - s₀.map.cursor + 1) :=
          Nat.le_mul_of_pos_left _ (Nat.succ_pos retries)
        have hbelow := hunderway.below
        have htotal := hunderway.total
        omega
      simp only [syncAttempts, meets_bind, meets_get, meets_attempt]
      apply meets_mono (meets_syncOnce_turns env.keeps_gives hsmall hexact hchunk
        hlives hunderway.inside).ran
      · intro final result s₁ hdone
        rcases hdone with ⟨hrun, turns, htaken⟩
        simp only [setBlocks, meets_bind, meets_modify, meets_get,
          meets_saveMapOrFail]
        intro answer after _
        have hended : ∀ {outcome : Except Failure SyncStats} {s' : Process},
            Concludes toBlock retries (gains (attempts ++ [⟨s, turns, s₁⟩]))
              s₁.map.cursor (.ok ()) outcome → s'.map = s₁.map →
            Ended env cfg toBlock retries entered s₀ lo attempts ⟨s, turns, s₁⟩
              outcome s' :=
          fun hconcludes hmap => .of_last htried hunderway
            ⟨hrun, toBlock + 1, htaken⟩ hconcludes hmap
        cases answer with
        | ok written => exact ⟨attempts, _, hended (.done _) rfl⟩
        | error e => exact ⟨attempts, _, hended (.unsaved e) rfl⟩
      · intro final failure s₁ hfailed
        rcases hfailed with ⟨hrun, herr, turns, lo', htaken, -⟩
        cases failure with
        | err chain =>
            have hran : (⟨s, turns, s₁⟩ : Attempt).Ran env cfg start toBlock
                world (.error (.err chain)) final := ⟨hrun, lo', htaken⟩
            have hone : cfg.word.ExactTo (toBlock + 1) :=
              hexact.mono (Nat.add_le_add_left hchunk toBlock)
            have hcounter := hunderway.counter (a := ⟨s, turns, s₁⟩) hcount
            rw [meets_bind]
            apply meets_mono meets_waitToRetry.ran
            · intro after stalled' s₂ hwaited
              rcases hwaited with ⟨hwait, hmap, hstalled, hpatience⟩
              rw [hcounter] at hstalled
              rw [hstalled] at hpatience hwait ⊢
              simp only [meets_bind, meets_get]
              split
              · rename_i hpast
                have hend : s₁.map.cursor = toBlock := by
                  have hinside : s₁.map.cursor ≤ toBlock :=
                    (hunderway.attempt (a := ⟨s, turns, s₁⟩) htaken).2.2.2
                  have hadd := hone s₁.map.cursor 1 (Nat.succ_le_succ hinside)
                  rw [hmap, hadd] at hpast
                  omega
                simp only [setBlocks, meets_bind, meets_modify, meets_get,
                  meets_pure]
                exact ⟨attempts, _, .of_last htried hunderway hran
                  (.reached _ hpatience hend) hmap⟩
              · rename_i hmore
                have hnext := Nat.le_of_not_lt hmore
                have hagain : Tried env cfg toBlock retries entered s₀ lo
                    (attempts ++ [⟨s, turns, s₁⟩]) after s₂
                    (cfg.word.add s₂.map.cursor 1) _ :=
                  .again htried hran hwait hnext
                have hstill := hunderway.again (a := ⟨s, turns, s₁⟩) hone htaken
                  hpatience (by rw [← hmap]; exact hnext)
                rw [← hmap] at hstill
                apply ih hagain hstill
                rw [List.length_append, List.length_singleton]
                omega
            · intro after failure s₂ hgave
              rcases hgave with ⟨-, hmap, hmany, hfailure⟩
              rw [hcounter] at hmany
              have hpatience : streak (gains (attempts ++ [⟨s, turns, s₁⟩])) =
                  retries + 1 := by
                have hbefore := hunderway.patient (gains attempts)
                  List.prefix_rfl
                rw [gains_concat, streak_concat] at hmany ⊢
                split at hmany
                · rename_i hgain
                  rw [if_pos hgain]
                  omega
                · omega
              rw [hfailure]
              exact ⟨attempts, _, .of_last htried hunderway hran
                (.gaveUp hpatience) hmap⟩
        | panic => exact herr.elim
        | killed => exact herr.elim

end Retries

/-- A bounded sync ends after a bounded number of attempts, each of them moving
the cursor up, when no block sum leaves a `u64` and no served log carries a
block that does not fit a stamp. -/
theorem run_sync_ends {ω : Type} {env : Environment Request Answer ω}
    {world final : ω} {s s' : Process} {cfg : FollowConfig}
    {lo toBlock retries : ℕ} {outcome : Except Failure SyncStats}
    (arg : Option ℕ) (map : BalanceMap)
    (hprepared : prepareReplay cfg.word map arg = (lo, s.map))
    (hlo : 1 ≤ lo) (hle : lo ≤ toBlock) (hchunk : 1 ≤ cfg.chunk)
    (hexact : cfg.word.ExactTo (toBlock + cfg.chunk))
    (hcount : ∀ n ≤ retries, cfg.word.bump n = n + 1)
    (hsmall : SmallLogs env.Gives)
    (hlife : ∀ n : ℕ, env.Gives .lifetime n →
      (retries + 1) * (toBlock - s.map.cursor + 1) ≤ n)
    (hrun : (runSync cfg lo toBlock retries).Runs env world s final outcome s') :
    ∃ entered attempts last, Ended env cfg toBlock retries entered
      { s with totals := default } lo attempts last outcome s' := by
  have hcursor : s.map.cursor < lo := prepareReplay_cursor_lt hprepared hlo
  have hends : Meets env (runSync cfg lo toBlock retries) world s
      (fun _ stats s' => ∃ entered attempts last, Ended env cfg toBlock retries
        entered { s with totals := default } lo attempts last (.ok stats) s')
      (fun _ failure s' => ∃ entered attempts last, Ended env cfg toBlock
        retries entered { s with totals := default } lo attempts last
        (.error failure) s') := by
    simp only [runSync, meets_bind, meets_modify, meets_get, meets_lifetime]
    intro (fuel : ℕ) entered hfuel
    have henough : (retries + 1) * (toBlock - s.map.cursor + 1) ≤
        ([] : List Attempt).length + fuel :=
      (hlife fuel ⟨world, entered, hfuel⟩).trans (Nat.le_add_left _ _)
    have htried : Tried env cfg toBlock retries entered
        { s with totals := default } lo [] entered { s with totals := default } lo
        0 := .start
    apply meets_mono (meets_syncAttempts_ended htried hsmall hchunk hexact hcount
      hlife (underway_nil hcursor hle) henough)
    · intro final stats s' hended
      exact ⟨entered, hended⟩
    · intro final failure s' hended
      exact ⟨entered, hended⟩
  cases outcome with
  | ok stats => exact hends.of_ok hrun
  | error failure => exact hends.of_error hrun

/-- What the sync promises without a condition on the chunk or the logs. -/
def SyncsEnd {ω : Type} (env : Environment Request Answer ω) : Prop :=
  ∀ {world final : ω} {s s' : Process} {cfg : FollowConfig}
    {lo toBlock retries : ℕ} {outcome : Except Failure SyncStats}
    (arg : Option ℕ) (map : BalanceMap),
    prepareReplay cfg.word map arg = (lo, s.map) → 1 ≤ lo → lo ≤ toBlock →
      1 ≤ cfg.chunk → (∀ n ≤ retries, cfg.word.bump n = n + 1) →
      (∀ n : ℕ, env.Gives .lifetime n →
        (retries + 1) * (toBlock - s.map.cursor + 1) ≤ n) →
      (runSync cfg lo toBlock retries).Runs env world s final outcome s' →
      ∃ entered attempts last, Ended env cfg toBlock retries entered
        { s with totals := default } lo attempts last outcome s'

/-! ### A provider that fails once -/

namespace FailsOnce

def chunked (chunk : ℕ) : FollowConfig :=
  ⟨chunk, 600, .finalized, 64, .wrapping⟩

def start : Process :=
  { Process.launched (BalanceMap.new 9) with saved := none }

/-- There are no logs, and the second question for logs fails. -/
def answer (asked : ℕ) : (q : Request) → Answer q × ℕ
  | .getLogs _ =>
      (if asked = 1 then Except.error ⟨"timeout"⟩ else Except.ok [], asked + 1)
  | q => ((DiskFull.chain.respond 20 20 () q).1, asked)

def env : Environment Request Answer ℕ :=
  .answering answer

theorem smallLogs : SmallLogs env.Gives := by
  intro f logs hlogs log hlog
  rcases hlogs with ⟨asked, after, hanswer⟩
  have hreply : (if asked = 1 then Except.error ⟨"timeout"⟩ else Except.ok []) =
      (Except.ok logs : Except RpcError (List Log)) := (Prod.mk.inj hanswer).1
  split at hreply
  · cases hreply
  · cases hreply
    cases hlog

theorem lifetime_eq {n : ℕ} (h : env.Gives .lifetime n) : n = 20 := by
  rcases h with ⟨asked, after, hanswer⟩
  exact (Prod.mk.inj hanswer).1.symm

def finish (chunk toBlock : ℕ) : (Except Failure SyncStats × Process) × ℕ :=
  (runSync (chunked chunk) 10 toBlock 0).exec answer 0 start

theorem run (chunk toBlock : ℕ) : (runSync (chunked chunk) 10 toBlock 0).Runs
    env 0 start (finish chunk toBlock).2 (finish chunk toBlock).1.1
    (finish chunk toBlock).1.2 :=
  runs_answering answer (runSync (chunked chunk) 10 toBlock 0) 0 start rfl

/-- The attempt that fails in block 11 has moved the cursor to 10, and the next
one ends the sync. -/
theorem run_sync_ends_eleven : ∃ entered attempts last,
    Ended env (chunked 1) 11 0 entered { start with totals := default } 10
      attempts last (finish 1 11).1.1 (finish 1 11).1.2 :=
  run_sync_ends (some 10) (BalanceMap.new 9) rfl (by decide) (by decide) le_rfl
    (Word.exactTo_of_lt (by decide)) (by decide) smallLogs
    (fun n hn => by rw [lifetime_eq hn]; decide) (run 1 11)

theorem cursor_eq : (finish (2 ^ 64 - 1) 20).1.2.map.cursor = 8 := by
  decide +kernel

/-- With the largest chunk the first range ends before it begins, and so does
the cursor. -/
theorem sync_ends_below_start : ¬ SyncsEnd env := by
  intro hsyncs
  rcases hsyncs (some 10) (BalanceMap.new 9) rfl (by decide) (by decide)
    (by decide) (by decide) (fun n hn => by rw [lifetime_eq hn]; decide)
    (run (2 ^ 64 - 1) 20) with ⟨entered, attempts, last, hended⟩
  have hstarts : 9 ≤ last.after.map.cursor := hended.starts
  rw [← hended.map, cursor_eq] at hstarts
  omega

end FailsOnce

end UsdtPir
