import UsdtPir.DurableSync
import UsdtPir.RangeCuts
import UsdtPir.ReorgRepair

/-!
# What the watch keeps

Every chunk may add a batch to the watch, and only the end of a pass drops
batches, from the front.  That leaves the right ones because the batches are in
order: each was added at a cursor that the later ones have passed.
-/

/-! ## Dropping from an ordered list -/

namespace Ordered

variable {α : Type} {key : α → ℕ} {xs : List α} {bound x : ℕ}

theorem pairwise_concat (h : (xs.map key).Pairwise (· ≤ ·)) {a : α}
    (hlast : ∀ b ∈ xs, key b ≤ key a) :
    ((xs ++ [a]).map key).Pairwise (· ≤ ·) := by
  rw [List.map_append, List.pairwise_append]
  constructor
  · exact h
  · constructor
    · exact List.pairwise_singleton _ _
    · intro m hm n hn
      rcases List.mem_map.mp hm with ⟨b, hb, rfl⟩
      rw [List.map_singleton, List.mem_singleton] at hn
      rw [hn]
      exact hlast b hb

/-- What is left after dropping all small keys from the front has no small key,
because nothing behind a key is smaller. -/
theorem le_of_mem_dropWhile (h : (xs.map key).Pairwise (· ≤ ·)) {a : α}
    (ha : a ∈ xs.dropWhile fun a => key a < bound) : bound ≤ key a := by
  induction xs with
  | nil => cases ha
  | cons b xs ih =>
      rw [List.map_cons, List.pairwise_cons] at h
      rw [List.dropWhile_cons] at ha
      split at ha
      · exact ih h.2 ha
      · rename_i hb
        have hbound : bound ≤ key b := by simpa using hb
        rcases List.mem_cons.mp ha with rfl | ha
        · exact hbound
        · exact hbound.trans (h.1 (key a) (List.mem_map_of_mem ha))

end Ordered

namespace UsdtPir

open Interaction
open Program
open Ordered

/-! ## Batches in order -/

/-- The batches of the watch stand in the order of their blocks, none past the
cursor. -/
structure Orderly (s : Process) : Prop where
  sorted : (s.watch.recent.map Prod.fst).Pairwise (· ≤ ·)
  behind : ∀ batch ∈ s.watch.recent, batch.1 ≤ s.map.cursor

/-- The batches that a reorg inside the window can reach, and no others. -/
def Within (window : ℕ) (s : Process) : Prop :=
  ∀ batch ∈ s.watch.recent, s.map.cursor - window ≤ batch.1

section Steps

variable {truth : (q : Request) → Answer q → Prop} {cfg : FollowConfig}
    {s s₁ s' : Process} {lo hi toBlock chunk lo' left window : ℕ}
    {turns : List Turn}

theorem Orderly.of_empty (h : s.watch = default) : Orderly s := by
  constructor
  · rw [h]
    exact List.Pairwise.nil
  · rw [h]
    intro batch hbatch
    cases hbatch

theorem Orderly.congr (h : Orderly s) (hwatch : s'.watch.recent = s.watch.recent)
    (hcursor : s'.map.cursor = s.map.cursor) : Orderly s' := by
  constructor
  · rw [hwatch]
    exact h.sorted
  · rw [hwatch, hcursor]
    exact h.behind

/-- A batch is added at the new cursor, which is past all others. -/
theorem Orderly.recorded (h : Orderly s) (happlied : ChunkApplied truth lo hi s s')
    (hhi : s.map.cursor ≤ hi) : Orderly s' := by
  have hcursor := happlied.cursor
  rcases happlied with ⟨logs, stats, addrs, touched, rows, s₁, -, -, hs', -⟩
  have hwatch : s'.watch = s.watch.record hi addrs := by rw [hs']
  have hbehind : ∀ batch ∈ s.watch.recent, batch.1 ≤ hi :=
    fun batch hbatch => (h.behind batch hbatch).trans hhi
  unfold ChainWatch.record at hwatch
  split at hwatch
  · constructor
    · rw [hwatch]
      exact h.sorted
    · rw [hwatch, hcursor]
      exact hbehind
  · constructor
    · rw [hwatch]
      exact pairwise_concat h.sorted hbehind
    · rw [hwatch, hcursor]
      intro batch hbatch
      rcases List.mem_append.mp hbatch with hbatch | hbatch
      · exact hbehind batch hbatch
      · rw [List.mem_singleton] at hbatch
        rw [hbatch]

theorem Turns.orderly (h : Turns truth toBlock lo chunk s turns lo' left s')
    (hlo : s.map.cursor < lo) (hs : Orderly s) : Orderly s' := by
  induction h with
  | nil lo chunk s => exact hs
  | @cons lo hi left chunk lo' chunk' turns s s₁ s' hle hhi hleft hchunk
      happlied hrest ih =>
      apply ih
      · rw [happlied.cursor]
        exact Nat.lt_succ_self hi
      · exact hs.recorded happlied (by omega)

/-- A repair empties the watch, and no other outcome of the check touches it. -/
theorem RepairStep.orderly (h : RepairStep truth cfg s s') (hs : Orderly s) :
    Orderly s' := by
  cases h with
  | final => exact hs
  | unknown => exact hs
  | same => exact hs
  | repaired htip hhash hanswer hne hrepaired =>
      exact Orderly.of_empty hrepaired.watch_eq.1

theorem Orderly.trim (h : Orderly s)
    (hwatch : s'.watch.recent =
      (s.watch.trim s.map.cursor window).recent)
    (hcursor : s'.map.cursor = s.map.cursor) :
    Orderly s' ∧ Within window s' := by
  constructor
  · constructor
    · rw [hwatch]
      exact h.sorted.sublist ((List.dropWhile_sublist _).map Prod.fst)
    · rw [hwatch, hcursor]
      intro batch hbatch
      exact h.behind batch ((List.dropWhile_sublist _).subset hbatch)
  · intro batch hbatch
    rw [hwatch] at hbatch
    rw [hcursor]
    exact le_of_mem_dropWhile h.sorted hbatch

/-- The watch that `finish_pass` leaves is in order, and trimmed where the tip
can be reorged. -/
theorem WatchStored.orderly (h : WatchStored truth cfg s s'.watch)
    (hcursor : s'.map.cursor = s.map.cursor) (hs : Orderly s) :
    Orderly s' ∧ (cfg.tip.isReorgable = true → Within cfg.reorgWindow s') := by
  rcases h with ⟨hfinal, hwatch⟩ | ⟨htip, block, -, hwatch⟩
  · constructor
    · exact hs.congr (congrArg ChainWatch.recent hwatch) hcursor
    · intro htip
      rw [hfinal] at htip
      cases htip
  · have hrecent : s'.watch.recent =
        (s.watch.trim s.map.cursor cfg.reorgWindow).recent := by
      rw [hwatch]
      rfl
    have htrimmed := hs.trim hrecent hcursor
    exact ⟨htrimmed.1, fun _ => htrimmed.2⟩

end Steps

/-! ## Passes -/

section Passes

variable {ω : Type} {env : Environment Request Answer ω} {world final : ω}
    {s s' : Process} {cfg : FollowConfig} {updates : Bool} {target : ℕ}

theorem meets_syncTo_orderly (hchunk : 1 ≤ cfg.chunk)
    (hexact : cfg.word.ExactTo (target + cfg.chunk))
    (hlt : s.map.cursor < target) (hs : Orderly s) :
    Meets env (syncTo cfg target) world s (fun _ _ s' => Orderly s')
      (fun _ _ s' => Orderly s') := by
  have hle : ¬ target < s.map.cursor + 1 := by omega
  have hcursor : s.map.cursor < s.map.cursor + 1 := Nat.lt_succ_self _
  simp only [syncTo, meets_bind, meets_get]
  apply meets_mono meets_recordProgress
  · intro middle _ s₁ hs₁
    have hsame : s₁.map = s.map ∧ s₁.watch = s.watch := by
      rw [hs₁]
      exact ⟨rfl, rfl⟩
    simp only [sync, syncInto, meets_bind, meets_modify, if_neg hle,
      meets_lifetime]
    intro fuel after _
    have hstarted : Orderly (Process.startSync { s₁ with
        totals := startTotals cfg (s.map.cursor + 1) target }) :=
      hs.congr (congrArg ChainWatch.recent hsame.2)
        (congrArg BalanceMap.cursor hsame.1)
    have hbelow : (Process.startSync { s₁ with
        totals := startTotals cfg (s.map.cursor + 1) target }).map.cursor <
          s.map.cursor + 1 := by
      change s₁.map.cursor < _
      rw [hsame.1]
      exact hcursor
    apply meets_mono (meets_syncChunks_taken env.keeps_gives hexact
      (Nat.le_succ_of_le hlt) hchunk)
    · intro final _ s₂ hdone
      rcases hdone with ⟨turns, left, hturns⟩
      have hs₂ := hturns.orderly hbelow hstarted
      simp only [pruneTransient, meets_modify, meets_get, meets_pure]
      exact hs₂.congr rfl (by rw [BalanceMap.pruneZero_cursor])
    · intro final failure s₂ hstopped
      rcases hstopped with ⟨turns, lo', left, hturns, -⟩
      exact hturns.orderly hbelow hstarted
  · intro final failure s' h
    exact h.elim

theorem meets_passTo_orderly (hchunk : 1 ≤ cfg.chunk)
    (hexact : cfg.word.ExactTo (target + cfg.chunk)) (hs : Orderly s) :
    Meets env (passTo cfg updates target) world s
      (fun _ _ s' => Orderly s' ∧ (s.map.cursor < target →
        cfg.tip.isReorgable = true → Within cfg.reorgWindow s'))
      (fun _ _ s' => Orderly s') := by
  simp only [passTo, meets_bind, meets_get]
  split
  · rename_i hle
    rw [meets_pure]
    exact ⟨hs, fun hlt => absurd hle (Nat.not_le_of_lt hlt)⟩
  · rename_i hnot
    have hlt : s.map.cursor < target := Nat.lt_of_not_le hnot
    rw [meets_bind]
    apply meets_mono (meets_syncTo_orderly hchunk hexact hlt hs)
    · intro middle _ s₁ hs₁
      apply meets_mono (meets_finishPass env.keeps_gives)
      · intro final _ s' hfinished
        rcases hfinished with ⟨hwatch, -, hs'⟩
        have hstored := hwatch.orderly (by rw [hs']) hs₁
        exact ⟨hstored.1, fun _ => hstored.2⟩
      · intro final failure s' hfailed
        rcases hfailed with ⟨hkept | hwatch, -, hs'⟩
        · exact hs₁.congr (congrArg ChainWatch.recent hkept) (by rw [hs'])
        · exact (hwatch.orderly (by rw [hs']) hs₁).1
    · intro final failure s' hs'
      exact hs'

/-- No head that is answered brings a block sum out of `u64`. -/
def HeadsFit (env : Environment Request Answer ω) (cfg : FollowConfig) : Prop :=
  ∀ head : ℕ, env.Gives .blockNumber (Except.ok head : Except RpcError ℕ) →
    cfg.word.ExactTo (head + cfg.chunk)

theorem HeadsFit.exactTo (hheads : HeadsFit env cfg)
    (htip : cfg.tip.isReorgable = true)
    (htarget : ResolvesTo env.Gives cfg.tip target) :
    cfg.word.ExactTo (target + cfg.chunk) := by
  cases hkind : cfg.tip with
  | finalized =>
      rw [hkind] at htip
      cases htip
  | confirmations n =>
      rw [hkind] at htarget
      rcases htarget with ⟨head, hhead, htarget⟩
      apply (hheads head hhead).mono
      rw [htarget]
      exact Nat.add_le_add_right (Nat.sub_le head n) cfg.chunk

theorem meets_resolve_gives :
    Meets env cfg.tip.resolve world s
      (fun _ target s' => s' = s ∧ ResolvesTo env.Gives cfg.tip target)
      (fun _ _ s' => s' = s) := by
  apply meets_mono meets_resolve
  · intro final target s' hresolved
    rcases hresolved with ⟨hs', htarget⟩
    constructor
    · exact hs'
    · cases hkind : cfg.tip with
      | finalized =>
          rw [hkind] at htarget
          rcases htarget with ⟨hash, hanswer⟩
          exact ⟨hash, world, final, hanswer⟩
      | confirmations n =>
          rw [hkind] at htarget
          rcases htarget with ⟨head, hanswer, htarget⟩
          exact ⟨head, ⟨world, final, hanswer⟩, htarget⟩
  · intro final failure s' h
    exact h.1

theorem meets_pass_orderly (hchunk : 1 ≤ cfg.chunk) (hheads : HeadsFit env cfg)
    (htip : cfg.tip.isReorgable = true) (hs : Orderly s) :
    Meets env (pass cfg updates) world s (fun _ _ s' => Orderly s')
      (fun _ _ s' => Orderly s') := by
  simp only [pass, meets_bind]
  apply meets_mono (meets_repairIfNeeded env.keeps_gives)
  · intro middle _ s₁ hrepair
    apply meets_mono meets_resolve_gives
    · intro after target s₂ hresolved
      rcases hresolved with ⟨hs₂, htarget⟩
      rw [hs₂]
      apply meets_mono (meets_passTo_orderly hchunk
        (hheads.exactTo htip htarget) (hrepair.orderly hs))
      · intro final _ s' h
        exact h.1
      · intro final failure s' h
        exact h
    · intro final failure s' h
      rw [h]
      exact hrepair.orderly hs
  · intro final failure s' h
    rw [h]
    exact hs

theorem meets_followRound_orderly (hchunk : 1 ≤ cfg.chunk)
    (hheads : HeadsFit env cfg) (htip : cfg.tip.isReorgable = true)
    (hs : Orderly s) :
    Meets env (followRound cfg updates) world s (fun _ _ s' => Orderly s')
      (fun _ _ _ => True) := by
  simp only [followRound, meets_bind, meets_attempt]
  apply meets_mono (meets_pass_orderly hchunk hheads htip hs)
  · intro middle _ s₁ hs₁
    simp only [onSuccess, meets_modify, meets_pure]
    exact hs₁.congr rfl rfl
  · intro middle failure s₁ hs₁
    cases failure with
    | err chain =>
        simp only [meets_bind, meets_pure]
        apply meets_mono meets_onFailure
        · intro final _ s' hfailed
          rw [hfailed.2]
          exact hs₁.congr rfl rfl
        · intro final failure s' h
          exact h.elim
    | panic message => trivial
    | killed => trivial

/-- The batches stay in order through passes that fail and rewinds. -/
theorem FollowRun.orderly {rounds : List RoundRecord} (hchunk : 1 ≤ cfg.chunk)
    (hheads : HeadsFit env cfg) (htip : cfg.tip.isReorgable = true)
    (hrun : FollowRun env cfg updates world s rounds final s')
    (hs : Orderly s) : Orderly s' := by
  induction hrun with
  | start => exact hs
  | round hrun hround ih =>
      exact (meets_followRound_orderly hchunk hheads htip ih).of_ok hround

end Passes

/-- A pass that completes with `Ok` having synced, cut where its tip is
resolved. -/
def PassSyncs {ω : Type} (env : Environment Request Answer ω)
    (cfg : FollowConfig) (updates : Bool) (world : ω) (s : Process) (final : ω)
    (s' : Process) : Prop :=
  ∃ checked s₁ resolved s₂ target,
    (repairIfNeeded cfg).Runs env world s checked (.ok ()) s₁ ∧
      cfg.tip.resolve.Runs env checked s₁ resolved (.ok target) s₂ ∧
      s₂.map.cursor < target ∧
      (passTo cfg updates target).Runs env resolved s₂ final (.ok ()) s'

/-- With a numeric tip the watch keeps, after every pass that synced, only what
a reorg inside the window can reach. -/
theorem watch_keeps_window {ω : Type} {env : Environment Request Answer ω}
    {world middle final : ω} {s s₁ s' : Process} {cfg : FollowConfig}
    {updates : Bool} {now : ℕ} {rounds : List RoundRecord}
    (hchunk : 1 ≤ cfg.chunk) (hheads : HeadsFit env cfg)
    (htip : cfg.tip.isReorgable = true)
    (hrun : FollowRun env cfg updates world (s.startFollow now) rounds middle s₁)
    (hpass : PassSyncs env cfg updates middle s₁ final s') :
    ∀ batch ∈ s'.watch.recent, s'.map.cursor - cfg.reorgWindow ≤ batch.1 := by
  have hstart : Orderly (s.startFollow now) := .of_empty rfl
  have hs₁ : Orderly s₁ := hrun.orderly hchunk hheads htip hstart
  rcases hpass with ⟨checked, s₂, resolved, s₃, target, hcheck, hresolve, hlt,
    hto⟩
  have hrepair := (meets_repairIfNeeded env.keeps_gives).of_ok hcheck
  have hs₂ := hrepair.orderly hs₁
  rcases meets_resolve_gives.of_ok hresolve with ⟨hs₃, htarget⟩
  rw [← hs₃] at hs₂
  have hexact := hheads.exactTo htip htarget
  exact ((meets_passTo_orderly hchunk hexact hs₂).of_ok hto).2 hlt htip

/-- What is promised of every tip. -/
def KeepsWindow {ω : Type} (env : Environment Request Answer ω) : Prop :=
  ∀ {world middle final : ω} {s s₁ s' : Process} {cfg : FollowConfig}
    {updates : Bool} {now : ℕ} {rounds : List RoundRecord},
    1 ≤ cfg.chunk → HeadsFit env cfg →
      FollowRun env cfg updates world (s.startFollow now) rounds middle s₁ →
      PassSyncs env cfg updates middle s₁ final s' →
      ∀ batch ∈ s'.watch.recent, s'.map.cursor - cfg.reorgWindow ≤ batch.1

/-! ### A transfer before the window -/

namespace EarlyTransfer

def config (tip : Tip) : FollowConfig :=
  ⟨1, 600, tip, 1, .wrapping⟩

def start : Process :=
  { Process.launched (BalanceMap.new 0) with saved := none }

/-- The holder receives 5 in block 1, and the head is block 3. -/
def env : Environment Request Answer Unit :=
  .answering (DiskFull.chain.respond 3 5)

def finish (tip : Tip) : (Except Failure Unit × Process) × Unit :=
  (passTo (config tip) false 3).exec (DiskFull.chain.respond 3 5) ()
    (start.startFollow 0)

theorem headsFit (tip : Tip) : HeadsFit env (config tip) := by
  intro head hhead
  rcases hhead with ⟨world, after, hanswer⟩
  have hthree : head = 3 := Except.ok.inj (Prod.mk.inj hanswer).1.symm
  have hlt : 3 + 1 < 2 ^ 64 := by decide
  rw [hthree]
  exact Word.exactTo_of_lt hlt

theorem follows (tip : Tip) :
    FollowRun env (config tip) false () (start.startFollow 0) [] ()
      (start.startFollow 0) :=
  .start

theorem checked (tip : Tip) : (repairIfNeeded (config tip)).Runs env ()
    (start.startFollow 0) () (.ok ()) (start.startFollow 0) := by
  cases tip with
  | finalized => exact .done _ _
  | confirmations n => exact .done _ _

theorem resolved_numeric : (Tip.confirmations 0).resolve.Runs env ()
    (start.startFollow 0) () (.ok 3) (start.startFollow 0) :=
  .ask rfl (.done _ _)

theorem resolved_finalized : Tip.finalized.resolve.Runs env ()
    (start.startFollow 0) () (.ok 3) (start.startFollow 0) :=
  .ask rfl (.done _ _)

theorem passed {tip : Tip} (hpass : (finish tip).1.1 = .ok ()) :
    (passTo (config tip) false 3).Runs env () (start.startFollow 0)
      (finish tip).2 (.ok ()) (finish tip).1.2 := by
  unfold finish at hpass ⊢
  exact runs_answering (DiskFull.chain.respond 3 5)
    (passTo (config tip) false 3) () (start.startFollow 0) hpass

/-- Once the tip is resolved to block 3, the pass syncs up to it. -/
theorem synced {tip : Tip}
    (hresolved : tip.resolve.Runs env () (start.startFollow 0) () (.ok 3)
      (start.startFollow 0))
    (hpass : (finish tip).1.1 = .ok ()) :
    PassSyncs env (config tip) false () (start.startFollow 0) (finish tip).2
      (finish tip).1.2 := by
  have hbehind : (start.startFollow 0).map.cursor < 3 := Nat.succ_pos 2
  exact ⟨(), start.startFollow 0, (), start.startFollow 0, 3, checked tip,
    hresolved, hbehind, passed hpass⟩

theorem watch_keeps_window_numeric :
    Within (config (.confirmations 0)).reorgWindow
      (finish (.confirmations 0)).1.2 :=
  watch_keeps_window le_rfl (headsFit _) rfl (follows _)
    (synced resolved_numeric (by decide +kernel))

/-- With a finalized tip the batch of block 1 is kept, two blocks later. -/
theorem watch_keeps_early_transfer : ¬ KeepsWindow env := by
  intro hkeeps
  have hbatch : (1, [DiskFull.holder]) ∈
      (finish .finalized).1.2.watch.recent := by
    decide +kernel
  have hcursor : (finish .finalized).1.2.map.cursor = 3 := by decide +kernel
  have hwithin := hkeeps le_rfl (headsFit _)
    (follows .finalized) (synced resolved_finalized (by decide +kernel)) _
    hbatch
  rw [hcursor] at hwithin
  exact absurd hwithin (by decide)

end EarlyTransfer

end UsdtPir
