import UsdtPir.ScannedBlocks
import UsdtPir.FalseAlarms

/-!
# Every command that ran on a snapshot

A snapshot is created at a start block and then handed from command to command.
A sync begins where `--from` says, and nothing compares that with the block
after the cursor.
-/

namespace UsdtPir

open Interaction
open Program

/-- A process that has not loaded its map; the map it will load or create
stands for it. -/
structure Reopened (start : ℕ) (s s' : Process) : Prop where
  saved : s'.saved = s.saved
  map : s'.map = s.saved.getD (BalanceMap.new (start - 1))

/-- The commands that ran on one snapshot, with the ledger of the process that
holds the map.  `permits` says which `--from` may meet which map. -/
inductive CommandHistory {ω : Type} (env : Environment Request Answer ω)
    (start : ℕ) (permits : Option ℕ → BalanceMap → Prop) :
    Ledger → Process → Prop
  | created {s : Process} (hstart : 1 ≤ start)
      (hmap : s.map = BalanceMap.new (start - 1)) (hsaved : s.saved = none) :
      CommandHistory env start permits Ledger.empty s
  | sync {l l' : Ledger} {s s₀ s' : Process} {world final : ω}
      {cfg : FollowConfig} {arg : Option ℕ} {target : Target} {retries : ℕ}
      {outcome : Except Failure SyncStats}
      (hist : CommandHistory env start permits l s)
      (hreopened : Reopened start s s₀)
      (hcreated : s.saved = none → arg = some start)
      (hpermits : ∀ map, s.saved = some map → permits arg map)
      (hrun : (syncCommand cfg arg target retries).Runs
        (env.observed noteScan) (world, l.reopened) s₀ (final, l') outcome s') :
      CommandHistory env start permits l' s'
  | follow {l l₁ l' : Ledger} {s s₀ s₁ s' : Process} {world middle final : ω}
      {cfg : FollowConfig} {updates : Bool} {state : String} {now : ℕ}
      {fromBlock : Option Target} {outcome : Except Failure Unit}
      (hist : CommandHistory env start permits l s)
      (hreopened : Reopened start s s₀)
      (hopened : (openMap state fromBlock).Runs (env.observed noteScan)
        (world, l.reopened) s₀ (middle, l₁) (.ok ()) s₁)
      (hcreated : s.saved = none → s₁.map.cursor = start - 1)
      (hrun : (followFrom cfg updates now).Runs (env.observed noteScan)
        (middle, l₁) s₁ (final, l') outcome s') :
      CommandHistory env start permits l' s'

/-- `--from` is not past the block after the cursor. -/
def LeavesNoGap (arg : Option ℕ) (map : BalanceMap) : Prop :=
  ∀ lo, arg = some lo → lo ≤ map.cursor + 1

section Rules

variable {ω : Type} {env : Environment Request Answer ω} {world final : ω}
    {l l' : Ledger} {s s₀ s' : Process} {cfg : FollowConfig}
    {start toBlock retries : ℕ} {arg : Option ℕ} {map : BalanceMap}
    {ranges : List (ℕ × ℕ)}

/-- What the ledger shows of a map that is about to be loaded. -/
structure Loadable (start : ℕ) (l : Ledger) (s : Process) : Prop where
  start_pos : 1 ≤ start
  accounted : Accounted start l s
  saved : ∀ map, s.saved = some map → Covers l.folded start map.cursor

theorem Accounted.loadable (h : Accounted start l s) (hstart : 1 ≤ start)
    (hreopened : Reopened start s s₀) : Loadable start l.reopened s₀ := by
  have hdisk : ∀ map, s₀.saved = some map →
      Covers l.stored start map.cursor := by
    intro map hmap
    rw [hreopened.saved] at hmap
    exact h.disk map hmap
  refine ⟨hstart, ⟨?_, hdisk⟩, hdisk⟩
  rw [hreopened.map]
  cases hsaved : s.saved with
  | none =>
      apply covers_of_lt
      change start - 1 < start
      omega
  | some map => exact h.disk map hsaved

theorem Loadable.mono (h : Loadable start l s) (hext : l.Extends l')
    (hcursor : s'.map.cursor ≤ s.map.cursor) (hsaved : s'.saved = s.saved) :
    Loadable start l' s' := by
  refine ⟨h.start_pos, h.accounted.mono hext hcursor hsaved, ?_⟩
  intro map hmap
  rw [hsaved] at hmap
  exact (h.saved map hmap).mono hext.1 le_rfl

theorem prepareReplay_below (word : Word)
    (h : Covers ranges start map.cursor) (hgap : LeavesNoGap arg map) :
    CoversBelow ranges start (prepareReplay word map arg).1 ∧
      (prepareReplay word map arg).2.cursor ≤ map.cursor := by
  have hfirst : CoversBelow ranges start (arg.getD (word.add map.cursor 1)) := by
    cases arg with
    | none => exact h.below_next word
    | some lo => exact h.below (hgap lo rfl)
  unfold prepareReplay
  dsimp only
  split
  · rename_i hle
    refine ⟨hfirst, ?_⟩
    dsimp only
    omega
  · exact ⟨hfirst, le_rfl⟩

/-- A sync, from the loaded map on. -/
theorem meets_syncLoaded_accounted (hs : Accounted start l s)
    (hgap : LeavesNoGap arg s.map) :
    Meets (env.observed noteScan)
      (do
        let prepared := prepareReplay cfg.word s.map arg
        Program.modify fun s => { s with map := prepared.2 }
        if prepared.1 ≤ toBlock then do
          preflight prepared.1
          runSync cfg prepared.1 toBlock retries
        else
          .throw (.err
            [s!"nothing to do: --from {prepared.1} is past --to {toBlock}"]))
      (world, l) s
      (fun final _ s' => Accounted start final.2 s')
      (fun final _ s' => Accounted start final.2 s') := by
  rcases prepareReplay_below cfg.word hs.memory hgap with ⟨hbelow, hcursor⟩
  have hprepared : Accounted start l
      { s with map := (prepareReplay cfg.word s.map arg).2 } :=
    hs.mono (.refl l) hcursor rfl
  simp only [meets_bind, meets_modify]
  split
  · rw [meets_bind]
    have hsettles : Settles (preflight (prepareReplay cfg.word s.map arg).1) :=
      settles_preflight
    refine meets_mono (hsettles.2.observed hsettles.1 noteScan_extends
      (.refl l)) ?_ ?_
    · rintro ⟨middle, recorded⟩ _ s₁ ⟨hext, hcursor', hsaved⟩
      exact meets_runSync_accounted (hbelow.mono hext.1)
        (hprepared.mono hext hcursor' hsaved)
    · rintro final failure s' ⟨hext, hcursor', hsaved⟩
      exact hprepared.mono hext hcursor' hsaved
  · exact hprepared

theorem meets_syncRange_accounted (hs : Loadable start l s)
    (hcreated : s.saved = none → arg = some start)
    (hpermits : ∀ map, s.saved = some map → LeavesNoGap arg map) :
    Meets (env.observed noteScan) (syncRange cfg arg toBlock retries)
      (world, l) s
      (fun final _ s' => Accounted start final.2 s')
      (fun final _ s' => Accounted start final.2 s') := by
  simp only [syncRange, loadOrCreateMap, meets_bind, meets_get]
  cases hsaved : s.saved with
  | none =>
      have hstart := hs.start_pos
      have hnew : Accounted start l
          { s with map := BalanceMap.new (start - 1) } := by
        constructor
        · apply covers_of_lt
          change start - 1 < start
          omega
        · exact hs.accounted.disk
      have hgap : LeavesNoGap (some start) (BalanceMap.new (start - 1)) := by
        intro lo hlo
        rw [← Option.some.inj hlo]
        change start ≤ start - 1 + 1
        omega
      rw [hcreated hsaved]
      simp only [createMap, meets_bind, meets_pure, meets_modify]
      exact meets_syncLoaded_accounted hnew hgap
  | some map =>
      have hloaded : Accounted start l { s with map := map } :=
        ⟨hs.saved map hsaved, hs.accounted.disk⟩
      simp only [meets_modify]
      exact meets_syncLoaded_accounted hloaded (hpermits map hsaved)

theorem meets_syncCommand_accounted {target : Target}
    (hs : Loadable start l s)
    (hcreated : s.saved = none → arg = some start)
    (hpermits : ∀ map, s.saved = some map → LeavesNoGap arg map) :
    Meets (env.observed noteScan) (syncCommand cfg arg target retries)
      (world, l) s
      (fun final _ s' => Accounted start final.2 s')
      (fun final _ s' => Accounted start final.2 s') := by
  simp only [syncCommand, meets_bind]
  have hsettles : Settles target.resolve := settles_target
  refine meets_mono (hsettles.2.observed hsettles.1 noteScan_extends
    (.refl l)) ?_ ?_
  · rintro ⟨middle, recorded⟩ toBlock s₁ ⟨hext, hcursor, hsaved⟩
    apply meets_syncRange_accounted (hs.mono hext hcursor hsaved)
    · rw [hsaved]
      exact hcreated
    · rw [hsaved]
      exact hpermits
  · rintro final failure s' ⟨hext, hcursor, hsaved⟩
    exact hs.accounted.mono hext hcursor hsaved

/-- An opened map is the saved one, or a new one. -/
theorem meets_openMap_saved {state : String} {fromBlock : Option Target} :
    Meets (env.observed noteScan) (openMap state fromBlock) (world, l) s
      (fun final _ s' => l.Extends final.2 ∧ s'.saved = s.saved ∧
        ∀ map, s.saved = some map → s'.map = map)
      (fun _ _ _ => True) := by
  simp only [openMap, meets_bind, meets_get]
  cases hsaved : s.saved with
  | none =>
      cases fromBlock with
      | none => trivial
      | some target =>
          have hsettles : Settles target.resolve := settles_target
          simp only [meets_bind]
          refine meets_mono (hsettles.2.observed hsettles.1 noteScan_extends
            (.refl l)) ?_ (fun _ _ _ _ => trivial)
          rintro ⟨middle, recorded⟩ first s₁ ⟨hext, -, hsame⟩
          simp only [meets_modify]
          refine ⟨hext, hsame.trans hsaved, ?_⟩
          intro map hmap
          cases hmap
  | some map =>
      cases fromBlock with
      | none =>
          simp only [meets_modify]
          exact ⟨.refl l, hsaved, fun map' hmap => Option.some.inj hmap⟩
      | some target => trivial

/-- What holds however a program ends holds after any run. -/
theorem accounted_of_runs {α : Type} {p : Sync α} {outcome : Except Failure α}
    (hmeets : Meets (env.observed noteScan) p (world, l) s
      (fun final _ s' => Accounted start final.2 s')
      (fun final _ s' => Accounted start final.2 s'))
    (hrun : p.Runs (env.observed noteScan) (world, l) s (final, l') outcome
      s') : Accounted start l' s' := by
  cases outcome with
  | ok result => exact hmeets.of_ok hrun
  | error failure => exact hmeets.of_error hrun

theorem Accounted.sync {target : Target} {outcome : Except Failure SyncStats}
    (hs : Accounted start l s) (hstart : 1 ≤ start)
    (hreopened : Reopened start s s₀)
    (hcreated : s.saved = none → arg = some start)
    (hpermits : ∀ map, s.saved = some map → LeavesNoGap arg map)
    (hrun : (syncCommand cfg arg target retries).Runs (env.observed noteScan)
      (world, l.reopened) s₀ (final, l') outcome s') :
    Accounted start l' s' := by
  rw [← hreopened.saved] at hcreated hpermits
  exact accounted_of_runs (meets_syncCommand_accounted
    (hs.loadable hstart hreopened) hcreated hpermits) hrun

theorem Accounted.follow {s₁ : Process} {l₁ : Ledger} {middle : ω}
    {updates : Bool} {state : String} {now : ℕ} {fromBlock : Option Target}
    {outcome : Except Failure Unit}
    (hs : Accounted start l s) (hstart : 1 ≤ start)
    (hreopened : Reopened start s s₀)
    (hopened : (openMap state fromBlock).Runs (env.observed noteScan)
      (world, l.reopened) s₀ (middle, l₁) (.ok ()) s₁)
    (hcreated : s.saved = none → s₁.map.cursor = start - 1)
    (hrun : (followFrom cfg updates now).Runs (env.observed noteScan)
      (middle, l₁) s₁ (final, l') outcome s') :
    Accounted start l' s' := by
  have hloadable := hs.loadable hstart hreopened
  rcases meets_openMap_saved.of_ok hopened with ⟨hext, hsaved, hloaded⟩
  have hs₁ : Accounted start l₁ s₁ := by
    constructor
    · cases h : s₀.saved with
      | none =>
          rw [hreopened.saved] at h
          apply covers_of_lt
          rw [hcreated h]
          omega
      | some map =>
          rw [hloaded map h]
          exact (hloadable.saved map h).mono hext.1 le_rfl
    · intro map h
      rw [hsaved] at h
      rw [hext.2]
      exact hloadable.accounted.disk map h
  exact accounted_of_runs (accounts_followFrom hs₁) hrun

end Rules

theorem CommandHistory.start_pos {ω : Type}
    {env : Environment Request Answer ω} {start : ℕ}
    {permits : Option ℕ → BalanceMap → Prop} {l : Ledger} {s : Process}
    (hist : CommandHistory env start permits l s) : 1 ≤ start := by
  induction hist with
  | created hstart hmap hsaved => exact hstart
  | sync hist hreopened hcreated hpermits hrun ih => exact ih
  | follow hist hreopened hopened hcreated hrun ih => exact ih

/-- Where no `--from` leaves a gap, every block up to the cursor was folded,
whatever ran and however it ended. -/
theorem history_accounted {ω : Type} {env : Environment Request Answer ω}
    {start : ℕ} {l : Ledger} {s : Process}
    (hist : CommandHistory env start LeavesNoGap l s) :
    Accounted start l s := by
  have hstart := hist.start_pos
  induction hist with
  | created _ hmap hsaved =>
      constructor
      · rw [hmap]
        apply covers_of_lt
        change start - 1 < start
        omega
      · intro map h
        rw [hsaved] at h
        cases h
  | sync hist hreopened hcreated hpermits hrun ih =>
      exact ih.sync hstart hreopened hcreated hpermits hrun
  | follow hist hreopened hopened hcreated hrun ih =>
      exact ih.follow hstart hreopened hopened hcreated hrun

/-! ### A sync that begins two blocks on -/

namespace SkippedBlock

def first : (Except Failure SyncStats × Process) × (Unit × Ledger) :=
  (syncCommand TimedOut.config (some 14353601) (.number 14353601) 10).exec
    (noted (TimedOut.chain.respond 14353605 3) noteScan) ((), Ledger.empty)
    { Process.launched (BalanceMap.new 14353600) with saved := none }

/-- A process for the map that `s` left on disk. -/
def reopen (s : Process) : Process :=
  { Process.launched (s.saved.getD (BalanceMap.new 14353600)) with
    saved := s.saved }

def second (lo : ℕ) : (Except Failure SyncStats × Process) × (Unit × Ledger) :=
  (syncCommand TimedOut.config (some lo) (.number 14353603) 10).exec
    (noted (TimedOut.chain.respond 14353605 3) noteScan)
    ((), first.2.2.reopened) (reopen first.1.2)

theorem history_first {permits : Option ℕ → BalanceMap → Prop} :
    CommandHistory (Environment.of (TimedOut.chain.Says 14353605)) 14353601
      permits first.2.2 first.1.2 := by
  have hcreated : CommandHistory
      (Environment.of (TimedOut.chain.Says 14353605)) 14353601 permits
      Ledger.empty
      { Process.launched (BalanceMap.new 14353600) with saved := none } :=
    .created (by decide) rfl rfl
  refine .sync hcreated ⟨rfl, rfl⟩ (fun _ => rfl) ?_
    (Program.runs_exec_noted id _ () _ _
      (TimedOut.chain.says_respond TimedOut.balance_lt 14353605 3) rfl)
  intro map hmap
  cases hmap

theorem history_second {permits : Option ℕ → BalanceMap → Prop} {lo : ℕ}
    (hpermits : ∀ map, first.1.2.saved = some map → permits (some lo) map) :
    CommandHistory (Environment.of (TimedOut.chain.Says 14353605)) 14353601
      permits (second lo).2.2 (second lo).1.2 := by
  have hreopened : Reopened 14353601 first.1.2 (reopen first.1.2) :=
    ⟨rfl, rfl⟩
  refine .sync history_first hreopened ?_ hpermits
    (Program.runs_exec_noted id _ () _ _
      (TimedOut.chain.says_respond TimedOut.balance_lt 14353605 3) rfl)
  intro hnone
  exact absurd (congrArg Option.isSome hnone) (by decide +kernel)

theorem first_cursor :
    first.1.2.saved.map BalanceMap.cursor = some 14353601 := by
  decide +kernel

theorem history_accounted_next :
    Accounted 14353601 (second 14353602).2.2 (second 14353602).1.2 := by
  apply history_accounted
  apply history_second
  intro map hmap lo hlo
  have hcursor := first_cursor
  rw [hmap, Option.map_some, Option.some.injEq] at hcursor
  rw [hcursor, ← Option.some.inj hlo]

theorem second_cursor : (second 14353603).1.2.map.cursor = 14353603 := by
  decide +kernel

theorem second_folded : (second 14353603).2.2.folded =
    [(14353601, 14353601), (14353603, 14353603)] := by
  decide +kernel

/-- Block 14353602 lies below the cursor and was never folded. -/
theorem sync_skips_block :
    ¬ ∀ l s, CommandHistory (Environment.of (TimedOut.chain.Says 14353605))
      14353601 (fun _ _ => True) l s → Accounted 14353601 l s := by
  intro haccounted
  have hsecond := haccounted (second 14353603).2.2 (second 14353603).1.2
    (history_second fun _ _ => trivial)
  have hcovers := hsecond.memory
  rw [second_cursor, second_folded] at hcovers
  rcases hcovers 14353602 (by decide) (by decide) (by decide) with ⟨r, hr, hlo, hhi⟩
  simp only [List.mem_cons, List.not_mem_nil, or_false] at hr
  rcases hr with rfl | rfl
  · dsimp only at hhi
    omega
  · dsimp only at hlo
    omega

end SkippedBlock

end UsdtPir
