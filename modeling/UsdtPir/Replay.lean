import UsdtPir.ChunkedSync

/-!
# Replaying blocks below the cursor

A replay sets the cursor back and folds old blocks in again, reading the
balances at old blocks while it does.  One that runs through the old cursor ends
where going on from there would have ended; one that stops before leaves what it
read last.
-/

namespace UsdtPir

open Interaction
open Program
open Following

/-- Going on from the map to a block: a bounded sync from the block after the
cursor that returns `Ok`, or nothing. -/
inductive Continued (X : Chain) (map : BalanceMap) (toBlock : ℕ) :
    BalanceMap → Prop
  | here (hend : toBlock = map.cursor) : Continued X map toBlock map
  | synced {ω : Type} {env : Environment Request Answer ω} {world final : ω}
      {s s' : Process} {cfg : FollowConfig} {retries : ℕ} {stats : SyncStats}
      (hfaithful : env.Keeps X.Tells) (hbehind : map.cursor < toBlock)
      (hmap : s.map = map)
      (hrun : (runSync cfg (map.cursor + 1) toBlock retries).Runs env world s
        final (.ok stats) s') :
      Continued X map toBlock s'.map

section Replays

variable {X : Chain} {start first lo toBlock : ℕ} {map map' : BalanceMap}
    {saved : Option BalanceMap} {a : Address}

theorem Chain.backsReads_tells (X : Chain) : X.BacksReads X.Tells :=
  fun _ _ h _ => h

theorem prepareReplay_back {word : Word}
    (h : prepareReplay word map (some first) = (lo, map'))
    (hle : first ≤ map.cursor) :
    lo = first ∧ map' = { map with cursor := first - 1 } := by
  simp only [prepareReplay, Option.getD_some, if_pos hle, Prod.mk.injEq] at h
  exact ⟨h.1.symm, h.2.symm⟩

theorem blank_unique {x y : Balances} (hx : blank x = true)
    (hy : blank y = true) : x = y := by
  rw [blank, beq_iff_eq] at hx hy
  rw [hx, hy]

/-- In every history a quiet address that was touched is current. -/
theorem SyncHistory.known (hquiet : X.feed.QuietAt a)
    (h : SyncHistory X start map saved) :
    Known X.feed blank (some (start - 1)) a ⟨map.holding, map.cursor, []⟩ := by
  have hnew : Known X.feed blank (some (start - 1)) a
      ⟨(BalanceMap.new (start - 1)).holding, start - 1, []⟩ := by
    intro hin
    exact absurd (Feed.knownBy_some.mp hin)
      (X.feed.not_touchedIn_self a le_rfl)
  apply (h.keeps (P := fun map => Known X.feed blank (some (start - 1)) a
    ⟨map.holding, map.cursor, []⟩) hnew _).1
  intro head hi s s' hchunk hs
  have hknown : Known X.feed blank (some (start - 1)) a s.follower := hs
  have hafter := hknown.refreshed hquiet
    (hchunk.refreshed (X.backs_says head).reads).1
  exact hafter

/-- A bounded sync samples the chain from the cursor on. -/
theorem runSync_sampled {ω : Type} {env : Environment Request Answer ω}
    {world final : ω} {s s' : Process} {cfg : FollowConfig} {retries : ℕ}
    {stats : SyncStats} (hfaithful : env.Keeps X.Tells)
    (hto : toBlock < 2 ^ 64) (hlo : lo = s.map.cursor + 1) (hle : lo ≤ toBlock)
    (hrun : (runSync cfg lo toBlock retries).Runs env world s final (.ok stats)
      s') :
    ∃ ends, Chunked X.Tells s.map ends s'.map ∧
      ∀ a, Sampled X.feed blank a s.map.cursor (s.map.holding a) ends toBlock
        (s'.map.holding a) := by
  have hreads := X.backsReads_tells
  rcases (meets_runSync_chunked hfaithful hreads.ranged hto hlo hle).of_ok hrun
    with ⟨hcursor, ends, hchunked⟩
  refine ⟨ends, hchunked, fun a => ?_⟩
  rw [← hcursor]
  exact hchunked.sampled hreads a

theorem Continued.sampled (hto : toBlock < 2 ^ 64)
    (h : Continued X map toBlock map') :
    ∃ ends, ∀ a, Sampled X.feed blank a map.cursor (map.holding a) ends toBlock
      (map'.holding a) := by
  cases h with
  | here hend =>
      rw [hend]
      exact ⟨[], fun a => .nil _ _⟩
  | synced hfaithful hbehind hmap hrun =>
      rw [← hmap] at hrun hbehind ⊢
      rcases runSync_sampled hfaithful hto rfl hbehind hrun with
        ⟨ends, -, hsampled⟩
      exact ⟨ends, hsampled⟩

end Replays

/-- Replaying through the cursor and going on from it leave the same addresses
with the same balances, as far as balances change only at watched events. -/
theorem replay_rejoins {X : Chain} {start first lo toBlock retries : ℕ}
    {map map' : BalanceMap} {saved : Option BalanceMap} {ω : Type}
    {env : Environment Request Answer ω} {world final : ω} {s s' : Process}
    {cfg : FollowConfig} {stats : SyncStats} (hstart : 0 < start)
    (hbuilt : SyncHistory X start map saved) (hfirst : start ≤ first)
    (hle : first ≤ map.cursor) (hto : map.cursor ≤ toBlock)
    (hbound : toBlock < 2 ^ 64) (hfaithful : env.Keeps X.Tells)
    (hprepared : prepareReplay cfg.word map (some first) = (lo, s.map))
    (hreplay : (runSync cfg lo toBlock retries).Runs env world s final
      (.ok stats) s')
    (hcontinued : Continued X map toBlock map') (a : Address)
    (hquiet : X.feed.QuietAt a) : s'.map.holding a = map'.holding a := by
  rcases prepareReplay_back hprepared hle with ⟨hlo, hmap⟩
  have hcursor : s.map.cursor = first - 1 := by rw [hmap]
  have hholding : s.map.holding a = map.holding a := by
    rw [hmap]
    rfl
  rcases runSync_sampled hfaithful hbound (by omega) (by omega) hreplay with
    ⟨ends, -, hback⟩
  rcases hcontinued.sampled hbound with ⟨ends', hon⟩
  have hsampled := hback a
  rw [hholding, hcursor] at hsampled
  have hknown : X.feed.TouchedIn a (first - 1) map.cursor →
      map.holding a = stored blank (X.balances a map.cursor) := by
    intro htouched
    apply hbuilt.known hquiet
    exact Feed.knownBy_some.mpr (htouched.mono (by omega) le_rfl)
  exact hsampled.rejoins hquiet (by omega) hknown (hon a)

/-- A replay that stops before the cursor changes nothing exactly when, for
every address, the balances it reads last are those in the map: for balances
that change only at watched events, when those at the end of the range are those
at the cursor. -/
theorem replay_restores_iff {X : Chain} {start first lo toBlock retries : ℕ}
    {map : BalanceMap} {saved : Option BalanceMap} {ω : Type}
    {env : Environment Request Answer ω} {world final : ω} {s s' : Process}
    {cfg : FollowConfig} {stats : SyncStats} (hstart : 0 < start)
    (hbuilt : SyncHistory X start map saved) (hfirst : start ≤ first)
    (hle : first ≤ toBlock) (hto : toBlock < map.cursor)
    (hbound : map.cursor < 2 ^ 64) (hfaithful : env.Keeps X.Tells)
    (hprepared : prepareReplay cfg.word map (some first) = (lo, s.map))
    (hreplay : (runSync cfg lo toBlock retries).Runs env world s final
      (.ok stats) s') :
    ∃ ends, Chunked X.Tells s.map ends s'.map ∧
      ((∀ a, s'.map.holding a = map.holding a) ↔
        ∀ a n, LastRead X.feed a (first - 1) ends toBlock n →
          stored blank (X.balances a n) = map.holding a) ∧
      ∀ a, X.feed.QuietAt a →
        (s'.map.holding a = map.holding a ↔
          (X.feed.TouchedIn a (first - 1) toBlock →
            X.balances a toBlock = X.balances a map.cursor)) := by
  rcases prepareReplay_back hprepared (by omega) with ⟨hlo, hmap⟩
  have hcursor : s.map.cursor = first - 1 := by rw [hmap]
  have hholding : s.map.holding = map.holding := by
    rw [hmap]
    rfl
  rcases runSync_sampled hfaithful (by omega) (by omega) (by omega) hreplay with
    ⟨ends, hchunked, hsampled⟩
  rw [hholding, hcursor] at hsampled
  refine ⟨ends, hchunked, ?_, ?_⟩
  · exact forall_congr' fun a => (hsampled a).unchanged_iff
  · intro a hquiet
    apply (hsampled a).unchanged_iff_value hquiet blank_unique
    intro htouched
    apply hbuilt.known hquiet
    exact Feed.knownBy_some.mpr (htouched.mono (by omega) hto.le)

/-- A replay that stops before the cursor leaves every address as it was. -/
def ReplaysRestore (X : Chain) (env : Environment Request Answer Unit) : Prop :=
  ∀ (start first lo toBlock retries : ℕ) (map : BalanceMap)
    (saved : Option BalanceMap) (s s' : Process) (cfg : FollowConfig)
    (stats : SyncStats), 0 < start → SyncHistory X start map saved →
    start ≤ first → first ≤ toBlock → toBlock < map.cursor →
    prepareReplay cfg.word map (some first) = (lo, s.map) →
    (runSync cfg lo toBlock retries).Runs env () s () (.ok stats) s' →
    ∀ a, s'.map.holding a = map.holding a

namespace ReceiveSpend

/-- The process after `prepare_replay(1)`. -/
def rewound : Process :=
  { finish with map := { finish.map with cursor := 0 } }

def replayed (toBlock : ℕ) : (Except Failure SyncStats × Process) × Unit :=
  (runSync config 1 toBlock 0).exec (chain.respond 2 5) () rewound

theorem finish_cursor : finish.map.cursor = 2 := by
  decide +kernel

theorem prepared :
    prepareReplay config.word finish.map (some 1) = (1, rewound.map) := by
  have hle : 1 ≤ finish.map.cursor := by
    rw [finish_cursor]
    decide
  simp [prepareReplay, rewound, hle]

theorem replayed_runs {toBlock : ℕ} {stats : SyncStats}
    (h : (replayed toBlock).1.1 = .ok stats) :
    (runSync config 1 toBlock 0).Runs (Environment.of (chain.Says 2)) () rewound
      () (.ok stats) (replayed toBlock).1.2 :=
  chain.runs_exec (runSync config 1 toBlock 0) rewound balance_lt h

theorem replayed_through_ok :
    (replayed 2).1.1 = .ok ⟨2, 2, 3, 3, 1, 0, 1, 1, 0, 0⟩ := by
  decide +kernel

theorem replayed_before_ok :
    (replayed 1).1.1 = .ok ⟨1, 1, 2, 2, 1, 0, 0, 1, 0, 0⟩ := by
  decide +kernel

theorem spender_ne_zero : spender ≠ Address.zero := by
  decide

/-- The spender comes back at block 1 and goes again at block 2. -/
theorem replay_rejoins_spender :
    (replayed 2).1.2.map.holding spender = finish.map.holding spender :=
  replay_rejoins (by decide) history le_rfl (by rw [finish_cursor]; decide)
    (by rw [finish_cursor]) (by decide) (chain.keeps_tells 2) prepared
    (replayed_runs replayed_through_ok) (.here (by rw [finish_cursor])) spender
    (quiet.quietAt spender_ne_zero)

/-- The holder has its balance of block 2 already in block 1, and the spender
has not. -/
theorem replay_restores_iff_block_one :
    (replayed 1).1.2.map.holding holder = finish.map.holding holder ∧
      (replayed 1).1.2.map.holding spender ≠ finish.map.holding spender := by
  have hle : (1 : ℕ) < finish.map.cursor := by
    rw [finish_cursor]
    decide
  have hbound : finish.map.cursor < 2 ^ 64 := by
    rw [finish_cursor]
    decide
  rcases replay_restores_iff (by decide) history le_rfl le_rfl hle hbound
      (chain.keeps_tells 2) prepared (replayed_runs replayed_before_ok) with
    ⟨ends, -, -, hvalue⟩
  rw [finish_cursor] at hvalue
  constructor
  · apply (hvalue holder (quiet.quietAt (by decide))).mpr
    intro _
    decide
  · intro heq
    have htouched := (hvalue spender (quiet.quietAt spender_ne_zero)).mp heq
    have hdiffer : chain.balances spender 1 ≠ chain.balances spender 2 := by
      decide
    have hmoved : chain.balances spender 1 ≠ chain.balances spender 0 := by
      decide
    apply hdiffer
    apply htouched
    by_contra huntouched
    exact hmoved (Feed.value_eq_of_untouched (quiet.quietAt spender_ne_zero)
      (by decide) huntouched)

/-- In block 1 the spender has the 3 that it spends in block 2. -/
theorem replay_restores_old_balances :
    ¬ ReplaysRestore chain (Environment.of (chain.Says 2)) := by
  intro h
  have hle : (1 : ℕ) < finish.map.cursor := by
    rw [finish_cursor]
    decide
  have hsame := h 1 1 1 1 0 finish.map finish.saved rewound (replayed 1).1.2
    config _ (by decide) history le_rfl le_rfl hle prepared
    (replayed_runs replayed_before_ok) spender
  have hafter : (replayed 1).1.2.map.holding spender = some (3, 0) := by
    decide +kernel
  have hbefore : finish.map.holding spender = none := by
    decide +kernel
  rw [hafter, hbefore] at hsame
  cases hsame

end ReceiveSpend

end UsdtPir
