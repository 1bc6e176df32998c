import UsdtPir.AskedQuestions
import UsdtPir.CanonicalChain

/-!
# How a range is cut

The outer loop asks for at most a chunk of blocks, the inner one halves what
was too much for the provider and the chunk with it, and the outer one goes on
after the last block that was served.  Whatever the provider answers, the
ranges that are fetched lie end to end.
-/

/-! ## Ranges end to end -/

namespace Interval

/-- The ranges follow one another from `lo` to the block before `lo'`, and none
is empty. -/
inductive Cuts : ℕ → List (ℕ × ℕ) → ℕ → Prop
  | nil (lo : ℕ) : Cuts lo [] lo
  | cons {lo hi lo' : ℕ} {ranges : List (ℕ × ℕ)} (hle : lo ≤ hi)
      (hrest : Cuts (hi + 1) ranges lo') : Cuts lo ((lo, hi) :: ranges) lo'

variable {lo hi lo' b : ℕ} {ranges : List (ℕ × ℕ)}

theorem Cuts.length_le (h : Cuts lo ranges lo') :
    lo + ranges.length ≤ lo' := by
  induction h with
  | nil lo => exact le_rfl
  | cons hle hrest ih =>
      rw [List.length_cons]
      omega

theorem Cuts.bounds (h : Cuts lo ranges lo') {r : ℕ × ℕ} (hr : r ∈ ranges) :
    lo ≤ r.1 ∧ r.1 ≤ r.2 ∧ r.2 < lo' := by
  induction h with
  | nil lo => cases hr
  | cons hle hrest ih =>
      have hlast := hrest.length_le
      rcases List.mem_cons.mp hr with rfl | hr
      · exact ⟨le_rfl, hle, by omega⟩
      · have hlater := ih hr
        omega

theorem Cuts.append (h : Cuts lo ranges lo') (hle : lo' ≤ hi) :
    Cuts lo (ranges ++ [(lo', hi)]) (hi + 1) := by
  induction h with
  | nil lo => exact .cons hle (.nil _)
  | cons hfirst hrest ih => exact .cons hfirst (ih hle)

/-- No gap and no overlap. -/
theorem Cuts.covers (h : Cuts lo ranges lo') (hlo : lo ≤ b) (hlt : b < lo') :
    ∃! r, r ∈ ranges ∧ r.1 ≤ b ∧ b ≤ r.2 := by
  induction h with
  | nil lo => omega
  | @cons lo hi lo' ranges hle hrest ih =>
      by_cases hhi : b ≤ hi
      · refine ⟨(lo, hi), ⟨List.mem_cons_self, hlo, hhi⟩, ?_⟩
        rintro r ⟨hr, hfirst, hlast⟩
        rcases List.mem_cons.mp hr with rfl | hr
        · rfl
        · have hlater := hrest.bounds hr
          omega
      · rcases ih (by omega) hlt with ⟨r, ⟨hr, hin⟩, hunique⟩
        refine ⟨r, ⟨List.mem_cons_of_mem _ hr, hin⟩, ?_⟩
        rintro r' ⟨hr', hin'⟩
        rcases List.mem_cons.mp hr' with rfl | hr'
        · exact absurd hin'.2 hhi
        · exact hunique r' ⟨hr', hin'⟩

end Interval

namespace UsdtPir

open Interaction
open Program
open Interval

/-! ## Arithmetic that does not overflow -/

/-- Sums up to the bound are exact. -/
def Word.ExactTo (word : Word) (bound : ℕ) : Prop :=
  ∀ a b, a + b ≤ bound → word.add a b = a + b

theorem Word.exactTo_natural (bound : ℕ) : Word.natural.ExactTo bound :=
  fun _ _ _ => rfl

theorem Word.exactTo_of_lt {word : Word} {bound : ℕ} (h : bound < 2 ^ 64) :
    word.ExactTo bound :=
  fun a b hle => word.add_of_lt a b (Nat.lt_of_le_of_lt hle h)

theorem Word.ExactTo.mono {word : Word} {bound bound' : ℕ}
    (h : word.ExactTo bound) (hle : bound' ≤ bound) : word.ExactTo bound' :=
  fun a b hsum => h a b (hsum.trans hle)

/-! ## The inner loop -/

/-- The body of the loop of `fetch_logs`, before `again`. -/
def fetchBody (lo hi chunk : ℕ) (again : Sync (List Log × ℕ × ℕ)) :
    Sync (List Log × ℕ × ℕ) := do
  let answer ← Ask.getLogs (filter lo hi)
  match answer with
  | .ok logs => pure (logs, hi, chunk)
  | .error e =>
      if isResultCap e ∧ lo < hi then
        again
      else
        liftRpc [] (.error e)

section Fetching

variable {lo hi chunk fuel : ℕ}

theorem fetchLogs_one_block (h : hi ≤ lo)
    (again : Sync (List Log × ℕ × ℕ)) :
    fetchLogs lo 0 hi chunk = fetchBody lo hi chunk again := by
  have hnot : ∀ e, ¬ (isResultCap e = true ∧ lo < hi) := by
    intro e hcap
    omega
  unfold fetchLogs fetchBody
  congr 1
  funext answer
  cases answer with
  | ok logs => rfl
  | error e =>
      simp only [if_neg (hnot e)]
      rfl

/-- Fuel for every block but the first is enough. -/
theorem fetchLogs_fuel (h : hi - lo ≤ fuel) :
    fetchLogs lo fuel hi chunk = fetchLogs lo (hi - lo) hi chunk := by
  induction fuel using Nat.strong_induction_on generalizing hi chunk with
  | _ fuel ih =>
      cases fuel with
      | zero => rw [Nat.le_zero.mp h]
      | succ fuel =>
          rcases Nat.lt_or_ge lo hi with hlt | hle
          · have hsucc : hi - lo = hi - lo - 1 + 1 := by omega
            have hnarrow : ∀ fuel' ≤ fuel, lo + (hi - lo) / 2 - lo ≤ fuel' →
                fetchLogs lo fuel' (lo + (hi - lo) / 2) (max (chunk / 2) 1) =
                  fetchLogs lo (lo + (hi - lo) / 2 - lo) (lo + (hi - lo) / 2)
                    (max (chunk / 2) 1) := by
              intro fuel' hle henough
              exact ih fuel' (Nat.lt_succ_of_le hle) henough
            have hfirst := hnarrow fuel le_rfl (by omega)
            have hsecond := hnarrow (hi - lo - 1) (by omega) (by omega)
            rw [hsucc]
            unfold fetchLogs
            rw [hfirst, hsecond]
          · have hzero : hi - lo = 0 := by omega
            rw [hzero]
            exact (fetchLogs_one_block hle _).symm

/-- The loop of the source: the fuel that is passed never cuts it short. -/
theorem fetchLogs_loop :
    fetchLogs lo (hi - lo) hi chunk =
      fetchBody lo hi chunk
        (fetchLogs lo (lo + (hi - lo) / 2 - lo) (lo + (hi - lo) / 2)
          (max (chunk / 2) 1)) := by
  rcases Nat.lt_or_ge lo hi with hlt | hle
  · have hsucc : hi - lo = hi - lo - 1 + 1 := by omega
    have henough : lo + (hi - lo) / 2 - lo ≤ hi - lo - 1 := by omega
    rw [← fetchLogs_fuel henough]
    conv_lhs => rw [hsucc]
    rfl
  · have hzero : hi - lo = 0 := by omega
    conv_lhs => rw [hzero]
    exact fetchLogs_one_block hle _

end Fetching

/-! ## What is fetched -/

/-- Note the ranges whose logs were served. -/
def noteFetched (fetched : List (ℕ × ℕ)) :
    (q : Request) → Answer q → List (ℕ × ℕ)
  | .getLogs f, .ok _ => fetched ++ [(f.fromBlock, f.toBlock)]
  | _, _ => fetched

section Rules

variable {ω : Type} {env : Environment Request Answer ω} {world : ω}
    {fetched : List (ℕ × ℕ)} {s : Process} {cfg : FollowConfig}
    {lo hi toBlock chunk fuel : ℕ}
    {truth : (q : Request) → Answer q → Prop}

theorem noteFetched_other (kept : List (ℕ × ℕ)) (question : Request)
    (answer : Answer question) (hkind : ¬ question.IsGetLogs)
    (hkept : kept = fetched) :
    noteFetched kept question answer = fetched := by
  cases question with
  | getLogs f => exact absurd trivial hkind
  | _ => exact hkept

theorem Request.IsRead.not_getLogs (question : Request)
    (h : question.IsRead) : ¬ question.IsGetLogs := by
  cases question with
  | getLogs f => exact absurd h id
  | _ => exact id

/-- What was served starts at `lo`; the chunk is no larger, and not used up. -/
theorem meets_fetchLogs_fetched (hkeeps : env.Keeps truth) (hle : lo ≤ hi)
    (hchunk : 1 ≤ chunk) :
    Meets (env.observed noteFetched) (fetchLogs lo fuel hi chunk)
      (world, fetched) s
      (fun final result s' => s' = s ∧
        (lo ≤ result.2.1 ∧ result.2.1 ≤ hi) ∧
        (1 ≤ result.2.2 ∧ result.2.2 ≤ chunk) ∧
        truth (.getLogs (filter lo result.2.1))
          (Except.ok result.1 : Except RpcError (List Log)) ∧
        final.2 = fetched ++ [(lo, result.2.1)])
      (fun final failure s' => s' = s ∧ failure ≠ .killed ∧
        final.2 = fetched) := by
  induction fuel generalizing hi chunk world with
  | zero =>
      simp only [fetchLogs, meets_bind, meets_getLogs, meets_liftRpc,
        meets_pure]
      rintro answer ⟨after, recorded⟩ ⟨hanswer, hrecorded⟩
      dsimp only at hanswer hrecorded
      subst hrecorded
      constructor
      · intro logs hlogs
        subst hlogs
        exact ⟨trivial, ⟨hle, le_rfl⟩, ⟨hchunk, le_rfl⟩,
          hkeeps _ _ _ _ hanswer, rfl⟩
      · intro e he
        subst he
        simp [noteFetched]
  | succ fuel ih =>
      simp only [fetchLogs, meets_bind, meets_getLogs]
      rintro answer ⟨after, recorded⟩ ⟨hanswer, hrecorded⟩
      dsimp only at hanswer hrecorded
      subst hrecorded
      cases answer with
      | ok logs =>
          exact ⟨rfl, ⟨hle, le_rfl⟩, ⟨hchunk, le_rfl⟩,
            hkeeps _ _ _ _ hanswer, rfl⟩
      | error e =>
          by_cases hcap : isResultCap e = true ∧ lo < hi
          · simp only [if_pos hcap]
            have hlo : lo ≤ lo + (hi - lo) / 2 := Nat.le_add_right _ _
            have hhi : lo + (hi - lo) / 2 ≤ hi := by omega
            have hleft : max (chunk / 2) 1 ≤ chunk := by omega
            refine meets_mono (ih hlo (le_max_right _ _)) ?_
              (fun _ _ _ h => h)
            rintro final result s' ⟨rfl, hrange, hsize, hrest⟩
            exact ⟨rfl, ⟨hrange.1, hrange.2.trans hhi⟩,
              ⟨hsize.1, hsize.2.trans hleft⟩, hrest⟩
          · simp only [if_neg hcap, meets_liftRpc]
            constructor
            · intro logs hlogs
              cases hlogs
            · intro e' _
              simp [noteFetched]

/-- What is left to do to a chunk whose logs were folded. -/
def Folds (truth : (q : Request) → Answer q → Prop) (lo hi : ℕ)
    (s : Process) (stats : BatchStats) (s₁ : Process) : Prop :=
  ∀ s', s' = { s₁ with
      map := { s₁.map with cursor := hi }
      totals := s₁.totals.fold stats
      lastSnapshot := s'.lastSnapshot
      saved := s'.saved } →
    (s'.saved = s₁.saved ∨ s'.saved = some s'.map) →
    ChunkApplied truth lo hi s s'

theorem meets_applyChunk_folds (hkeeps : env.Keeps truth) {logs : List Log}
    (hlogs : truth (.getLogs (filter lo hi))
      (Except.ok logs : Except RpcError (List Log))) :
    Meets env (applyChunk logs hi) world s
      (fun _ stats s' => Folds truth lo hi s stats s')
      (fun _ failure s' => FailsUntouched s failure s') := by
  simp only [applyChunk, meets_bind]
  refine meets_mono (meets_applyRange hkeeps) ?_ (fun _ _ _ h => h)
  rintro final ⟨stats, addrs⟩ s₁ ⟨touched, rows, hrange⟩
  simp only [meets_modify, meets_pure]
  intro s' hs' hsaved
  rcases hrange.applied with ⟨out, -, -, hs₁⟩
  have hwatch : s₁.watch = s.watch := by rw [hs₁]
  have htotals : s₁.totals = s.totals := by rw [hs₁]
  have hdisk : s₁.saved = s.saved := by rw [hs₁]
  rw [hwatch, htotals] at hs'
  dsimp only at hsaved
  rw [hdisk] at hsaved
  exact ⟨logs, stats, addrs, touched, rows, s₁, hlogs, hrange, hs', hsaved⟩

/-- One turn of the outer loop: the range that was applied and the chunk that
is left. -/
structure Turn where
  lo : ℕ
  hi : ℕ
  left : ℕ

def Turn.range (turn : Turn) : ℕ × ℕ :=
  (turn.lo, turn.hi)

/-- The turns of the loop from `lo` on, with what they did. -/
inductive Turns (truth : (q : Request) → Answer q → Prop) (toBlock : ℕ) :
    ℕ → ℕ → Process → List Turn → ℕ → ℕ → Process → Prop
  | nil (lo chunk : ℕ) (s : Process) :
      Turns truth toBlock lo chunk s [] lo chunk s
  | cons {lo hi left chunk lo' chunk' : ℕ} {turns : List Turn}
      {s s₁ s' : Process} (hlo : lo ≤ hi) (hhi : hi ≤ toBlock)
      (hleft : 1 ≤ left) (hchunk : left ≤ chunk)
      (happlied : ChunkApplied truth lo hi s s₁)
      (hrest : Turns truth toBlock (hi + 1) left s₁ turns lo' chunk' s') :
      Turns truth toBlock lo chunk s (⟨lo, hi, left⟩ :: turns) lo' chunk' s'

theorem meets_maybeSnapshot_folds {stats : BatchStats} {s₁ : Process}
    (hfolds : Folds truth lo hi s stats s₁) :
    Meets env (maybeSnapshot cfg) world
      { s₁ with
        map := { s₁.map with cursor := hi }
        totals := s₁.totals.fold stats }
      (fun _ _ s' => ChunkApplied truth lo hi s s')
      (fun _ failure s' => failure ≠ .killed ∧
        ChunkApplied truth lo hi s s') := by
  apply meets_mono meets_maybeSnapshot
  · intro final _ s' h
    rcases h with ⟨hs', hsaved⟩
    apply hfolds s' hs'
    rw [hs'] at hsaved ⊢
    exact hsaved
  · intro final failure s' h
    have hkilled := h.failsUntouched.2
    rcases h with ⟨rfl, -⟩
    exact ⟨hkilled, hfolds _ rfl (.inl rfl)⟩

/-- A turn applies what it fetched, or it fails: then nothing was fetched, or
what was fetched was not applied, or all was done but the snapshot. -/
theorem meets_syncOneChunk_turn (hkeeps : env.Keeps truth)
    (hexact : cfg.word.ExactTo (toBlock + chunk)) (hto : lo ≤ toBlock)
    (hchunk : 1 ≤ chunk) :
    Meets (env.observed noteFetched) (syncOneChunk cfg lo toBlock chunk)
      (world, fetched) s
      (fun final next s' => ∃ hi left, lo ≤ hi ∧ hi ≤ toBlock ∧ 1 ≤ left ∧
        left ≤ chunk ∧ next = (hi + 1, left) ∧
        ChunkApplied truth lo hi s s' ∧ final.2 = fetched ++ [(lo, hi)])
      (fun final failure s' => failure ≠ .killed ∧
        (s' = s ∧ final.2 = fetched ∨
          ∃ hi left, lo ≤ hi ∧ hi ≤ toBlock ∧ 1 ≤ left ∧ left ≤ chunk ∧
            (s' = s ∨ ChunkApplied truth lo hi s s') ∧
            final.2 = fetched ++ [(lo, hi)])) := by
  have hwant : cfg.word.sub (cfg.word.add lo chunk) 1 = lo + chunk - 1 := by
    rw [hexact lo chunk (by omega), cfg.word.sub_of_le _ _ (by omega)]
  have hlo : lo ≤ min (lo + chunk - 1) toBlock := by omega
  simp only [syncOneChunk, meets_bind, hwant]
  apply meets_mono (meets_fetchLogs_fetched hkeeps hlo hchunk)
  · intro middle result s₁ hfetch
    rcases middle with ⟨middle, recorded⟩
    rcases result with ⟨logs, hi, left⟩
    rcases hfetch with ⟨rfl, hrange, hsize, hlogs, hrecorded⟩
    dsimp only at hrange hsize hlogs hrecorded
    subst hrecorded
    have hhi : hi ≤ toBlock := hrange.2.trans (min_le_right _ _)
    have hnext : cfg.word.add hi 1 = hi + 1 := hexact hi 1 (by omega)
    have hother : Asks (fun q => ¬ q.IsGetLogs) (applyChunk logs hi) :=
      asks_applyChunk.weaken Request.IsRead.not_getLogs
    apply meets_mono ((meets_applyChunk_folds hkeeps hlogs).observed hother
      noteFetched_other rfl)
    · intro after stats s₂ hfolded
      rcases after with ⟨after, recorded⟩
      rcases hfolded with ⟨hrecorded, hfolds⟩
      dsimp only at hrecorded
      subst hrecorded
      simp only [meets_modify, meets_pure]
      have hsnapshot : Asks (fun q => ¬ q.IsGetLogs) (maybeSnapshot cfg) :=
        asks_maybeSnapshot id fun _ => id
      apply meets_mono ((meets_maybeSnapshot_folds hfolds).observed
        hsnapshot noteFetched_other rfl)
      · intro final _ s' happlied
        exact ⟨hi, left, hrange.1, hhi, hsize.1, hsize.2, by rw [hnext],
          happlied.2, happlied.1⟩
      · intro final failure s' happlied
        exact ⟨happlied.2.1, .inr ⟨hi, left, hrange.1, hhi, hsize.1, hsize.2,
          .inr happlied.2.2, happlied.1⟩⟩
    · intro final failure s' hfailed
      exact ⟨hfailed.2.2, .inr ⟨hi, left, hrange.1, hhi, hsize.1, hsize.2,
        .inl hfailed.2.1, hfailed.1⟩⟩
  · intro final failure s' hfailed
    exact ⟨hfailed.2.1, .inl ⟨hfailed.1, hfailed.2.2⟩⟩

/-- A turn without the record of what was fetched. -/
theorem meets_syncOneChunk_taken (hkeeps : env.Keeps truth)
    (hexact : cfg.word.ExactTo (toBlock + chunk)) (hto : lo ≤ toBlock)
    (hchunk : 1 ≤ chunk) :
    Meets env (syncOneChunk cfg lo toBlock chunk) world s
      (fun _ next s' => ∃ hi left, lo ≤ hi ∧ hi ≤ toBlock ∧ 1 ≤ left ∧
        left ≤ chunk ∧ next = (hi + 1, left) ∧ ChunkApplied truth lo hi s s')
      (fun _ _ s' => s' = s ∨ ∃ hi, ChunkApplied truth lo hi s s') := by
  have hobserved : Meets (env.observed noteFetched)
      (syncOneChunk cfg lo toBlock chunk) (world, []) s _ _ :=
    meets_syncOneChunk_turn hkeeps hexact hto hchunk
  apply Meets.of_observed
  apply meets_mono hobserved
  · intro final next s' hdone
    obtain ⟨hi, left, hrange, hhi, hleft, hless, hnext, happlied, -⟩ := hdone
    exact ⟨hi, left, hrange, hhi, hleft, hless, hnext, happlied⟩
  · intro final failure s' hstopped
    obtain ⟨-, hnothing | hfetched⟩ := hstopped
    · exact .inl hnothing.1
    · obtain ⟨hi, left, -, -, -, -, hsame | happlied, -⟩ := hfetched
      · exact .inl hsame
      · exact .inr ⟨hi, happlied⟩

/-- The outer loop takes turns to the end of the range, or to a failure, or
until its lifetime ends. -/
theorem meets_syncChunks_turns (hkeeps : env.Keeps truth)
    (hexact : cfg.word.ExactTo (toBlock + chunk)) (hlo : lo ≤ toBlock + 1)
    (hchunk : 1 ≤ chunk) :
    Meets (env.observed noteFetched) (syncChunks cfg toBlock fuel lo chunk)
      (world, fetched) s
      (fun final _ s' => ∃ turns left,
        Turns truth toBlock lo chunk s turns (toBlock + 1) left s' ∧
        final.2 = fetched ++ turns.map Turn.range)
      (fun final failure s' => ∃ turns lo' left,
        Turns truth toBlock lo chunk s turns lo' left s' ∧
        (failure = .killed → turns.length = fuel ∧ lo' ≤ toBlock) ∧
        (final.2 = fetched ++ turns.map Turn.range ∨ ∃ hi, lo' ≤ hi ∧
          hi ≤ toBlock ∧
          final.2 = fetched ++ turns.map Turn.range ++ [(lo', hi)])) := by
  induction fuel generalizing lo chunk world fetched s with
  | zero =>
      unfold syncChunks
      split
      · rename_i hle
        rw [meets_throw]
        exact ⟨[], lo, chunk, .nil lo chunk s, fun _ => ⟨rfl, hle⟩,
          .inl (List.append_nil _).symm⟩
      · rename_i hnot
        have hend : lo = toBlock + 1 := by omega
        subst hend
        rw [meets_pure]
        exact ⟨[], chunk, .nil _ chunk s, (List.append_nil _).symm⟩
  | succ fuel ih =>
      unfold syncChunks
      split
      · rename_i hle
        rw [meets_bind]
        apply meets_mono (meets_syncOneChunk_turn hkeeps hexact hle hchunk)
        · intro middle next s₁ hturn
          rcases middle with ⟨middle, recorded⟩
          rcases hturn with ⟨hi, left, hrange, hhi, hleft, hless, rfl,
            happlied, hrecorded⟩
          dsimp only at hrecorded
          subst hrecorded
          have hexact' : cfg.word.ExactTo (toBlock + left) :=
            hexact.mono (by omega)
          apply meets_mono (ih hexact' (by omega) hleft)
          · intro final _ s' hrest
            rcases hrest with ⟨turns, left', hturns, hfetched⟩
            refine ⟨⟨lo, hi, left⟩ :: turns, left',
              .cons hrange hhi hleft hless happlied hturns, ?_⟩
            rw [hfetched, List.append_assoc]
            rfl
          · intro final failure s' hrest
            rcases hrest with ⟨turns, lo', left', hturns, hkilled, hfetched⟩
            refine ⟨⟨lo, hi, left⟩ :: turns, lo', left',
              .cons hrange hhi hleft hless happlied hturns, ?_, ?_⟩
            · intro hfailure
              rw [List.length_cons, (hkilled hfailure).1]
              exact ⟨rfl, (hkilled hfailure).2⟩
            · simpa [Turn.range] using hfetched
        · intro final failure s' hfailed
          rcases hfailed with ⟨hkilled, hnothing | hfetched⟩
          · rcases hnothing with ⟨rfl, hfetched⟩
            exact ⟨[], lo, chunk, .nil lo chunk s', fun h => absurd h hkilled,
              .inl (hfetched.trans (List.append_nil _).symm)⟩
          · rcases hfetched with ⟨hi, left, hrange, hhi, hleft, hless,
              rfl | happlied, hfetched⟩
            · exact ⟨[], lo, chunk, .nil lo chunk s', fun h => absurd h hkilled,
                .inr ⟨hi, hrange, hhi, by simpa using hfetched⟩⟩
            · exact ⟨[⟨lo, hi, left⟩], hi + 1, left,
                .cons hrange hhi hleft hless happlied (.nil _ left s'),
                fun h => absurd h hkilled, .inl hfetched⟩
      · rename_i hnot
        have hend : lo = toBlock + 1 := by omega
        subst hend
        rw [meets_pure]
        exact ⟨[], chunk, .nil _ chunk s, (List.append_nil _).symm⟩

/-- The turns without the record of what was fetched. -/
theorem meets_syncChunks_taken (hkeeps : env.Keeps truth)
    (hexact : cfg.word.ExactTo (toBlock + chunk)) (hlo : lo ≤ toBlock + 1)
    (hchunk : 1 ≤ chunk) :
    Meets env (syncChunks cfg toBlock fuel lo chunk) world s
      (fun _ _ s' => ∃ turns left,
        Turns truth toBlock lo chunk s turns (toBlock + 1) left s')
      (fun _ failure s' => ∃ turns lo' left,
        Turns truth toBlock lo chunk s turns lo' left s' ∧
        (failure = .killed → turns.length = fuel ∧ lo' ≤ toBlock)) := by
  have hobserved : Meets (env.observed noteFetched)
      (syncChunks cfg toBlock fuel lo chunk) (world, []) s _ _ :=
    meets_syncChunks_turns hkeeps hexact hlo hchunk
  apply Meets.of_observed
  apply meets_mono hobserved
  · intro final _ s' hdone
    rcases hdone with ⟨turns, left, hturns, -⟩
    exact ⟨turns, left, hturns⟩
  · intro final failure s' hstopped
    rcases hstopped with ⟨turns, lo', left, hturns, hkilled, -⟩
    exact ⟨turns, lo', left, hturns, hkilled⟩

end Rules

/-! ## What the turns amount to -/

section Turns

variable {truth : (q : Request) → Answer q → Prop} {s s' : Process}
    {lo lo' toBlock chunk left : ℕ} {turns : List Turn}

theorem Turns.cuts
    (h : Turns truth toBlock lo chunk s turns lo' left s') :
    Cuts lo (turns.map Turn.range) lo' := by
  induction h with
  | nil lo chunk s => exact .nil lo
  | cons hlo hhi hleft hchunk happlied hrest ih => exact .cons hlo ih

theorem Turns.le_end
    (h : Turns truth toBlock lo chunk s turns lo' left s')
    (hlo : lo ≤ toBlock + 1) : lo' ≤ toBlock + 1 := by
  induction h with
  | nil lo chunk s => exact hlo
  | cons hle hhi hleft hchunk happlied hrest ih =>
      exact ih (Nat.succ_le_succ hhi)

theorem Turns.left_pos
    (h : Turns truth toBlock lo chunk s turns lo' left s') :
    ∀ turn ∈ turns, 1 ≤ turn.left := by
  induction h with
  | nil lo chunk s =>
      intro turn hturn
      cases hturn
  | cons hle hhi hleft hchunk happlied hrest ih =>
      intro turn hturn
      rcases List.mem_cons.mp hturn with rfl | hturn
      · exact hleft
      · exact ih turn hturn

theorem Turns.left_shrinks
    (h : Turns truth toBlock lo chunk s turns lo' left s') :
    (chunk :: turns.map Turn.left).Pairwise (· ≥ ·) := by
  induction h with
  | nil lo chunk s => exact List.pairwise_singleton _ chunk
  | @cons lo hi left chunk lo' chunk' turns s s₁ s' hle hhi hleft hchunk
      happlied hrest ih =>
      rw [List.map_cons, List.pairwise_cons]
      constructor
      · intro size hsize
        rcases List.mem_cons.mp hsize with rfl | hsize
        · exact hchunk
        · exact ((List.pairwise_cons.mp ih).1 size hsize).trans hchunk
      · exact ih

/-- The cursor stands at the end of the last range that was applied. -/
theorem Turns.cursor
    (h : Turns truth toBlock lo chunk s turns lo' left s') :
    s'.map.cursor = (turns.getLast?.map Turn.hi).getD s.map.cursor := by
  induction h with
  | nil lo chunk s => rfl
  | @cons lo hi left chunk lo' chunk' turns s s₁ s' hle hhi hleft hchunk
      happlied hrest ih =>
      rw [ih, happlied.cursor, List.getLast?_cons]
      cases turns.getLast? with
      | none => rfl
      | some turn => rfl

theorem Turns.last
    (h : Turns truth toBlock lo chunk s turns lo' left s') :
    lo' = (turns.getLast?.map (Turn.hi · + 1)).getD lo := by
  induction h with
  | nil lo chunk s => rfl
  | @cons lo hi left chunk lo' chunk' turns s s₁ s' hle hhi hleft hchunk
      happlied hrest ih =>
      rw [ih, List.getLast?_cons]
      cases turns.getLast? with
      | none => rfl
      | some turn => rfl

/-- Turns that got past the end of the range took the cursor there. -/
theorem Turns.cursor_eq
    (h : Turns truth toBlock lo chunk s turns (toBlock + 1) left s')
    (hto : lo ≤ toBlock) : s'.map.cursor = toBlock := by
  have hlast := h.last
  rw [h.cursor]
  cases hturn : turns.getLast? with
  | none =>
      have hend : toBlock + 1 = lo := by simpa [hturn] using hlast
      omega
  | some turn =>
      have hend : toBlock + 1 = turn.hi + 1 := by simpa [hturn] using hlast
      exact (Nat.succ.inj hend).symm

/-- The cursor only rises, turn by turn, and stays inside the range. -/
theorem Turns.rises
    (h : Turns truth toBlock lo chunk s turns lo' left s')
    (hlo : s.map.cursor < lo) (hto : s.map.cursor ≤ toBlock) :
    (s.map.cursor :: turns.map Turn.hi).Pairwise (· < ·) ∧
      (∀ n ∈ turns.map Turn.hi, n ≤ s'.map.cursor) ∧
      s.map.cursor ≤ s'.map.cursor ∧ s'.map.cursor ≤ toBlock := by
  induction h with
  | nil lo chunk s =>
      exact ⟨List.pairwise_singleton _ _, by simp, le_rfl, hto⟩
  | @cons lo hi left chunk lo' chunk' turns s s₁ s' hle hhi hleft hchunk
      happlied hrest ih =>
      have hcursor := happlied.cursor
      rw [hcursor] at ih
      rcases ih (Nat.lt_succ_self hi) hhi with ⟨hrise, hends, hup, hinside⟩
      rw [List.map_cons]
      refine ⟨?_, ?_, by omega, hinside⟩
      · rw [List.pairwise_cons]
        refine ⟨?_, hrise⟩
        intro n hn
        rcases List.mem_cons.mp hn with rfl | hn
        · exact Nat.lt_of_lt_of_le hlo hle
        · have hlater := (List.pairwise_cons.mp hrise).1 n hn
          omega
      · intro n hn
        rcases List.mem_cons.mp hn with rfl | hn
        · exact hup
        · exact hends n hn

end Turns

/-- The ranges that were fetched lie end to end inside `lo..=toBlock`, and the
chunk never grew and was never used up. -/
structure WellCut (lo toBlock chunk : ℕ) (turns : List Turn)
    (fetched : List (ℕ × ℕ)) : Prop where
  inside : ∀ r ∈ fetched, r.1 ≤ r.2 ∧ r.2 ≤ toBlock
  adjacent : ∃ lo', Cuts lo fetched lo'
  few : fetched.length ≤ toBlock - lo + 1
  left_pos : ∀ turn ∈ turns, 1 ≤ turn.left
  shrinks : (chunk :: turns.map Turn.left).Pairwise (· ≥ ·)

theorem WellCut.of_cuts {lo lo' toBlock chunk : ℕ} {turns : List Turn}
    {fetched : List (ℕ × ℕ)} (hcuts : Cuts lo fetched lo')
    (hend : lo' ≤ toBlock + 1) (hto : lo ≤ toBlock)
    (hpos : ∀ turn ∈ turns, 1 ≤ turn.left)
    (hshrinks : (chunk :: turns.map Turn.left).Pairwise (· ≥ ·)) :
    WellCut lo toBlock chunk turns fetched := by
  refine ⟨?_, ⟨lo', hcuts⟩, ?_, hpos, hshrinks⟩
  · intro r hr
    have hbounds := hcuts.bounds hr
    omega
  · have hlength := hcuts.length_le
    omega

/-- `sync_chunks` over natural block numbers, from any state and against any
provider: the inner loop is the source's, the ranges are cut exactly, and the
cursor tells how far they were applied. -/
theorem sync_chunks_cuts_range {ω : Type} {env : Environment Request Answer ω}
    {world : ω} {s : Process} {cfg : FollowConfig} {lo toBlock chunk fuel : ℕ}
    (hword : cfg.word = .natural) (hto : lo ≤ toBlock) (hchunk : 1 ≤ chunk) :
    (∀ lo hi chunk, fetchLogs lo (hi - lo) hi chunk =
      fetchBody lo hi chunk (fetchLogs lo (lo + (hi - lo) / 2 - lo)
        (lo + (hi - lo) / 2) (max (chunk / 2) 1))) ∧
    Meets (env.observed noteFetched) (syncChunks cfg toBlock fuel lo chunk)
      (world, []) s
      (fun final _ s' => ∃ turns left,
        Turns env.Gives toBlock lo chunk s turns (toBlock + 1) left s' ∧
        final.2 = turns.map Turn.range ∧
        WellCut lo toBlock chunk turns final.2 ∧
        s'.map.cursor = toBlock ∧
        ∀ b, lo ≤ b → b ≤ toBlock →
          ∃! r, r ∈ final.2 ∧ r.1 ≤ b ∧ b ≤ r.2)
      (fun final failure s' => ∃ turns lo' left,
        Turns env.Gives toBlock lo chunk s turns lo' left s' ∧
        (final.2 = turns.map Turn.range ∨
          ∃ hi, final.2 = turns.map Turn.range ++ [(lo', hi)]) ∧
        WellCut lo toBlock chunk turns final.2 ∧
        s'.map.cursor = (turns.getLast?.map Turn.hi).getD s.map.cursor ∧
        (failure = .killed → fuel ≤ toBlock - lo)) := by
  have hexact : cfg.word.ExactTo (toBlock + chunk) := by
    rw [hword]
    exact Word.exactTo_natural _
  constructor
  · intro lo hi chunk
    exact fetchLogs_loop
  · apply meets_mono (meets_syncChunks_turns env.keeps_gives hexact
      (Nat.le_succ_of_le hto) hchunk)
    · intro final _ s' hdone
      rcases hdone with ⟨turns, left, hturns, hfetched⟩
      rw [List.nil_append] at hfetched
      have hcuts := hturns.cuts
      rw [hfetched]
      refine ⟨turns, left, hturns, rfl, ?_, hturns.cursor_eq hto, ?_⟩
      · exact .of_cuts hcuts le_rfl hto hturns.left_pos hturns.left_shrinks
      · intro b hlo hle
        exact hcuts.covers hlo (Nat.lt_succ_of_le hle)
    · intro final failure s' hstopped
      rcases hstopped with ⟨turns, lo', left, hturns, hkilled, hfetched⟩
      rw [List.nil_append] at hfetched
      have hcuts := hturns.cuts
      have hend := hturns.le_end (Nat.le_succ_of_le hto)
      have hlength := hcuts.length_le
      rw [List.length_map] at hlength
      refine ⟨turns, lo', left, hturns, ?_, ?_, hturns.cursor, ?_⟩
      · rcases hfetched with hall | hmore
        · exact .inl hall
        · rcases hmore with ⟨hi, -, -, hmore⟩
          exact .inr ⟨hi, hmore⟩
      · rcases hfetched with hall | hmore
        · rw [hall]
          exact .of_cuts hcuts hend hto hturns.left_pos hturns.left_shrinks
        · rcases hmore with ⟨hi, hle, hhi, hmore⟩
          rw [hmore]
          exact .of_cuts (hcuts.append hle) (Nat.succ_le_succ hhi) hto
            hturns.left_pos hturns.left_shrinks
      · intro hfailure
        have hcount := hkilled hfailure
        omega

namespace NineBlocks

def config : FollowConfig :=
  ⟨4, 600, .finalized, 64, .natural⟩

def start : Process where
  map := .new 0
  lastSnapshot := 0
  watch := default
  changed := ∅
  totals := default
  inserted := ∅
  failures := 0
  progress := none
  saved := none
  sent := []
  history := []

/-- Four at a time, against any provider. -/
theorem sync_chunks_cuts_range_nine :
    Meets ((Environment.of fun _ _ => True).observed noteFetched)
      (syncChunks config 9 9 1 4) ((), []) start
      (fun final _ s' => s'.map.cursor = 9 ∧ Cuts 1 final.2 10)
      (fun final failure _ => failure ≠ .killed ∧
        ∃ lo', Cuts 1 final.2 lo') := by
  have hword : config.word = .natural := rfl
  have hto : 1 ≤ 9 := by decide
  have hchunk : 1 ≤ 4 := by decide
  apply meets_mono (sync_chunks_cuts_range hword hto hchunk).2
  · intro final _ s' hdone
    rcases hdone with ⟨turns, left, hturns, hfetched, -, hcursor, -⟩
    rw [hfetched]
    exact ⟨hcursor, hturns.cuts⟩
  · intro final failure s' hstopped
    rcases hstopped with ⟨turns, lo', left, -, -, hwell, -, hkilled⟩
    constructor
    · intro hfailure
      exact absurd (hkilled hfailure) (by decide)
    · exact hwell.adjacent

end NineBlocks

end UsdtPir
