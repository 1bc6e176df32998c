import UsdtPir.AskedQuestions
import UsdtPir.PassOutcomes
import UsdtPir.SyncCommand

/-!
# Blocks that were folded

A ledger follows a run and notes which ranges were folded into the map in memory
and which of them are in the snapshot.  The code looks at its snapshot timer
right after a chunk was folded and nowhere else after fetching logs, which tells
a range that was folded from one that was only fetched.
-/

namespace UsdtPir

open Interaction
open Program

structure Ledger where
  pending : Option (ℕ × ℕ)
  folded : List (ℕ × ℕ)
  stored : List (ℕ × ℕ)

namespace Ledger

def empty : Ledger :=
  ⟨none, [], []⟩

/-- A process that loads the snapshot has what the snapshot has. -/
def reopened (l : Ledger) : Ledger :=
  ⟨none, l.stored, l.stored⟩

/-- Nothing was forgotten and nothing was written. -/
def Extends (l l' : Ledger) : Prop :=
  l.folded <+: l'.folded ∧ l'.stored = l.stored

theorem Extends.refl (l : Ledger) : l.Extends l :=
  ⟨List.prefix_rfl, rfl⟩

theorem Extends.of_pending {l l' : Ledger} {pending : Option (ℕ × ℕ)}
    (h : l' = { l with pending }) : l.Extends l' := by
  subst h
  exact ⟨List.prefix_rfl, rfl⟩

theorem Extends.trans {l l₁ l' : Ledger} (h : l.Extends l₁)
    (h' : l₁.Extends l') : l.Extends l' :=
  ⟨h.1.trans h'.1, h'.2.trans h.2⟩

end Ledger

def noteScan (l : Ledger) : (q : Request) → Answer q → Ledger
  | .getLogs f, .ok _ => { l with pending := some (f.fromBlock, f.toBlock) }
  | .owner _ _, _ => l
  | .aggregate3 _ _ _, _ => l
  | .iterate _, _ => l
  | .instantNow, _ => { l with
      pending := none
      folded := l.folded ++ l.pending.toList }
  | .save _, .ok _ => { l with pending := none, stored := l.folded }
  | _, _ => { l with pending := none }

/-- Every block from `start` through `through` is in one of the ranges; a
block number is a `u64`. -/
def Covers (ranges : List (ℕ × ℕ)) (start through : ℕ) : Prop :=
  ∀ b < 2 ^ 64, start ≤ b → b ≤ through → ∃ r ∈ ranges, r.1 ≤ b ∧ b ≤ r.2

/-- Every block number from `start` on and below `lo` is. -/
def CoversBelow (ranges : List (ℕ × ℕ)) (start lo : ℕ) : Prop :=
  ∀ b < 2 ^ 64, start ≤ b → b < lo → ∃ r ∈ ranges, r.1 ≤ b ∧ b ≤ r.2

section Ranges

variable {ranges ranges' : List (ℕ × ℕ)} {start through through' lo hi : ℕ}

theorem Covers.mono (h : Covers ranges start through)
    (hsub : ranges <+: ranges') (hle : through' ≤ through) :
    Covers ranges' start through' := by
  intro b hbound hlo hhi
  rcases h b hbound hlo (hhi.trans hle) with ⟨r, hr, hin⟩
  exact ⟨r, hsub.subset hr, hin⟩

theorem CoversBelow.mono (h : CoversBelow ranges start lo)
    (hsub : ranges <+: ranges') : CoversBelow ranges' start lo := by
  intro b hbound hlo hlt
  rcases h b hbound hlo hlt with ⟨r, hr, hin⟩
  exact ⟨r, hsub.subset hr, hin⟩

theorem CoversBelow.folded (h : CoversBelow ranges start lo) :
    Covers (ranges ++ [(lo, hi)]) start hi := by
  intro b hbound hlo hle
  by_cases hlt : b < lo
  · rcases h b hbound hlo hlt with ⟨r, hr, hin⟩
    exact ⟨r, List.mem_append_left _ hr, hin⟩
  · have hge : lo ≤ b := Nat.le_of_not_lt hlt
    exact ⟨(lo, hi), by simp, hge, hle⟩

/-- The block after the cursor, also where the cursor is the last number. -/
theorem Covers.below_next (h : Covers ranges start through) (word : Word) :
    CoversBelow ranges start (word.add through 1) := by
  intro b hbound hlo hlt
  apply h b hbound hlo
  by_cases hroom : through + 1 < 2 ^ 64
  · rw [word.add_of_lt _ _ hroom] at hlt
    omega
  · omega

theorem Covers.below (h : Covers ranges start through)
    (hle : lo ≤ through + 1) : CoversBelow ranges start lo := by
  intro b hbound hlo hlt
  exact h b hbound hlo (by omega)

theorem covers_of_lt (h : through < start) : Covers ranges start through := by
  intro b hbound hlo hle
  omega

end Ranges

/-! ## The ledger beside the process -/

/-- What the ledger must show: the blocks up to the cursor, in memory and on
disk. -/
structure Accounted (start : ℕ) (l : Ledger) (s : Process) : Prop where
  memory : Covers l.folded start s.map.cursor
  disk : ∀ map, s.saved = some map → Covers l.stored start map.cursor

namespace Request

def IsSave : Request → Prop
  | .save _ => True
  | _ => False

end Request

section Rules

variable {ω : Type} {env : Environment Request Answer ω} {world : ω}
    {l l' : Ledger} {s s' : Process} {cfg : FollowConfig} {updates : Bool}
    {start lo hi toBlock chunk fuel : ℕ} {α : Type} {kind : Request → Prop}

theorem noteScan_extends (kept : Ledger) (question : Request)
    (answer : Answer question) (hkind : ¬ question.IsSave)
    (hkept : l.Extends kept) : l.Extends (noteScan kept question answer) := by
  cases question with
  | save map => exact absurd trivial hkind
  | getLogs f =>
      cases answer with
      | ok logs => exact hkept
      | error e => exact hkept
  | instantNow => exact hkept.trans ⟨List.prefix_append _ _, rfl⟩
  | _ => exact hkept

theorem noteScan_read (kept : Ledger) (question : Request)
    (answer : Answer question) (hkind : question.IsRead) (hkept : kept = l) :
    noteScan kept question answer = l := by
  cases question with
  | owner contract block => exact hkept
  | aggregate3 contract calls block => exact hkept
  | iterate keys => exact hkept
  | _ => exact absurd hkind id

theorem Accounted.mono (h : Accounted start l s) (hext : l.Extends l')
    (hcursor : s'.map.cursor ≤ s.map.cursor) (hsaved : s'.saved = s.saved) :
    Accounted start l' s' := by
  constructor
  · exact h.memory.mono hext.1 hcursor
  · intro map hmap
    rw [hsaved] at hmap
    rw [hext.2]
    exact h.disk map hmap

/-- A program that writes nothing and never raises the cursor. -/
def Settles (p : Sync α) : Prop :=
  Asks (fun q => ¬ q.IsSave) p ∧
    ∀ {κ : Type} {env : Environment Request Answer κ} {world : κ} {s : Process},
      Meets env p world s
        (fun _ _ s' => s'.map.cursor ≤ s.map.cursor ∧ s'.saved = s.saved)
        (fun _ _ s' => s'.map.cursor ≤ s.map.cursor ∧ s'.saved = s.saved)

theorem Settles.accounted {p : Sync α} (hp : Settles p)
    (hs : Accounted start l s) :
    Meets (env.observed noteScan) p (world, l) s
      (fun final _ s' => Accounted start final.2 s')
      (fun final _ s' => Accounted start final.2 s') := by
  refine meets_mono (hp.2.observed hp.1 noteScan_extends (.refl l)) ?_ ?_
  · rintro final result s' ⟨hext, hcursor, hsaved⟩
    exact hs.mono hext hcursor hsaved
  · rintro final failure s' ⟨hext, hcursor, hsaved⟩
    exact hs.mono hext hcursor hsaved

theorem meets_applyChunk {logs : List Log} :
    Meets env (applyChunk logs hi) world s
      (fun _ _ s' => s'.saved = s.saved) (fun _ _ s' => s' = s) := by
  have hkeeps : env.Keeps fun _ _ => True := fun _ _ _ _ _ => trivial
  simp only [applyChunk, meets_bind]
  refine meets_mono (meets_applyRange hkeeps) ?_ (fun _ _ _ h => h.1)
  rintro final ⟨stats, addrs⟩ s₁ ⟨touched, rows, hrange⟩
  simp only [meets_modify, meets_pure]
  rcases hrange.applied with ⟨out, -, -, hs₁⟩
  rw [hs₁]

theorem meets_fetchLogs_noted :
    Meets (env.observed noteScan) (fetchLogs lo fuel hi chunk) (world, l) s
      (fun final result s' => s' = s ∧ result.2.1 ≤ hi ∧
        (lo ≤ hi → lo ≤ result.2.1) ∧
        final.2 = { l with pending := some (lo, result.2.1) })
      (fun final _ s' => s' = s ∧ final.2 = { l with pending := none }) := by
  induction fuel generalizing hi chunk world l with
  | zero =>
      simp only [fetchLogs, meets_bind, meets_getLogs, meets_liftRpc,
        meets_pure]
      rintro answer ⟨after, recorded⟩ ⟨-, hrecorded⟩
      dsimp only at hrecorded
      subst hrecorded
      constructor
      · intro logs hlogs
        subst hlogs
        exact ⟨trivial, le_rfl, id, rfl⟩
      · intro e he
        subst he
        exact ⟨trivial, rfl⟩
  | succ fuel ih =>
      simp only [fetchLogs, meets_bind, meets_getLogs]
      rintro answer ⟨after, recorded⟩ ⟨-, hrecorded⟩
      dsimp only at hrecorded
      subst hrecorded
      cases answer with
      | ok logs => exact ⟨rfl, le_rfl, id, rfl⟩
      | error e =>
          by_cases hcap : isResultCap e = true ∧ lo < hi
          · simp only [if_pos hcap]
            refine meets_mono ih ?_ (fun _ _ _ h => h)
            rintro final result s' ⟨rfl, hle, hforward, hledger⟩
            exact ⟨rfl, by omega, fun _ => hforward (by omega), hledger⟩
          · simp only [if_neg hcap, meets_liftRpc]
            constructor
            · intro logs hlogs
              cases hlogs
            · intro e' _
              exact ⟨trivial, rfl⟩

/-- The ledger gains the range, and the snapshot is as it was or holds the
map. -/
structure Gains (lo hi : ℕ) (l : Ledger) (s : Process) (l' : Ledger)
    (s' : Process) : Prop where
  cursor : s'.map.cursor = hi
  folded : l'.folded = l.folded ++ [(lo, hi)]
  disk : (s'.saved = s.saved ∧ l'.stored = l.stored) ∨
    (s'.saved = some s'.map ∧ l'.stored = l'.folded)

theorem meets_maybeSnapshot_gains {hi : ℕ}
    (hpending : l.pending = some (lo, hi)) (hcursor : s.map.cursor = hi) :
    Meets (env.observed noteScan) (maybeSnapshot cfg) (world, l) s
      (fun final _ s' => Gains lo hi l s final.2 s')
      (fun final _ s' => Gains lo hi l s final.2 s') := by
  simp only [maybeSnapshot, meets_bind, meets_get, meets_instantNow]
  rintro now ⟨after, recorded⟩ ⟨-, hrecorded⟩
  change recorded = { l with
    pending := none
    folded := l.folded ++ l.pending.toList } at hrecorded
  rw [hpending] at hrecorded
  subst hrecorded
  have hkept : ∀ k : Ledger, k.folded = l.folded ++ [(lo, hi)] →
      k.stored = l.stored → Gains lo hi l s k s := by
    intro k hfolded hstored
    exact ⟨hcursor, hfolded, .inl ⟨rfl, hstored⟩⟩
  split
  · exact hkept _ rfl rfl
  · simp only [meets_bind, meets_saveMapOrFail]
    rintro answer ⟨after', recorded'⟩ ⟨-, hrecorded'⟩
    dsimp only at hrecorded'
    subst hrecorded'
    cases answer with
    | ok written =>
        simp only [markSnapshot, meets_bind, meets_instantNow, meets_modify]
        rintro now' ⟨after'', recorded''⟩ ⟨-, hrecorded''⟩
        dsimp only at hrecorded''
        subst hrecorded''
        have hfolded : (noteScan (noteScan ⟨none, l.folded ++ [(lo, hi)],
            l.stored⟩ (.save s.map) (Except.ok written)) .instantNow
              now').folded = l.folded ++ [(lo, hi)] :=
          List.append_nil _
        exact ⟨hcursor, hfolded, .inr ⟨rfl, hfolded.symm⟩⟩
    | error e => exact hkept _ rfl rfl

theorem meets_syncOneChunk_gains :
    Meets (env.observed noteScan) (syncOneChunk cfg lo toBlock chunk)
      (world, l) s
      (fun final next s' => ∃ hi ≤ toBlock, next.1 = cfg.word.add hi 1 ∧
        Gains lo hi l s final.2 s')
      (fun final _ s' =>
        (s' = s ∧ ∃ pending, final.2 = { l with pending }) ∨
        ∃ hi ≤ toBlock,
          (lo ≤ min (cfg.word.sub (cfg.word.add lo chunk) 1) toBlock →
            lo ≤ hi) ∧
          Gains lo hi l s final.2 s') := by
  simp only [syncOneChunk, meets_bind]
  refine meets_mono meets_fetchLogs_noted ?_
    (fun _ _ _ h => .inl ⟨h.1, none, h.2⟩)
  rintro ⟨middle, recorded⟩ ⟨logs, hi, left⟩ s₁ ⟨rfl, hle, hforward, hrecorded⟩
  dsimp only at hle hforward hrecorded
  subst hrecorded
  have hto : hi ≤ toBlock := hle.trans (min_le_right _ _)
  refine meets_mono (meets_applyChunk.observed asks_applyChunk noteScan_read
    rfl) ?_ ?_
  · rintro ⟨middle', recorded⟩ stats s₂ ⟨hrecorded, hsaved⟩
    dsimp only at hrecorded
    subst hrecorded
    simp only [meets_modify, meets_pure]
    have hfinish : ∀ {k : Ledger} {s' : Process},
        Gains lo hi { l with pending := some (lo, hi) }
          { s₂ with
            map := { s₂.map with cursor := hi }
            totals := s₂.totals.fold stats } k s' →
        Gains lo hi l s₁ k s' := by
      intro k s' hgains
      refine ⟨hgains.cursor, hgains.folded, ?_⟩
      rcases hgains.disk with ⟨hkept, hstored⟩ | hwritten
      · exact .inl ⟨hkept.trans hsaved, hstored⟩
      · exact .inr hwritten
    refine meets_mono (meets_maybeSnapshot_gains rfl rfl) ?_ ?_
    · intro final _ s' hgains
      exact ⟨hi, hto, rfl, hfinish hgains⟩
    · intro final failure s' hgains
      exact .inr ⟨hi, hto, hforward, hfinish hgains⟩
  · rintro ⟨final, recorded⟩ failure s' ⟨hrecorded, rfl⟩
    dsimp only at hrecorded
    subst hrecorded
    exact .inl ⟨rfl, some (lo, hi), rfl⟩

theorem Gains.accounted (h : Gains lo hi l s l' s')
    (hbelow : CoversBelow l.folded start lo) (hs : Accounted start l s) :
    Accounted start l' s' ∧
      ∀ word : Word, CoversBelow l'.folded start (word.add hi 1) := by
  have hcovers : Covers l'.folded start hi := by
    rw [h.folded]
    exact hbelow.folded
  refine ⟨⟨?_, ?_⟩, hcovers.below_next⟩
  · rw [h.cursor]
    exact hcovers
  · intro map hmap
    rcases h.disk with ⟨hkept, hstored⟩ | ⟨hwritten, hstored⟩
    · rw [hkept] at hmap
      rw [hstored]
      exact hs.disk map hmap
    · rw [hwritten, Option.some.injEq] at hmap
      rw [hstored, ← hmap, h.cursor]
      exact hcovers

theorem meets_syncChunks_accounted (hbelow : CoversBelow l.folded start lo)
    (hs : Accounted start l s) :
    Meets (env.observed noteScan) (syncChunks cfg toBlock fuel lo chunk)
      (world, l) s
      (fun final _ s' => Accounted start final.2 s')
      (fun final _ s' => Accounted start final.2 s') := by
  induction fuel generalizing lo chunk world l s with
  | zero =>
      unfold syncChunks
      split
      · exact hs
      · exact hs
  | succ fuel ih =>
      unfold syncChunks
      split
      · rw [meets_bind]
        refine meets_mono meets_syncOneChunk_gains ?_ ?_
        · rintro ⟨middle, recorded⟩ ⟨next, left⟩ s₁ ⟨hi, hhi, hnext, hgains⟩
          dsimp only at hnext hgains
          subst hnext
          have hafter := hgains.accounted hbelow hs
          exact ih (hafter.2 cfg.word) hafter.1
        · rintro ⟨final, recorded⟩ failure s'
            (⟨rfl, pending, hledger⟩ | ⟨hi, hhi, -, hgains⟩)
          · exact hs.mono (.of_pending hledger) le_rfl rfl
          · exact (hgains.accounted hbelow hs).1
      · exact hs

theorem meets_syncInto_accounted (hbelow : CoversBelow l.folded start lo)
    (hs : Accounted start l s) :
    Meets (env.observed noteScan) (syncInto cfg lo toBlock) (world, l) s
      (fun final _ s' => Accounted start final.2 s')
      (fun final _ s' => Accounted start final.2 s') := by
  have hkept : ∀ {k : Ledger} {s' : Process}, l.Extends k →
      s'.map.cursor = s.map.cursor → s'.saved = s.saved →
      Accounted start k s' := by
    intro k s' hext hcursor hsaved
    exact hs.mono hext hcursor.le hsaved
  simp only [syncInto, meets_bind, meets_modify]
  split
  · exact hkept (.refl l) rfl rfl
  · simp only [meets_bind, meets_modify, meets_lifetime]
    rintro lifetime ⟨after, recorded⟩ ⟨-, hrecorded⟩
    dsimp only at hrecorded
    subst hrecorded
    refine meets_mono (meets_syncChunks_accounted hbelow
      (hkept (.refl l) rfl rfl)) ?_ (fun _ _ _ h => h)
    intro final _ s' hafter
    simp only [pruneTransient, meets_modify]
    refine hafter.mono (.refl _) ?_ rfl
    dsimp only
    rw [BalanceMap.pruneZero_cursor]

/-! ## What never raises the cursor -/

theorem settles_pure {a : α} : Settles (pure a : Sync α) := by
  constructor
  · exact asks_pure
  · intro κ env world s
    exact ⟨le_rfl, rfl⟩

theorem settles_throw {failure : Failure} :
    Settles (Program.throw failure : Sync α) := by
  constructor
  · exact asks_throw
  · intro κ env world s
    exact ⟨le_rfl, rfl⟩

theorem settles_consult {question : Request} (h : ¬ question.IsSave) :
    Settles (consult question) := by
  constructor
  · exact asks_consult question h
  · intro κ env world s answer after _
    exact ⟨le_rfl, rfl⟩

theorem settles_modify {f : Process → Process}
    (hcursor : ∀ s, (f s).map.cursor ≤ s.map.cursor)
    (hsaved : ∀ s, (f s).saved = s.saved) :
    Settles (Program.modify f : Sync PUnit) := by
  constructor
  · exact asks_modify
  · intro κ env world s
    exact ⟨hcursor s, hsaved s⟩

theorem settles_liftRpc {contexts : List String} {answer : Except RpcError α} :
    Settles (liftRpc contexts answer) := by
  cases answer with
  | ok a => exact settles_pure
  | error e => exact settles_throw

theorem Settles.bind {β : Type} {p : Sync α} {f : α → Sync β}
    (hp : Settles p) (hf : ∀ a, Settles (f a)) : Settles (p >>= f) := by
  constructor
  · apply asks_bind hp.1
    intro a
    exact (hf a).1
  · intro κ env world s
    rw [meets_bind]
    refine meets_mono hp.2 ?_ (fun _ _ _ h => h)
    rintro middle a s₁ ⟨hcursor, hsaved⟩
    refine meets_mono (hf a).2 ?_ ?_
    · rintro final b s' ⟨hcursor', hsaved'⟩
      exact ⟨hcursor'.trans hcursor, hsaved'.trans hsaved⟩
    · rintro final failure s' ⟨hcursor', hsaved'⟩
      exact ⟨hcursor'.trans hcursor, hsaved'.trans hsaved⟩

theorem Settles.attempt {p : Sync α} (hp : Settles p) :
    Settles (Program.attempt p) := by
  constructor
  · intro s
    apply Dialogue.Asks.bind (hp.1 s)
    intro outcome
    trivial
  · intro κ env world s
    rw [meets_attempt]
    exact hp.2

theorem Request.IsRead.not_isSave {question : Request} (h : question.IsRead) :
    ¬ question.IsSave := by
  intro hsave
  cases question with
  | save map => exact h
  | _ => exact hsave

theorem settles_readBalances {addrs : List Address} {block : ℕ} :
    Settles (readBalances addrs block) := by
  constructor
  · exact asks_readChunks.weaken fun _ h => h.not_isSave
  · intro κ env world s
    have hkeeps : env.Keeps fun _ _ => True := fun _ _ _ _ _ => trivial
    refine meets_mono (meets_readBalances hkeeps) ?_ ?_
    · rintro final readings s' ⟨rfl, -⟩
      exact ⟨le_rfl, rfl⟩
    · rintro final failure s' ⟨rfl, -⟩
      exact ⟨le_rfl, rfl⟩

theorem settles_finalizedBlock : Settles finalizedBlock := by
  unfold finalizedBlock
  apply (settles_consult id).bind
  intro answer
  apply settles_liftRpc.bind
  intro block
  cases block with
  | none => exact settles_throw
  | some b => exact settles_pure

theorem settles_blockHash {number : ℕ} : Settles (blockHash number) := by
  unfold blockHash
  apply (settles_consult id).bind
  intro answer
  apply settles_liftRpc.bind
  intro block
  exact settles_pure

theorem settles_markSnapshot : Settles markSnapshot := by
  unfold markSnapshot
  apply (settles_consult id).bind
  intro now
  exact settles_modify (fun _ => le_rfl) (fun _ => rfl)

theorem settles_get : Settles (Program.get : Sync Process) := by
  constructor
  · exact asks_get
  · intro κ env world s
    exact ⟨le_rfl, rfl⟩

theorem settles_resolve {tip : Tip} : Settles tip.resolve := by
  cases tip with
  | finalized => exact settles_finalizedBlock
  | confirmations n =>
      unfold Tip.resolve
      apply (settles_consult id).bind
      intro answer
      apply settles_liftRpc.bind
      intro head
      exact settles_pure

theorem settles_target {target : Target} : Settles target.resolve := by
  cases target with
  | finalized => exact settles_finalizedBlock
  | latest =>
      unfold Target.resolve
      apply (settles_consult id).bind
      intro answer
      exact settles_liftRpc
  | number n => exact settles_pure

theorem settles_iterate {υ : Type} {m : HashMap Address υ} :
    Settles (iterate m) := by
  unfold iterate
  apply (settles_consult id).bind
  intro order
  exact settles_pure

theorem settles_recordProgress {cursor tip : ℕ} :
    Settles (recordProgress cursor tip) := by
  unfold recordProgress
  apply settles_get.bind
  intro s
  split
  · exact settles_pure
  · apply (settles_consult id).bind
    intro now
    exact settles_modify (fun _ => le_rfl) (fun _ => rfl)

theorem settles_updateReorgWatch : Settles (updateReorgWatch cfg) := by
  unfold updateReorgWatch
  split
  · apply settles_get.bind
    intro s
    unfold storeCursorHash
    apply (settles_blockHash.bind _).bind
    · intro _
      exact settles_modify (fun _ => le_rfl) (fun _ => rfl)
    · intro hash
      exact settles_modify (fun _ => le_rfl) (fun _ => rfl)
  · exact settles_pure

theorem settles_publishChanges : Settles (publishChanges updates) := by
  unfold publishChanges
  apply settles_get.bind
  intro s
  split
  · exact settles_pure
  · apply settles_iterate.bind
    intro batch
    apply (settles_consult id).bind
    intro alive
    split
    · exact settles_modify (fun _ => le_rfl) (fun _ => rfl)
    · exact settles_throw

theorem settles_setBlocks {origin : ℕ} : Settles (setBlocks origin) := by
  unfold setBlocks
  apply Settles.bind
  · exact settles_modify (fun _ => le_rfl) (fun _ => rfl)
  intro _
  apply settles_get.bind
  intro s
  exact settles_pure

/-- The map a repair puts in place is the one it read, so this one is not
composed from its steps. -/
theorem settles_repairIfNeeded : Settles (repairIfNeeded cfg) := by
  constructor
  · exact asks_repairIfNeeded (fun _ h => h.not_isSave) fun _ => id
  · intro κ env world s
    have hkeeps : env.Keeps fun _ _ => True := fun _ _ _ _ _ => trivial
    refine meets_mono (meets_repairIfNeeded hkeeps) ?_ ?_
    · intro final _ s' hstep
      cases hstep with
      | final htip => exact ⟨le_rfl, rfl⟩
      | unknown htip hhash => exact ⟨le_rfl, rfl⟩
      | same htip hhash hanswer => exact ⟨le_rfl, rfl⟩
      | repaired htip hhash hanswer hne hrepaired =>
          rcases hrepaired with ⟨rows, map, -, -, -, -, rfl⟩
          exact ⟨Nat.sub_le _ _, rfl⟩
    · rintro final failure s' rfl
      exact ⟨le_rfl, rfl⟩

theorem settles_preflight : Settles (preflight lo) := by
  unfold preflight
  apply Settles.bind
  · unfold ensureMainnet
    apply (settles_consult id).bind
    intro answer
    apply settles_liftRpc.bind
    intro id
    split
    · exact settles_pure
    · exact settles_throw
  · intro _
    apply Settles.bind
    · unfold ensureMulticallAt
      split
      · exact settles_pure
      · exact settles_throw
    · intro _
      apply Settles.bind
      · unfold ensureStateAvailable
        apply settles_readBalances.attempt.bind
        intro outcome
        split
        · exact settles_pure
        · exact settles_throw
        · exact settles_throw
      · intro _
        unfold ensureLogsAvailable
        apply (settles_consult id).bind
        intro served
        split
        · exact settles_pure
        · apply (settles_consult id).bind
          intro answer
          apply settles_liftRpc.bind
          intro head
          apply (settles_consult id).bind
          intro atHead
          split
          · exact settles_throw
          · exact settles_throw

/-! ## Programs that account for what they fold -/

/-- A program after which the ledger still shows every block up to the
cursor. -/
def Accounts (start : ℕ) (p : Sync α) : Prop :=
  ∀ ⦃κ : Type⦄ ⦃env : Environment Request Answer κ⦄ ⦃world : κ⦄ ⦃l : Ledger⦄
    ⦃s : Process⦄, Accounted start l s →
      Meets (env.observed noteScan) p (world, l) s
        (fun final _ s' => Accounted start final.2 s')
        (fun final _ s' => Accounted start final.2 s')

theorem Settles.accounts {p : Sync α} (hp : Settles p) : Accounts start p := by
  intro κ env world l s hs
  exact hp.accounted hs

theorem Accounts.bind {β : Type} {p : Sync α} {f : α → Sync β}
    (hp : Accounts start p) (hf : ∀ a, Accounts start (f a)) :
    Accounts start (p >>= f) := by
  intro κ env world l s hs
  rw [meets_bind]
  refine meets_mono (hp hs) ?_ (fun _ _ _ h => h)
  rintro ⟨middle, recorded⟩ a s₁ hs₁
  exact hf a hs₁

theorem Accounts.attempt {p : Sync α} (hp : Accounts start p) :
    Accounts start (Program.attempt p) := by
  intro κ env world l s hs
  rw [meets_attempt]
  exact hp hs

theorem accounts_saveMap : Accounts start saveMap := by
  intro κ env world l s hs
  rw [meets_saveMap]
  rintro answer ⟨after, recorded⟩ ⟨-, hrecorded⟩
  dsimp only at hrecorded
  subst hrecorded
  cases answer with
  | ok written =>
      constructor
      · exact hs.memory
      · intro map hmap
        rw [← Option.some.inj hmap]
        exact hs.memory
  | error e => exact hs.mono (.refl l) le_rfl rfl

theorem accounts_saveMapOrFail : Accounts start saveMapOrFail := by
  unfold saveMapOrFail
  apply accounts_saveMap.bind
  intro written
  split
  · exact settles_pure.accounts
  · exact settles_throw.accounts

/-! ### A pass and the loop -/

theorem accounts_syncTo {target : ℕ} : Accounts start (syncTo cfg target) := by
  intro κ env world l s hs
  simp only [syncTo, meets_bind, meets_get]
  have hsettles : Settles (recordProgress s.map.cursor target) :=
    settles_recordProgress
  refine meets_mono (hsettles.2.observed hsettles.1 noteScan_extends (.refl l))
    ?_ ?_
  · rintro ⟨middle, recorded⟩ _ s₁ ⟨hext, hcursor, hsaved⟩
    have hbelow : CoversBelow recorded.folded start (s.map.cursor + 1) :=
      (hs.memory.below le_rfl).mono hext.1
    simp only [sync, meets_bind, meets_modify]
    refine meets_mono (meets_syncInto_accounted hbelow
      (hs.mono hext hcursor hsaved)) ?_ (fun _ _ _ h => h)
    intro final _ s' hs'
    simp only [meets_get, meets_pure]
    exact hs'
  · rintro final failure s' ⟨hext, hcursor, hsaved⟩
    exact hs.mono hext hcursor hsaved

theorem accounts_finishPass : Accounts start (finishPass cfg updates) := by
  unfold finishPass
  apply settles_updateReorgWatch.accounts.bind
  intro _
  apply accounts_saveMapOrFail.bind
  intro _
  apply settles_get.accounts.bind
  intro s
  apply settles_recordProgress.accounts.bind
  intro _
  apply settles_markSnapshot.accounts.bind
  intro _
  exact settles_publishChanges.accounts

theorem accounts_pass : Accounts start (pass cfg updates) := by
  unfold pass
  apply settles_repairIfNeeded.accounts.bind
  intro _
  apply settles_resolve.accounts.bind
  intro target
  unfold passTo
  apply settles_get.accounts.bind
  intro s
  split
  · exact settles_pure.accounts
  · apply accounts_syncTo.bind
    intro _
    exact accounts_finishPass

theorem accounts_onFailure : Accounts start onFailure := by
  unfold onFailure
  apply Accounts.bind
  · apply Settles.accounts
    exact settles_modify (fun _ => le_rfl) (fun _ => rfl)
  · intro _
    apply accounts_saveMap.bind
    intro written
    split
    · exact settles_markSnapshot.accounts
    · exact settles_pure.accounts

theorem accounts_followRound : Accounts start (followRound cfg updates) := by
  unfold followRound
  apply accounts_pass.attempt.bind
  intro outcome
  split
  · apply Accounts.bind
    · apply Settles.accounts
      exact settles_modify (fun _ => le_rfl) (fun _ => rfl)
    · intro _
      exact settles_pure.accounts
  · apply accounts_onFailure.bind
    intro _
    exact settles_pure.accounts
  · exact settles_throw.accounts

theorem accounts_followRounds :
    Accounts start (followRounds cfg updates fuel) := by
  induction fuel with
  | zero => exact settles_throw.accounts
  | succ fuel ih =>
      unfold followRounds
      apply accounts_followRound.bind
      intro _
      exact ih

theorem accounts_followFrom {now : ℕ} :
    Accounts start (followFrom cfg updates now) := by
  unfold followFrom
  apply settles_get.accounts.bind
  intro s
  apply settles_preflight.accounts.bind
  intro _
  apply Accounts.bind
  · apply Settles.accounts
    exact settles_modify (fun _ => le_rfl) (fun _ => rfl)
  · intro _
    apply (settles_consult id).accounts.bind
    intro lifetime
    exact accounts_followRounds

/-! ### Bounded syncs -/

theorem meets_syncOnce_accounted (hbelow : CoversBelow l.folded start lo)
    (hs : Accounted start l s) :
    Meets (env.observed noteScan) (syncOnce cfg lo toBlock) (world, l) s
      (fun final _ s' => Accounted start final.2 s')
      (fun final _ s' => Accounted start final.2 s') := by
  simp only [syncOnce, markSnapshot, meets_bind, meets_instantNow, meets_modify]
  rintro now ⟨after, recorded⟩ ⟨-, hrecorded⟩
  dsimp only at hrecorded
  subst hrecorded
  have hext : l.Extends (noteScan l .instantNow now) :=
    noteScan_extends l .instantNow now id (.refl l)
  exact meets_syncInto_accounted (hbelow.mono hext.1) (hs.mono hext le_rfl rfl)

theorem accounts_waitToRetry {word : Word} {before retries stalled : ℕ}
    {error : List String} :
    Accounts start (waitToRetry word before retries error stalled) := by
  unfold waitToRetry
  apply accounts_saveMap.bind
  intro written
  apply settles_get.accounts.bind
  intro s
  dsimp only
  split
  · exact settles_throw.accounts
  · exact settles_pure.accounts

theorem meets_syncAttempts_accounted {retries origin stalled : ℕ}
    (hbelow : CoversBelow l.folded start lo) (hs : Accounted start l s) :
    Meets (env.observed noteScan)
      (syncAttempts cfg toBlock retries origin fuel lo stalled) (world, l) s
      (fun final _ s' => Accounted start final.2 s')
      (fun final _ s' => Accounted start final.2 s') := by
  induction fuel generalizing lo stalled world l s with
  | zero => exact hs
  | succ fuel ih =>
      simp only [syncAttempts, meets_bind, meets_get, meets_attempt]
      refine meets_mono (meets_syncOnce_accounted hbelow hs) ?_ ?_
      · rintro ⟨middle, recorded⟩ _ s₁ hs₁
        refine meets_mono (settles_setBlocks.accounts hs₁) ?_ (fun _ _ _ h => h)
        rintro ⟨middle', recorded'⟩ totals s₂ hs₂
        exact meets_mono (accounts_saveMapOrFail hs₂) (fun _ _ _ h => h)
          (fun _ _ _ h => h)
      · rintro ⟨middle, recorded⟩ failure s₁ hs₁
        cases failure with
        | err chain =>
            simp only [meets_bind]
            refine meets_mono (accounts_waitToRetry hs₁) ?_ (fun _ _ _ h => h)
            rintro ⟨middle', recorded'⟩ stalled' s₂ hs₂
            simp only [meets_get]
            split
            · exact settles_setBlocks.accounts hs₂
            · exact ih (hs₂.memory.below_next cfg.word) hs₂
        | panic message => exact hs₁
        | killed => exact hs₁

theorem meets_runSync_accounted {retries : ℕ}
    (hbelow : CoversBelow l.folded start lo) (hs : Accounted start l s) :
    Meets (env.observed noteScan) (runSync cfg lo toBlock retries) (world, l) s
      (fun final _ s' => Accounted start final.2 s')
      (fun final _ s' => Accounted start final.2 s') := by
  simp only [runSync, meets_bind, meets_modify, meets_get, meets_lifetime]
  rintro lifetime ⟨after, recorded⟩ ⟨-, hrecorded⟩
  dsimp only at hrecorded
  subst hrecorded
  exact meets_syncAttempts_accounted hbelow (hs.mono (.refl l) le_rfl rfl)

end Rules

end UsdtPir
