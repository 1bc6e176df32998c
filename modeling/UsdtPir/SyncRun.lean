import UsdtPir.ApplyRange

/-!
# Syncing a block range

A sync cuts its range into chunks.  Each chunk fetches logs, narrowing the
range when the provider caps the result, folds them into the map, and moves
the cursor to its last block.  The relations `ChunkApplied` and `Chunks` say
what one chunk and a run of chunks do to the state; everything later is
derived from them.
-/

namespace UsdtPir

open Interaction
open Program

/-! ## Fetching logs -/

def resultCapPatterns : List String :=
  ["more than", "query returned", "too many results", "response size",
    "limit exceeded", "limited to", "block range", "range is too large",
    "too large", "exceeds"]

def isResultCapMessage (message : String) : Bool :=
  let msg := message.toList.map Char.toLower
  resultCapPatterns.any fun pat =>
    msg.tails.any fun rest => pat.toList.isPrefixOf rest

def isResultCap (e : RpcError) : Bool :=
  isResultCapMessage e.message

/-- `fetch_logs`, with the range that was served and the chunk size left.  The
fuel is `hi - lo`: without any left the range is one block, or none, and is
not narrowed. -/
def fetchLogs (lo : ℕ) : ℕ → ℕ → ℕ → Sync (List Log × ℕ × ℕ)
  | 0, hi, chunk => do
      let answer ← Ask.getLogs (filter lo hi)
      let logs ← liftRpc [] answer
      pure (logs, hi, chunk)
  | fuel + 1, hi, chunk => do
      let answer ← Ask.getLogs (filter lo hi)
      match answer with
      | .ok logs => pure (logs, hi, chunk)
      | .error e =>
          if isResultCap e ∧ lo < hi then
            fetchLogs lo fuel (lo + (hi - lo) / 2) (max (chunk / 2) 1)
          else
            liftRpc [] (.error e)

/-! ## Chunks -/

def ChainWatch.record (watch : ChainWatch) (through : ℕ)
    (addrs : List Address) : ChainWatch :=
  if addrs = [] then
    watch
  else
    { watch with recent := watch.recent ++ [(through, addrs)] }

def maybeSnapshot (cfg : FollowConfig) : Sync Unit := do
  let s ← Program.get
  let now ← Ask.instantNow
  if now - s.lastSnapshot < cfg.snapshotEvery then
    pure ()
  else do
    saveMapOrFail
    markSnapshot

def applyChunk (logs : List Log) (hi : ℕ) : Sync BatchStats := do
  let (stats, touched) ← applyRange logs hi
  Program.modify fun s => { s with watch := s.watch.record hi touched }
  pure stats

/-- `sync_one_chunk`: the next `lo` and the chunk size left. -/
def syncOneChunk (cfg : FollowConfig) (lo toBlock chunk : ℕ) : Sync (ℕ × ℕ) := do
  let want := min (cfg.word.sub (cfg.word.add lo chunk) 1) toBlock
  let (logs, hi, chunk) ← fetchLogs lo (want - lo) want chunk
  let stats ← applyChunk logs hi
  Program.modify fun s => { s with
    map := { s.map with cursor := hi }
    totals := s.totals.fold stats }
  maybeSnapshot cfg
  pure (cfg.word.add hi 1, chunk)

/-- `sync_chunks`; the fuel is the number of chunks the process lives for. -/
def syncChunks (cfg : FollowConfig) (toBlock : ℕ) : ℕ → ℕ → ℕ → Sync Unit
  | 0, lo, _ => if lo ≤ toBlock then .throw .killed else pure ()
  | fuel + 1, lo, chunk =>
      if lo ≤ toBlock then do
        let (lo, chunk) ← syncOneChunk cfg lo toBlock chunk
        syncChunks cfg toBlock fuel lo chunk
      else
        pure ()

def pruneTransient (cfg : FollowConfig) : Sync Unit :=
  Program.modify fun s =>
    let (pruned, map) := s.map.pruneZero s.inserted
    { s with
      map := map
      totals := { s.totals with
        pruned := pruned
        inserted := cfg.word.sub s.totals.inserted pruned } }

/-- `sync_into`, adding to the totals already in the state. -/
def syncInto (cfg : FollowConfig) (lo toBlock : ℕ) : Sync Unit := do
  Program.modify fun s => { s with changed := ∅ }
  if toBlock < lo then
    pure ()
  else do
    Program.modify fun s => { s with inserted := ∅ }
    let lifetime ← Ask.lifetime
    syncChunks cfg toBlock lifetime lo cfg.chunk
    pruneTransient cfg

def startTotals (cfg : FollowConfig) (lo toBlock : ℕ) : SyncStats :=
  { (default : SyncStats) with
    blocks := if toBlock ≤ lo then 0 else cfg.word.add (cfg.word.sub toBlock lo) 1 }

def sync (cfg : FollowConfig) (lo toBlock : ℕ) : Sync SyncStats := do
  Program.modify fun s => { s with totals := startTotals cfg lo toBlock }
  syncInto cfg lo toBlock
  let s ← Program.get
  pure s.totals

/-! ## What one chunk does -/

/-- The logs of `lo..=hi` were fetched and folded, the touched addresses
remembered, the cursor moved to `hi`; the snapshot may have been written. -/
def ChunkApplied (truth : (q : Request) → Answer q → Prop) (lo hi : ℕ)
    (s s' : Process) : Prop :=
  ∃ logs stats addrs touched rows s₁,
    truth (.getLogs (filter lo hi))
        (Except.ok logs : Except RpcError (List Log)) ∧
      RangeApplied truth logs hi s s₁ stats addrs touched rows ∧
      s' = { s₁ with
        map := { s₁.map with cursor := hi }
        watch := s.watch.record hi addrs
        totals := s.totals.fold stats
        lastSnapshot := s'.lastSnapshot
        saved := s'.saved } ∧
      (s'.saved = s.saved ∨ s'.saved = some s'.map)

/-- A run of consecutive chunks, none past `toBlock`. -/
inductive Chunks (truth : (q : Request) → Answer q → Prop)
    (cfg : FollowConfig) (toBlock : ℕ) : ℕ → Process → ℕ → Process → Prop
  | nil (lo : ℕ) (s : Process) : Chunks truth cfg toBlock lo s lo s
  | cons {lo hi lo' : ℕ} {s s₁ s' : Process}
      (hlo : lo ≤ toBlock) (hhi : hi ≤ toBlock)
      (hchunk : ChunkApplied truth lo hi s s₁)
      (hrest : Chunks truth cfg toBlock (cfg.word.add hi 1) s₁ lo' s') :
      Chunks truth cfg toBlock lo s lo' s'

/-- The state in which the chunks of a sync start. -/
def Process.startSync (s : Process) : Process :=
  { s with changed := ∅, inserted := ∅ }

section Rules

variable {ω : Type} {env : Environment Request Answer ω} {world : ω}
    {s : Process} {truth : (q : Request) → Answer q → Prop}

/-- A served range starts where it was asked for and ends no later. -/
theorem meets_fetchLogs (hkeeps : env.Keeps truth) {lo fuel hi chunk : ℕ} :
    Meets env (fetchLogs lo fuel hi chunk) world s
      (fun _ result s' => s' = s ∧
        truth (.getLogs (filter lo result.2.1))
          (Except.ok result.1 : Except RpcError (List Log)) ∧
        result.2.1 ≤ hi)
      (fun _ failure s' => Untouched s failure s') := by
  induction fuel generalizing hi chunk world with
  | zero =>
      simp only [fetchLogs, meets_bind, meets_getLogs, meets_liftRpc,
        meets_pure]
      intro answer after hanswer
      refine ⟨fun logs hlogs => ?_, fun e _ => ⟨rfl, _, rfl⟩⟩
      subst hlogs
      exact ⟨trivial, hkeeps _ _ _ _ hanswer, le_rfl⟩
  | succ fuel ih =>
      simp only [fetchLogs, meets_bind, meets_getLogs]
      intro answer after hanswer
      cases answer with
      | ok logs => exact ⟨rfl, hkeeps _ _ _ _ hanswer, le_rfl⟩
      | error e =>
          by_cases hcap : isResultCap e = true ∧ lo < hi
          · simp only [if_pos hcap]
            refine meets_mono ih ?_ (fun _ _ _ h => h)
            rintro final result s' ⟨rfl, hlogs, hle⟩
            exact ⟨rfl, hlogs, by omega⟩
          · simp only [if_neg hcap, meets_liftRpc]
            constructor
            · intro logs hlogs
              cases hlogs
            · intro _ _
              exact ⟨rfl, _, rfl⟩

theorem meets_maybeSnapshot {cfg : FollowConfig} :
    Meets env (maybeSnapshot cfg) world s
      (fun _ _ s' =>
        s' = { s with lastSnapshot := s'.lastSnapshot, saved := s'.saved } ∧
        (s'.saved = s.saved ∨ s'.saved = some s.map))
      (fun _ failure s' => Untouched s failure s') := by
  simp only [maybeSnapshot, meets_bind, meets_get, meets_instantNow]
  intro now after _
  split
  · simp
  · simp only [meets_bind, meets_saveMapOrFail]
    intro answer after' _
    cases answer with
    | ok written =>
        simp [markSnapshot]
    | error e => exact ⟨rfl, _, rfl⟩

/-- A chunk is applied, or it failed: then nothing of it is in the state, or
all of it is and the snapshot could not be written. -/
theorem meets_syncOneChunk (hkeeps : env.Keeps truth) {cfg : FollowConfig}
    {lo toBlock chunk : ℕ} :
    Meets env (syncOneChunk cfg lo toBlock chunk) world s
      (fun _ next s' => ∃ hi ≤ toBlock, next.1 = cfg.word.add hi 1 ∧
        ChunkApplied truth lo hi s s')
      (fun _ failure s' => FailsUntouched s failure s' ∨
        ∃ hi ≤ toBlock, ChunkApplied truth lo hi s s') := by
  simp only [syncOneChunk, meets_bind]
  refine meets_mono (meets_fetchLogs hkeeps) ?_
    (fun _ _ _ h => .inl h.failsUntouched)
  rintro middle ⟨logs, hi, left⟩ s₁ ⟨rfl, hlogs, hle⟩
  have hto : hi ≤ toBlock := hle.trans (min_le_right _ _)
  simp only [applyChunk, meets_bind]
  refine meets_mono (meets_applyRange hkeeps) ?_ (fun _ _ _ h => .inl h)
  rintro middle' ⟨stats, addrs⟩ s₂ ⟨touched, rows, hrange⟩
  have hwatch : s₂.watch = s₁.watch := by
    obtain ⟨out, -, -, hs⟩ := hrange.applied
    rw [hs]
  have htotals : s₂.totals = s₁.totals := by
    obtain ⟨out, -, -, hs⟩ := hrange.applied
    rw [hs]
  have hsaved : s₂.saved = s₁.saved := by
    obtain ⟨out, -, -, hs⟩ := hrange.applied
    rw [hs]
  simp only [meets_modify, meets_pure]
  refine meets_mono meets_maybeSnapshot ?_ ?_
  · rintro final _ s' ⟨hs', hsaved'⟩
    refine ⟨hi, hto, rfl, logs, stats, addrs, touched, rows, s₂, hlogs,
      hrange, ?_, ?_⟩
    · rw [hs', hwatch, htotals]
    · rw [hs'] at hsaved' ⊢
      simpa [hsaved] using hsaved'
  · rintro final failure s' ⟨rfl, -⟩
    refine .inr ⟨hi, hto, logs, stats, addrs, touched, rows, s₂, hlogs,
      hrange, ?_, .inl hsaved⟩
    rw [hwatch, htotals]

/-- However the loop ends, what it did is a run of whole chunks. -/
theorem meets_syncChunks (hkeeps : env.Keeps truth) {cfg : FollowConfig}
    {toBlock fuel lo chunk : ℕ} :
    Meets env (syncChunks cfg toBlock fuel lo chunk) world s
      (fun _ _ s' => ∃ lo', toBlock < lo' ∧ Chunks truth cfg toBlock lo s lo' s')
      (fun _ _ s' => ∃ lo', Chunks truth cfg toBlock lo s lo' s') := by
  induction fuel generalizing lo chunk world s with
  | zero =>
      unfold syncChunks
      split
      · rw [meets_throw]
        exact ⟨lo, .nil lo s⟩
      · rename_i hlo
        rw [meets_pure]
        exact ⟨lo, by omega, .nil lo s⟩
  | succ fuel ih =>
      unfold syncChunks
      split
      · rename_i hlo
        rw [meets_bind]
        refine meets_mono (meets_syncOneChunk hkeeps) ?_ ?_
        · rintro middle ⟨next, left⟩ s₁ ⟨hi, hhi, rfl, hchunk⟩
          refine meets_mono ih ?_ ?_
          · rintro final _ s' ⟨lo', hlo', hrest⟩
            exact ⟨lo', hlo', .cons hlo hhi hchunk hrest⟩
          · rintro final _ s' ⟨lo', hrest⟩
            exact ⟨lo', .cons hlo hhi hchunk hrest⟩
        · rintro final failure s' (⟨rfl, -⟩ | ⟨hi, hhi, hchunk⟩)
          · exact ⟨lo, .nil lo s'⟩
          · exact ⟨_, .cons hlo hhi hchunk (.nil _ s')⟩
      · rename_i hlo
        rw [meets_pure]
        exact ⟨lo, by omega, .nil lo s⟩

/-- The state a successful sync leaves, from the one after its last chunk. -/
def Process.pruned (cfg : FollowConfig) (s : Process) : Process :=
  { s with
    map := (s.map.pruneZero s.inserted).2
    totals := { s.totals with
      pruned := (s.map.pruneZero s.inserted).1
      inserted := cfg.word.sub s.totals.inserted
        (s.map.pruneZero s.inserted).1 } }

theorem meets_syncInto (hkeeps : env.Keeps truth) {cfg : FollowConfig}
    {lo toBlock : ℕ} (hlo : lo ≤ toBlock) :
    Meets env (syncInto cfg lo toBlock) world s
      (fun _ _ s' => ∃ lo' s₁, toBlock < lo' ∧
        Chunks truth cfg toBlock lo s.startSync lo' s₁ ∧ s' = s₁.pruned cfg)
      (fun _ _ s' => ∃ lo', Chunks truth cfg toBlock lo s.startSync lo' s') := by
  have hnot : ¬ toBlock < lo := by omega
  simp only [syncInto, meets_bind, meets_modify, if_neg hnot, meets_lifetime]
  intro fuel after _
  refine meets_mono (meets_syncChunks hkeeps) ?_ (fun _ _ _ h => h)
  rintro middle _ s₁ ⟨lo', hlo', hchunks⟩
  simp only [pruneTransient, meets_modify]
  exact ⟨lo', s₁, hlo', hchunks, rfl⟩

theorem meets_syncInto_empty {cfg : FollowConfig} {lo toBlock : ℕ} (hlo : toBlock < lo) :
    Meets env (syncInto cfg lo toBlock) world s
      (fun _ _ s' => s' = { s with changed := ∅ })
      (fun _ _ _ => False) := by
  simp [syncInto, hlo]

end Rules

/-! ## The chunks of a sync, field by field -/

section Fields

variable {truth : (q : Request) → Answer q → Prop} {cfg : FollowConfig}
    {lo hi lo' toBlock : ℕ} {s s' : Process}

/-- What a chunk does not touch. -/
structure SameOutside (s s' : Process) : Prop where
  cursorHash : s'.watch.cursorHash = s.watch.cursorHash
  failures : s'.failures = s.failures
  progress : s'.progress = s.progress
  sent : s'.sent = s.sent

theorem SameOutside.refl (s : Process) : SameOutside s s :=
  ⟨rfl, rfl, rfl, rfl⟩

theorem SameOutside.trans {s₁ : Process} (h : SameOutside s s₁)
    (h' : SameOutside s₁ s') : SameOutside s s' :=
  ⟨h'.cursorHash.trans h.cursorHash, h'.failures.trans h.failures,
    h'.progress.trans h.progress, h'.sent.trans h.sent⟩

theorem ChunkApplied.sameOutside (h : ChunkApplied truth lo hi s s') :
    SameOutside s s' := by
  obtain ⟨logs, stats, addrs, touched, rows, s₁, -, hrange, hs', -⟩ := h
  obtain ⟨out, -, -, hs₁⟩ := hrange.applied
  rw [hs', hs₁]
  refine ⟨?_, rfl, rfl, rfl⟩
  simp only [ChainWatch.record]
  split <;> rfl

theorem ChunkApplied.cursor (h : ChunkApplied truth lo hi s s') :
    s'.map.cursor = hi := by
  obtain ⟨logs, stats, addrs, touched, rows, s₁, -, -, hs', -⟩ := h
  rw [hs']

theorem ChunkApplied.saved (h : ChunkApplied truth lo hi s s') :
    s'.saved = s.saved ∨ s'.saved = some s'.map := by
  obtain ⟨logs, stats, addrs, touched, rows, s₁, -, -, -, hsaved⟩ := h
  exact hsaved

theorem Chunks.sameOutside (h : Chunks truth cfg toBlock lo s lo' s') :
    SameOutside s s' := by
  induction h with
  | nil lo s => exact SameOutside.refl s
  | cons hlo hhi hchunk hrest ih => exact hchunk.sameOutside.trans ih

end Fields

/-! ## Pruning -/

namespace BalanceMap

theorem removeIfZero_eq {map : BalanceMap} {addr : Address}
    (h : ∀ e, map.get addr = some e → e.isZero = false) :
    map.removeIfZero addr = map := by
  unfold removeIfZero
  rw [if_neg]
  cases hget : map.get addr with
  | none => simp
  | some e => simp [h e hget]

theorem pruneZero_cursor (map : BalanceMap)
    (candidates : HashSet Address) :
    (map.pruneZero candidates).2.cursor = map.cursor := by
  have hfold : ∀ (keys : List Address) (map : BalanceMap),
      (keys.foldl removeIfZero map).cursor = map.cursor := by
    intro keys
    induction keys with
    | nil => simp
    | cons a rest ih =>
        intro map
        rw [List.foldl_cons, ih]
        unfold removeIfZero
        split <;> rfl
  exact hfold candidates.keys map

/-- Pruning does nothing when no candidate holds a zero entry. -/
theorem pruneZero_eq {map : BalanceMap} {candidates : HashSet Address}
    (h : ∀ a ∈ candidates, ∀ e, map.get a = some e → e.isZero = false) :
    map.pruneZero candidates = (0, map) := by
  have hfold : ∀ keys : List Address, (∀ a ∈ keys, a ∈ candidates) →
      keys.foldl removeIfZero map = map := by
    intro keys
    induction keys with
    | nil => intro _; rfl
    | cons a rest ih =>
        intro hsub
        rw [List.foldl_cons, removeIfZero_eq (h a (hsub a List.mem_cons_self))]
        exact ih fun b hb => hsub b (List.mem_cons_of_mem _ hb)
  have hkeys := hfold candidates.keys fun a ha => AList.mem_keys.mpr ha
  simp [pruneZero, hkeys]

end BalanceMap

end UsdtPir
