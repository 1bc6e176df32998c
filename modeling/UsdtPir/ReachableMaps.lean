import UsdtPir.ChainBalances
import UsdtPir.SnapshotFormat

/-!
# The maps the program builds

A map starts empty.  Readings are folded into it, by a sync or by a repair, its
cursor moves, it is pruned, and it goes through the snapshot file.  Whatever
the order, it never holds an entry with both balances zero, so the pruning at
the end of a sync finds nothing to remove.
-/

namespace UsdtPir

open Interaction
open Program

def BalanceMap.ZeroFree (map : BalanceMap) : Prop :=
  ∀ addr e, map.get addr = some e → e.isZero = false

/-- What `BalanceMap::new` and the operations on a map give. -/
inductive Built : BalanceMap → Prop
  | new (cursor : ℕ) : Built (.new cursor)
  | applied {map map' : BalanceMap} {addr : Address} {r : Reading}
      {seen : Touch} {applied : Applied} (h : Built map)
      (happly : map.apply addr r seen = some (applied, map')) : Built map'
  | moved {map : BalanceMap} (cursor : ℕ) (h : Built map) :
      Built { map with cursor := cursor }
  | pruned {map : BalanceMap} (candidates : HashSet Address)
      (h : Built map) : Built (map.pruneZero candidates).2
  | reloaded {map loaded : BalanceMap} {rows : List (Address × Entry)}
      (h : Built map) (hrows : Listing map.inner rows) (hfits : map.Fits)
      (hload : loadBytes (snapshotPieces map.cursor rows).flatten =
        .ok loaded) : Built loaded

/-! ## No zero entry -/

section ZeroFree

variable {map map' : BalanceMap} {addr : Address} {r : Reading} {seen : Touch}
    {applied : Applied} {candidates : HashSet Address}

/-- What `apply` keeps is what was read, and it keeps no zero. -/
theorem BalanceMap.ZeroFree.apply (hfree : map.ZeroFree)
    (h : map.apply addr r seen = some (applied, map')) : map'.ZeroFree := by
  intro other e hget
  by_cases hother : other = addr
  · subst hother
    rcases BalanceMap.apply_cases h with ⟨held, -, -, -, rfl⟩ |
      ⟨held, -, hzero, -, rfl⟩ | ⟨hnone, -, -, rfl⟩ | ⟨-, hzero, -, rfl⟩
    · simp [BalanceMap.get] at hget
    · have hinsert : mergeEntry held r seen = e := by
        simpa [BalanceMap.get] using hget
      rw [← hinsert, mergeEntry_isZero]
      exact hzero
    · rw [hnone] at hget
      cases hget
    · have hinsert : freshEntry r seen = e := by
        simpa [BalanceMap.get] using hget
      rw [← hinsert, freshEntry_isZero]
      exact hzero
  · rw [BalanceMap.apply_get_ne h hother] at hget
    exact hfree other e hget

theorem BalanceMap.ZeroFree.pruneZero_eq (hfree : map.ZeroFree) :
    map.pruneZero candidates = (0, map) := by
  apply BalanceMap.pruneZero_eq
  intro addr _ e hget
  exact hfree addr e hget

theorem BalanceMap.ZeroFree.same (hfree : map.ZeroFree)
    (hsame : map'.Same map) : map'.ZeroFree := by
  intro addr e hget
  rw [hsame.get] at hget
  exact hfree addr e hget

theorem Built.zeroFree (h : Built map) : map.ZeroFree := by
  induction h with
  | new cursor =>
      intro addr e hget
      cases hget
  | applied h happly ih => exact ih.apply happly
  | moved cursor h ih => exact ih
  | pruned candidates h ih =>
      rw [ih.pruneZero_eq]
      exact ih
  | reloaded h hrows hfits hload ih =>
      rcases loadBytes_same hrows hfits with ⟨loaded, hloaded, hsame⟩
      rw [hloaded] at hload
      cases hload
      exact ih.same hsame

theorem Built.readings {touched : HashMap Address Touch}
    {rows : List (Address × Reading)} {acc acc' : BalanceMap × ApplyOutputs}
    (h : Built acc.1) (happly : applyReadings touched rows acc = some acc') :
    Built acc'.1 := by
  induction rows generalizing acc with
  | nil =>
      cases happly
      exact h
  | cons row rest ih =>
      simp only [applyReadings, Option.bind_eq_bind,
        Option.bind_eq_some_iff] at happly
      rcases happly with ⟨middle, hrow, hrest⟩
      rcases applyReading_eq_some hrow with ⟨applied, hone, -⟩
      exact ih (h.applied hone) hrest

/-- Reorg corrections are readings as well. -/
theorem Built.corrected {rows : List (Address × Reading)} (h : Built map)
    (hcorrect : applyCorrections rows map = some map') : Built map' := by
  induction rows generalizing map with
  | nil =>
      cases hcorrect
      exact h
  | cons row rest ih =>
      simp only [applyCorrections, Option.bind_eq_bind,
        Option.bind_eq_some_iff] at hcorrect
      rcases hcorrect with ⟨⟨applied, middle⟩, hone, hrest⟩
      exact ih (h.applied hone) hrest

end ZeroFree

/-! ## The maps of a syncing process -/

/-- The map in memory and the one on disk were built by the program. -/
structure Process.Built (s : Process) : Prop where
  map : UsdtPir.Built s.map
  saved : ∀ map, s.saved = some map → UsdtPir.Built map

section Syncing

variable {truth : (q : Request) → Answer q → Prop} {cfg : FollowConfig}
    {lo hi lo' toBlock : ℕ} {s s₁ s' : Process}

theorem Process.Built.of_maps (h : s.Built) (hmap : UsdtPir.Built s'.map)
    (hsaved : s'.saved = s.saved ∨ s'.saved = some s'.map) : s'.Built := by
  constructor
  · exact hmap
  · intro map hdisk
    rcases hsaved with hold | hnew
    · rw [hold] at hdisk
      exact h.saved map hdisk
    · rw [hnew] at hdisk
      cases hdisk
      exact hmap

theorem ChunkApplied.builtMap (h : ChunkApplied truth lo hi s s')
    (hs : UsdtPir.Built s.map) : UsdtPir.Built s'.map := by
  rcases h with ⟨logs, stats, addrs, touched, rows, s₁, -, hrange, hs', -⟩
  rcases hrange.applied with ⟨out, happlied, -, -⟩
  have hread : UsdtPir.Built s₁.map := hs.readings happlied
  have hmap : s'.map = { s₁.map with cursor := hi } := by rw [hs']
  rw [hmap]
  exact hread.moved hi

theorem Chunks.builtMap (h : Chunks truth cfg toBlock lo s lo' s')
    (hs : UsdtPir.Built s.map) : UsdtPir.Built s'.map := by
  induction h with
  | nil lo s => exact hs
  | cons hlo hhi hchunk hrest ih => exact ih (hchunk.builtMap hs)

theorem ChunkApplied.built (h : ChunkApplied truth lo hi s s')
    (hs : s.Built) : s'.Built :=
  hs.of_maps (h.builtMap hs.map) h.saved

theorem Chunks.built (h : Chunks truth cfg toBlock lo s lo' s')
    (hs : s.Built) : s'.Built := by
  induction h with
  | nil lo s => exact hs
  | cons hlo hhi hchunk hrest ih => exact ih (hchunk.built hs)

theorem Process.Built.pruned (cfg : FollowConfig) (h : s.Built) :
    (s.pruned cfg).Built :=
  ⟨h.map.pruned s.inserted, h.saved⟩

theorem RepairStep.built (h : RepairStep truth cfg s s') (hs : s.Built) :
    s'.Built := by
  cases h with
  | final htip => exact hs
  | unknown htip hhash => exact hs
  | same htip hhash hanswer => exact hs
  | repaired htip hhash hanswer hne hrepaired =>
      rcases hrepaired with ⟨rows, map, -, -, -, hcorrect, rfl⟩
      exact ⟨(hs.map.corrected hcorrect).moved _, hs.saved⟩

theorem SyncStarted.built (h : SyncStarted cfg toBlock s s')
    (hs : s.Built) : s'.Built := by
  rcases h with ⟨progress, rfl⟩
  exact ⟨hs.map, hs.saved⟩

theorem Round.built {stages : Stages} {updates : Bool}
    {outcome : Except Failure Unit}
    (h : Round stages cfg updates s outcome s') (hs : s.Built) : s'.Built := by
  rcases h with ⟨-, s₁, ⟨hrepair, -, hadvanced⟩, rfl⟩ |
    ⟨chain, -, s₁, hfails, hsaved, hs'⟩
  · have hfirst := hrepair.built hs
    cases hadvanced with
    | idle hle => exact ⟨hfirst.map, hfirst.saved⟩
    | synced hlt hstart hchunks hend hwatch hpublished hstate =>
        have hlast := (hchunks.built (hstart.built hfirst)).pruned cfg
        rw [hstate]
        exact hlast.of_maps hlast.map (.inr rfl)
  · have hlast : s₁.Built := by
      cases hfails with
      | checking => exact hs
      | resolving hrepair => exact hrepair.built hs
      | advancing hrepair htarget hfails =>
          have hfirst := hrepair.built hs
          cases hfails with
          | syncing hlt hstart hchunks =>
              exact hchunks.built (hstart.built hfirst)
          | finishing hlt hstart hchunks hend hwatch hdisk hstate =>
              have hdone := (hchunks.built (hstart.built hfirst)).pruned cfg
              rw [hstate]
              exact hdone.of_maps hdone.map hdisk
    have hmap : s'.map = s₁.map := by rw [hs']
    rw [← hmap] at hsaved
    exact hlast.of_maps (hmap ▸ hlast.map) hsaved

theorem FollowRun.built {ω : Type} {env : Environment Request Answer ω}
    {updates : Bool} {world final : ω} {rounds : List RoundRecord}
    (h : FollowRun env cfg updates world s rounds final s') (hs : s.Built) :
    s'.Built ∧ ∀ r ∈ rounds, r.before.Built ∧ r.after.Built := by
  have hkeeps : env.Keeps fun _ _ => True := fun _ _ _ _ _ => trivial
  induction h with
  | start => exact ⟨hs, by simp⟩
  | round hrun hround ih =>
      rcases ih with ⟨hbefore, hrounds⟩
      rcases (meets_followRound hkeeps.explains).of_ok hround with
        ⟨passed, stages, -, -, hafter⟩
      have hbuilt := hafter.built hbefore
      constructor
      · exact hbuilt
      · intro r hr
        rcases List.mem_append.mp hr with hr | hr
        · exact hrounds r hr
        · rw [List.mem_singleton] at hr
          subst hr
          exact ⟨hbefore, hbuilt⟩

end Syncing

/-! ## The pruning at the end of a sync -/

section Pruning

variable {ω : Type} {env : Environment Request Answer ω} {world final : ω}
    {s s' : Process} {map : BalanceMap} {cfg : FollowConfig} {lo toBlock : ℕ}

theorem runs_syncInto (hlo : lo ≤ toBlock)
    (hrun : (syncInto cfg lo toBlock).Runs env world s final (.ok ()) s') :
    ∃ fuel start s₁,
      (syncChunks cfg toBlock fuel lo cfg.chunk).Runs env start s.startSync
        final (.ok ()) s₁ ∧
      s' = s₁.pruned cfg := by
  have hnot : ¬ toBlock < lo := Nat.not_lt_of_le hlo
  have hmeets : Meets env (syncInto cfg lo toBlock) world s
      (fun final _ s' => ∃ fuel start s₁,
        (syncChunks cfg toBlock fuel lo cfg.chunk).Runs env start s.startSync
          final (.ok ()) s₁ ∧
        s' = s₁.pruned cfg)
      (fun _ _ _ => True) := by
    simp only [syncInto, meets_bind, meets_modify, if_neg hnot, meets_lifetime]
    intro fuel start _
    rw [meets_iff_forall_runs]
    constructor
    · intro final _ s₁ hchunks
      simp only [pruneTransient, meets_modify]
      exact ⟨fuel, start, s₁, hchunks, rfl⟩
    · intro final failure s₁ _
      trivial
  exact hmeets.of_ok hrun

/-- No map the program builds holds a zero entry, so no sync of one prunes
anything, and what it would subtract from the insertions is there. -/
theorem no_zero_entry (hbuilt : Built map) :
    map.ZeroFree ∧
    ∀ {ω : Type} {env : Environment Request Answer ω} {world final : ω}
      {s s' : Process} {cfg : FollowConfig} {lo toBlock : ℕ}, s.map = map →
      lo ≤ toBlock →
      (syncInto cfg lo toBlock).Runs env world s final (.ok ()) s' →
      ∃ fuel start s₁,
        (syncChunks cfg toBlock fuel lo cfg.chunk).Runs env start s.startSync
          final (.ok ()) s₁ ∧
        s' = s₁.pruned cfg ∧
        s₁.map.pruneZero s₁.inserted = (0, s₁.map) ∧
        (s₁.map.pruneZero s₁.inserted).1 ≤ s₁.totals.inserted ∧
        s'.map = s₁.map ∧ s'.totals.pruned = 0 ∧
        s'.totals.inserted = s₁.totals.inserted := by
  constructor
  · exact hbuilt.zeroFree
  · intro ω env world final s s' cfg lo toBlock hmap hlo hrun
    have hkeeps : env.Keeps fun _ _ => True := fun _ _ _ _ _ => trivial
    rcases runs_syncInto hlo hrun with ⟨fuel, start, s₁, hchunks, rfl⟩
    rcases (meets_syncChunks hkeeps).of_ok hchunks with ⟨lo', -, hcut⟩
    have hstart : UsdtPir.Built s.startSync.map := by
      rw [← hmap] at hbuilt
      exact hbuilt
    have hprune : s₁.map.pruneZero s₁.inserted = (0, s₁.map) :=
      (hcut.builtMap hstart).zeroFree.pruneZero_eq
    refine ⟨fuel, start, s₁, hchunks, rfl, hprune, ?_, ?_, ?_, ?_⟩
    · rw [hprune]
      exact Nat.zero_le _
    · simp [Process.pruned, hprune]
    · simp [Process.pruned, hprune]
    · simp [Process.pruned, hprune, cfg.word.sub_of_le]

end Pruning

/-- The spender came and went within two chunks of one sync. -/
theorem ReceiveSpend.no_zero_entry_spender :
    (BalanceMap.new 0).ZeroFree ∧
      ∃ s₁ : Process, finish = s₁.pruned config ∧
        s₁.map.pruneZero s₁.inserted = (0, s₁.map) ∧
        finish.map = s₁.map ∧ finish.totals.pruned = 0 ∧
        finish.totals.inserted = s₁.totals.inserted := by
  have hnone := no_zero_entry (Built.new 0)
  have hrun : (syncInto config 1 2).Runs (Environment.of (chain.Says 2)) ()
      ReceiveSpend.start () (.ok ()) finish :=
    chain.runs_exec (syncInto config 1 2) ReceiveSpend.start balance_lt finish_ok
  have hstart : ReceiveSpend.start.map = BalanceMap.new 0 := rfl
  have hlo : 1 ≤ 2 := by decide
  rcases hnone.2 hstart hlo hrun with
    ⟨fuel, first, s₁, -, hfinish, hprune, -, hmap, hpruned, hinserted⟩
  exact ⟨hnone.1, s₁, hfinish, hprune, hmap, hpruned, hinserted⟩

end UsdtPir
