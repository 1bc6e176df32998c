import UsdtPir.ChangeJournal
import UsdtPir.FaithfulProvider

/-!
# The change set of a sync

The change set of a sync is a journal of the map, one cell for every address:
the entry held, whether this sync inserted it, and the entry the PIR thread is
to be told.  Reading by reading the cell goes through the steps of
`ChangeJournal`, so that library says when overlaying the change set on the
map the sync started from gives the map it ended with.
-/

namespace UsdtPir

open Interaction
open Program

/-- How a reading, with the touch it came from, acts on an entry. -/
def entryRules : Journal.Rules Entry (Reading × Touch) where
  empties x := x.1.isZero
  vacant := Entry.isZero
  place x := freshEntry x.1 x.2
  merge e x := mergeEntry e x.1 x.2
  vacant_place _ := rfl
  vacant_merge _ _ := rfl

/-- The readings of one address, in the order in which they were applied. -/
def readingsOf (a : Address) (history : List Application) :
    List (Reading × Touch) :=
  (history.filter fun x => x.addr = a).map fun x => (x.reading, x.seen)

@[simp]
theorem readingsOf_append (a : Address) (old new : List Application) :
    readingsOf a (old ++ new) = readingsOf a old ++ readingsOf a new := by
  simp [readingsOf]

/-- The journal cell of an address. -/
def Process.cell (s : Process) (a : Address) : Journal.Cell Entry :=
  ⟨s.map.get a, decide (a ∈ s.inserted), s.changed.lookup a⟩

/-- The journal cell of an address inside the loop of `apply_touched`. -/
def cellAt (acc : BalanceMap × ApplyOutputs) (a : Address) :
    Journal.Cell Entry :=
  ⟨acc.1.get a, decide (a ∈ acc.2.inserted), acc.2.changedOut.lookup a⟩

/-- A view overlaid with a change set: a zero entry deletes its address. -/
def overlay (view : Address → Option Entry) (changes : HashMap Address Entry) :
    Address → Option Entry :=
  fun a => entryRules.overlay (changes.lookup a) (view a)

/-! ## One reading is one step of the journal -/

section Step

variable {touched : HashMap Address Touch}
    {acc acc' : BalanceMap × ApplyOutputs} {row : Address × Reading}

theorem mem_of_recordCurrentEntry {map : BalanceMap} {addr a : Address}
    {changed : HashMap Address Entry} (hne : a ≠ addr) :
    (recordCurrentEntry map addr changed).lookup a = changed.lookup a := by
  unfold recordCurrentEntry
  split
  · split
    · exact AList.lookup_insert_ne hne
    · rfl
  · rfl

theorem cellAt_applyReading_ne
    (h : applyReading touched acc row = some acc') {a : Address}
    (hne : a ≠ row.1) : cellAt acc' a = cellAt acc a := by
  obtain ⟨applied, happly, hout⟩ := applyReading_eq_some h
  have hget := BalanceMap.apply_get_ne happly hne
  have hside : ∀ out : ApplyOutputs,
      (a ∈ (recordApplyResult applied row.1 out).inserted ↔
        a ∈ out.inserted) ∧
      (recordApplyResult applied row.1 out).changedOut.lookup a =
        out.changedOut.lookup a := by
    intro out
    cases applied with
    | inserted =>
        simp [recordApplyResult, recordInserted, hne, AList.mem_insert,
          AList.lookup_insert_ne hne]
    | updated =>
        simp [recordApplyResult, recordUpdated, AList.lookup_insert_ne hne]
    | removed entry =>
        simp only [recordApplyResult, recordRemoved]
        split
        · simp [AList.mem_erase, hne, AList.lookup_erase_ne hne]
        · simp [AList.lookup_insert_ne hne]
    | unchanged => simp [recordApplyResult]
    | skippedNewZero => simp [recordApplyResult]
  unfold cellAt
  rw [hget, hout]
  simp only [mem_of_recordCurrentEntry hne, (hside acc.2).2, (hside acc.2).1]

theorem cellAt_applyReading_self
    (h : applyReading touched acc row = some acc') :
    cellAt acc' row.1 = entryRules.step (cellAt acc row.1)
      (row.2, (touched.lookup row.1).getD default) := by
  obtain ⟨applied, happly, hout⟩ := applyReading_eq_some h
  generalize (touched.lookup row.1).getD default = seen at happly ⊢
  rcases BalanceMap.apply_cases happly with ⟨e, hget, hzero, rfl, hmap⟩ |
    ⟨e, hget, hzero, rfl, hmap⟩ | ⟨hget, hzero, rfl, hmap⟩ |
    ⟨hget, hzero, rfl, hmap⟩
  · have hgone : acc'.1.get row.1 = none := by
      rw [hmap]
      exact AList.lookup_erase _ _
    unfold cellAt Journal.Rules.step
    simp only [hget, hgone, hout, entryRules, hzero, if_true,
      recordApplyResult, recordRemoved, recordCurrentEntry]
    by_cases hin : row.1 ∈ acc.2.inserted
    · simp [hin, AList.lookup_erase, AList.mem_erase]
    · simp [hin, AList.lookup_insert]
  · have hnew : acc'.1.get row.1 = some (mergeEntry e row.2 seen) := by
      rw [hmap]
      exact AList.lookup_insert _
    unfold cellAt Journal.Rules.step
    simp only [hget, hnew, hout, entryRules, hzero, Bool.false_eq_true,
      if_false]
    by_cases hsame : mergeEntry e row.2 seen = e
    · simp only [hsame, if_true, recordApplyResult, recordCurrentEntry, hnew]
      by_cases hin : row.1 ∈ acc.2.changedOut
      · obtain ⟨z, hz⟩ := Option.isSome_iff_exists.mp
          (AList.lookup_isSome.mpr hin)
        simp [hin, hz, AList.lookup_insert]
      · have hnone := AList.lookup_eq_none.mpr hin
        simp [hin, hnone]
    · simp only [hsame, if_false, recordApplyResult, recordUpdated,
        recordCurrentEntry, hnew]
      simp [AList.mem_insert, AList.lookup_insert]
  · have hnone : acc'.1.get row.1 = none := by
      rw [hmap]
      exact hget
    unfold cellAt Journal.Rules.step
    simp only [hget, hnone, hout, entryRules, hzero, if_true,
      recordApplyResult, recordCurrentEntry]
  · have hnew : acc'.1.get row.1 = some (freshEntry row.2 seen) := by
      rw [hmap]
      exact AList.lookup_insert _
    unfold cellAt Journal.Rules.step
    simp only [hget, hnew, hout, entryRules, hzero, Bool.false_eq_true,
      if_false, recordApplyResult, recordInserted, recordCurrentEntry]
    simp [AList.mem_insert, AList.lookup_insert]

theorem cellAt_applyReadings {rows : List (Address × Reading)}
    (h : applyReadings touched rows acc = some acc') (a : Address) :
    cellAt acc' a =
      (readingsOf a (rows.map (syncApplication touched))).foldl
        entryRules.step (cellAt acc a) := by
  induction rows generalizing acc with
  | nil =>
      simp only [applyReadings, Option.some.injEq] at h
      subst h
      rfl
  | cons row rest ih =>
      simp only [applyReadings, Option.bind_eq_bind,
        Option.bind_eq_some_iff] at h
      obtain ⟨middle, hrow, hrest⟩ := h
      rw [ih hrest]
      by_cases ha : a = row.1
      · subst ha
        rw [cellAt_applyReading_self hrow]
        simp [readingsOf, syncApplication]
      · rw [cellAt_applyReading_ne hrow ha]
        have hne : ¬ row.1 = a := fun heq => ha heq.symm
        simp [readingsOf, syncApplication, hne]

end Step

/-! ## The cells of a sync -/

/-- From `s` to `s'` the readings `new` were applied by syncing, and every
cell went through its own. -/
structure Journaled (s s' : Process) (new : List Application) : Prop where
  history : s'.history = s.history ++ new
  cells : ∀ a, s'.cell a = (readingsOf a new).foldl entryRules.step (s.cell a)
  bySync : ∀ x ∈ new, x.byRepair = false

theorem Journaled.refl (s : Process) : Journaled s s [] :=
  ⟨(List.append_nil _).symm, fun _ => rfl, by simp⟩

theorem Journaled.trans {s s₁ s' : Process} {new new' : List Application}
    (h : Journaled s s₁ new) (h' : Journaled s₁ s' new') :
    Journaled s s' (new ++ new') := by
  constructor
  · rw [h'.history, h.history, List.append_assoc]
  · intro a
    rw [h'.cells, h.cells, readingsOf_append, List.foldl_append]
  · intro x hx
    rcases List.mem_append.mp hx with hx | hx
    · exact h.bySync x hx
    · exact h'.bySync x hx

section Sync

variable {truth : (q : Request) → Answer q → Prop} {cfg : FollowConfig}
    {lo hi lo' toBlock : ℕ} {s s' : Process}

theorem ChunkApplied.journaled (h : ChunkApplied truth lo hi s s') :
    ∃ new, Journaled s s' new := by
  obtain ⟨logs, stats, addrs, touched, rows, s₁, -, hrange, hs', -⟩ := h
  obtain ⟨out, happlied, -, hs₁⟩ := hrange.applied
  refine ⟨rows.map (syncApplication touched), ?_, fun a => ?_, ?_⟩
  · rw [hs', hs₁]
  · have hcell := cellAt_applyReadings happlied a
    rw [hs', hs₁]
    exact hcell
  · intro x hx
    obtain ⟨row, -, rfl⟩ := List.mem_map.mp hx
    rfl

theorem Chunks.journaled (h : Chunks truth cfg toBlock lo s lo' s') :
    ∃ new, Journaled s s' new := by
  induction h with
  | nil lo s => exact ⟨[], Journaled.refl s⟩
  | cons hlo hhi hchunk hrest ih =>
      obtain ⟨new, hnew⟩ := hchunk.journaled
      obtain ⟨later, hlater⟩ := ih
      exact ⟨new ++ later, hnew.trans hlater⟩

/-- An address a sync inserted holds a non-zero entry, so pruning at the end
of the sync finds nothing. -/
theorem Journaled.pruned_eq {new : List Application}
    (h : Journaled s.startSync s' new) :
    s'.map.pruneZero s'.inserted = (0, s'.map) := by
  refine BalanceMap.pruneZero_eq fun a ha e he => ?_
  have hspec := entryRules.spec_run (s.map.get a) (readingsOf a new)
  have hcell := h.cells a
  have hopened : s.startSync.cell a = Journal.Cell.opened (s.map.get a) := by
    simp [Process.cell, Process.startSync, Journal.Cell.opened]
  rw [hopened] at hcell
  change s'.cell a = entryRules.run _ _ at hcell
  rw [← hcell] at hspec
  exact hspec.not_vacant_of_fresh (by simpa [Process.cell] using ha) he

/-- The change set of a finished sync, address by address. -/
theorem Journaled.overlay_eq_iff {new : List Application}
    (h : Journaled s.startSync s' new) (view : Address → Option Entry)
    (a : Address) :
    overlay view s'.changed a = s'.map.get a ↔
      entryRules.recorded (s.map.get a) (readingsOf a new) = true ∨
        view a = entryRules.rest (s.map.get a) (readingsOf a new) := by
  have hcell := h.cells a
  have hopened : s.startSync.cell a = Journal.Cell.opened (s.map.get a) := by
    simp [Process.cell, Process.startSync, Journal.Cell.opened]
  rw [hopened] at hcell
  change s'.cell a = entryRules.run _ _ at hcell
  have hexact := entryRules.overlay_run_eq_iff (s.map.get a) (view a)
    (readingsOf a new)
  rw [← hcell] at hexact
  exact hexact

end Sync

/-! ## The change set against the difference the sync made -/

/-- The readings are zero at last, after a non-zero one that followed a zero
one: drained, refunded and drained again. -/
def drainedAgain (readings : List (Reading × Touch)) : Bool :=
  entryRules.endsEmpty readings && entryRules.refilled readings

/-- The readings applied between two states. -/
def appliedSince (s s' : Process) : List Application :=
  s'.history.drop s.history.length

theorem Journaled.appliedSince_eq {s s' : Process} {new : List Application}
    (h : Journaled s s' new) : appliedSince s s' = new := by
  rw [appliedSince, h.history, List.drop_left]

theorem meets_syncInto_journaled {ω : Type}
    {env : Environment Request Answer ω} {world : ω} {cfg : FollowConfig}
    {lo toBlock : ℕ} {s : Process} :
    Meets env (syncInto cfg lo toBlock) world s
      (fun _ _ s' => ∃ s₁ new, Journaled s.startSync s₁ new ∧
        s'.map = s₁.map ∧ s'.changed = s₁.changed ∧ s'.history = s₁.history)
      (fun _ _ _ => True) := by
  have hkeeps : env.Keeps fun _ _ => True := fun _ _ _ _ _ => trivial
  by_cases hlo : lo ≤ toBlock
  · refine meets_mono (meets_syncInto hkeeps hlo) ?_ (fun _ _ _ _ => trivial)
    rintro final _ s' ⟨lo', s₁, -, hchunks, rfl⟩
    obtain ⟨new, hnew⟩ := hchunks.journaled
    exact ⟨s₁, new, hnew, congrArg Prod.snd hnew.pruned_eq, rfl, rfl⟩
  · refine meets_mono (meets_syncInto_empty (by omega)) ?_
      (fun _ _ _ h => h.elim)
    rintro final _ s' rfl
    exact ⟨s.startSync, [], Journaled.refl _, rfl, rfl, rfl⟩

/-- After a sync that returned `Ok`, overlaying the change set on the start
map gives the end map exactly when no address that was held at the start was
drained, refunded and drained again by the readings of this sync. -/
theorem syncInto_overlay_changed_iff {ω : Type}
    {env : Environment Request Answer ω} {world final : ω}
    {cfg : FollowConfig} {lo toBlock : ℕ} {s s' : Process}
    (hrun : (syncInto cfg lo toBlock).Runs env world s final (.ok ()) s') :
    (∀ a, overlay s.map.get s'.changed a = s'.map.get a) ↔
      ∀ a, ¬ (s.map.get a ≠ none ∧
        drainedAgain (readingsOf a (appliedSince s s')) = true) := by
  obtain ⟨s₁, new, hnew, hmap, hchanged, hhistory⟩ :=
    meets_syncInto_journaled.of_ok hrun
  have hsince : appliedSince s s' = new := by
    rw [← hnew.appliedSince_eq, appliedSince, appliedSince, hhistory]
    rfl
  rw [hsince, hmap, hchanged]
  refine forall_congr' fun a => ?_
  rw [hnew.overlay_eq_iff, ← entryRules.overlay_run_eq_iff,
    entryRules.overlay_run_self_iff, drainedAgain, Bool.and_eq_true]

/-! ### A sync that drains, refunds and drains an address -/

namespace DrainRefundDrain

def holder : Address :=
  FixedBytes.filled 20 0xaa

/-- The holder is touched in blocks 1 to 3 and holds 5, 0, 7 and 0. -/
def chain : Chain :=
  Chain.sketch (fun b => if b ∈ [1, 2, 3] then [holder] else [])
    (fun a b => if a = holder then [5, 0, 7].getD b 0 else 0) (fun _ => 0)

/-- One block to a chunk. -/
def config : FollowConfig :=
  ⟨1, 600, .finalized, 64, .wrapping⟩

def start : Process :=
  Process.launched ⟨AList.singleton holder ⟨5, 0, 0, 0⟩, 0⟩

def finish : Process :=
  ((syncInto config 1 3).exec (chain.respond 3 3) () start).1.2

theorem balance_lt (token a : Address) (b : ℕ) :
    chain.balance token a b < 2 ^ 256 := by
  apply Chain.sketch_balance_lt
  intro a b
  split
  · match b with
    | 0 | 1 | 2 => decide
    | b + 3 => exact Nat.succ_pos 7
  · decide

theorem finish_ok :
    ((syncInto config 1 3).exec (chain.respond 3 3) () start).1.1 = .ok () := by
  decide +kernel

theorem runs :
    (syncInto config 1 3).Runs (Environment.of (chain.Says 3)) () start ()
      (.ok ()) finish :=
  chain.runs_exec (syncInto config 1 3) start balance_lt finish_ok

theorem syncInto_overlay_changed_drained :
    (∀ a, overlay start.map.get finish.changed a = finish.map.get a) ↔
      ∀ a, ¬ (start.map.get a ≠ none ∧
        drainedAgain (readingsOf a (appliedSince start finish)) = true) :=
  syncInto_overlay_changed_iff runs

/-- The holder is gone from the map, and the change set does not say so. -/
theorem syncInto_loses_drained_holder :
    (syncInto config 1 3).Runs (Environment.of (chain.Says 3)) () start ()
        (.ok ()) finish ∧
      ¬ ∀ a, overlay start.map.get finish.changed a = finish.map.get a := by
  have hlost : overlay start.map.get finish.changed holder ≠
      finish.map.get holder := by
    decide +kernel
  exact ⟨runs, fun hall => hlost (hall holder)⟩

end DrainRefundDrain

end UsdtPir
