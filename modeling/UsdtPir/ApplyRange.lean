import UsdtPir.BalanceReads
import UsdtPir.Observation
import UsdtPir.TouchStamps

/-!
# Folding one range of logs into the map

The touched addresses of a range are read at its last block and applied one by
one.  Besides the map, two side structures are kept: the addresses inserted by
the running sync, and for every changed address the entry the PIR thread is to
be told.
-/

namespace UsdtPir

open Interaction
open Program

structure ApplyOutputs where
  inserted : HashSet Address
  changedOut : HashMap Address Entry
  stats : BatchStats

def recordInserted (addr : Address) (out : ApplyOutputs) : ApplyOutputs :=
  { inserted := out.inserted.insert addr ()
    changedOut := out.changedOut.insert addr default
    stats := { out.stats with inserted := out.stats.inserted + 1 } }

def recordUpdated (addr : Address) (out : ApplyOutputs) : ApplyOutputs :=
  { out with
    changedOut := out.changedOut.insert addr default
    stats := { out.stats with updated := out.stats.updated + 1 } }

def recordRemoved (addr : Address) (entry : Entry) (out : ApplyOutputs) :
    ApplyOutputs :=
  let stats := { out.stats with removed := out.stats.removed + 1 }
  if addr ∈ out.inserted then
    { inserted := out.inserted.erase addr
      changedOut := out.changedOut.erase addr
      stats := stats }
  else
    { out with changedOut := out.changedOut.insert addr entry, stats := stats }

def recordApplyResult (applied : Applied) (addr : Address)
    (out : ApplyOutputs) : ApplyOutputs :=
  match applied with
  | .inserted => recordInserted addr out
  | .updated => recordUpdated addr out
  | .removed entry => recordRemoved addr entry out
  | .unchanged => { out with
      stats := { out.stats with unchanged := out.stats.unchanged + 1 } }
  | .skippedNewZero => { out with
      stats := { out.stats with
        skippedNewZero := out.stats.skippedNewZero + 1 } }

def recordCurrentEntry (map : BalanceMap) (addr : Address)
    (changed : HashMap Address Entry) : HashMap Address Entry :=
  match map.get addr with
  | some entry => if addr ∈ changed then changed.insert addr entry else changed
  | none => changed

/-- The body of the loop of `apply_touched`. -/
def applyReading (touched : HashMap Address Touch)
    (acc : BalanceMap × ApplyOutputs) (row : Address × Reading) :
    Option (BalanceMap × ApplyOutputs) := do
  let seen := (touched.lookup row.1).getD default
  let (applied, map) ← acc.1.apply row.1 row.2 seen
  let out := recordApplyResult applied row.1 acc.2
  some (map, { out with
    changedOut := recordCurrentEntry map row.1 out.changedOut })

def applyReadings (touched : HashMap Address Touch) :
    List (Address × Reading) → BalanceMap × ApplyOutputs →
      Option (BalanceMap × ApplyOutputs)
  | [], acc => some acc
  | row :: rest, acc => do
      let acc ← applyReading touched acc row
      applyReadings touched rest acc

def outgrewU32 : Failure :=
  .panic "block number outgrew u32 after ~1,630 years"

def syncApplication (touched : HashMap Address Touch)
    (row : Address × Reading) : Application :=
  ⟨row.1, row.2, (touched.lookup row.1).getD default, false⟩

/-- Read the touched addresses at block `at_` and fold the readings into the
map.  A panic inside the loop ends the process; what it had folded by then is
lost with it. -/
def applyTouched (at_ : ℕ) (touched : HashMap Address Touch)
    (stats : BatchStats) : Sync (BatchStats × List Address) := do
  let addrs ← Ask.order touched.keys
  let readings ← readBalances addrs.val at_
  let rows ← iterate readings
  let s ← Program.get
  match applyReadings touched rows (s.map, ⟨s.inserted, s.changed, stats⟩) with
  | none => .throw outgrewU32
  | some (map, out) => do
      Program.modify fun s => { s with
        map := map
        inserted := out.inserted
        changed := out.changedOut
        history := s.history ++ rows.map (syncApplication touched) }
      pure (out.stats, addrs.val)

def addUsdtOwnerTouches (touched : HashMap Address Touch) :
    List ℕ → Sync (HashMap Address Touch)
  | [] => pure touched
  | block :: rest => do
      let owner ← usdtOwner block
      addUsdtOwnerTouches
        (touched.insert owner
          (((touched.lookup owner).getD default).see USDT (some block)))
        rest

def collectAddresses (logs : List Log) : Sync (HashMap Address Touch) :=
  let p := collectTouched logs ∅
  addUsdtOwnerTouches p.out p.collected.usdtSupplyBlocks

/-- `apply_range`, returning the batch statistics and `touched_out`. -/
def applyRange (logs : List Log) (at_ : ℕ) :
    Sync (BatchStats × List Address) := do
  let touched ← collectAddresses logs
  let stats : BatchStats := { (default : BatchStats) with
    logs := logs.length
    touched := touched.keys.length }
  if touched.keys = [] then
    pure (stats, [])
  else
    applyTouched at_ touched stats

/-! ## What a successful range does -/

/-- The provider named `a` the owner in a supply block of these logs. -/
def OwnerAnswered (truth : (q : Request) → Answer q → Prop)
    (logs : List Log) (a : Address) : Prop :=
  ∃ log ∈ logs, ∃ block, isSupplyEvent log = true ∧
    log.blockNumber = some block ∧
    truth (.owner USDT block) (Except.ok a : Except RpcError Address)

/-- The touched addresses are those the logs name and the owners asked for,
one for every supply block; each comes with the blocks it was last seen in. -/
structure Collects (truth : (q : Request) → Answer q → Prop)
    (logs : List Log) (touched : HashMap Address Touch) : Prop where
  named : ∀ log ∈ logs, ∀ a ∈ namedBy log, a ∈ touched
  owners : ∀ log ∈ logs, isSupplyEvent log = true →
    ∀ block, log.blockNumber = some block →
      ∃ a ∈ touched,
        truth (.owner USDT block) (Except.ok a : Except RpcError Address)
  only : ∀ a ∈ touched,
    (∃ log ∈ logs, a ∈ namedBy log) ∨ OwnerAnswered truth logs a
  stamps : ∃ owner : ℕ → Address,
    (∀ log ∈ logs, isSupplyEvent log = true →
      ∀ block, log.blockNumber = some block →
        truth (.owner USDT block)
          (Except.ok (owner block) : Except RpcError Address)) ∧
    LastSeen (Sees logs owner) touched

/-- A successful `apply_range`: which readings were folded, and what the state
is afterwards. -/
structure RangeApplied (truth : (q : Request) → Answer q → Prop)
    (logs : List Log) (at_ : ℕ) (s s' : Process) (stats : BatchStats)
    (addrs : List Address) (touched : HashMap Address Touch)
    (rows : List (Address × Reading)) : Prop where
  collects : Collects truth logs touched
  order : addrs.Perm touched.keys
  keys : ∀ a, a ∈ rows.map Prod.fst ↔ a ∈ touched
  nodup : (rows.map Prod.fst).Nodup
  answered : ∀ a r, (a, r) ∈ rows → Answered truth at_ a r
  applied : ∃ out : ApplyOutputs,
    applyReadings touched rows
        (s.map, ⟨s.inserted, s.changed,
          { (default : BatchStats) with
            logs := logs.length, touched := touched.keys.length }⟩) =
        some (s'.map, out) ∧
      stats = out.stats ∧
      s' = { s with
        map := s'.map
        inserted := out.inserted
        changed := out.changedOut
        history := s.history ++ rows.map (syncApplication touched) }

/-- What a failed step leaves alone when nothing was folded. -/
def FailsUntouched (s : Process) (failure : Failure) (s' : Process) : Prop :=
  s' = s ∧ failure ≠ .killed

section Rules

variable {ω : Type} {env : Environment Request Answer ω} {world : ω}
    {s : Process} {truth : (q : Request) → Answer q → Prop}

theorem Untouched.failsUntouched {failure : Failure} {s' : Process}
    (h : Untouched s failure s') : FailsUntouched s failure s' := by
  obtain ⟨rfl, chain, rfl⟩ := h
  exact ⟨rfl, by simp⟩

theorem meets_addUsdtOwnerTouches (hkeeps : env.Keeps truth)
    {touched : HashMap Address Touch} {blocks : List ℕ} :
    Meets env (addUsdtOwnerTouches touched blocks) world s
      (fun _ touched' s' => s' = s ∧
        (∀ a ∈ touched, a ∈ touched') ∧
        (∀ block ∈ blocks, ∃ a ∈ touched',
          truth (.owner USDT block)
            (Except.ok a : Except RpcError Address)) ∧
        ∀ a ∈ touched', a ∈ touched ∨ ∃ block ∈ blocks,
          truth (.owner USDT block)
            (Except.ok a : Except RpcError Address))
      (fun _ failure s' => Untouched s failure s') := by
  induction blocks generalizing touched world with
  | nil => simp [addUsdtOwnerTouches]
  | cons block rest ih =>
      simp only [addUsdtOwnerTouches, meets_bind]
      refine meets_mono (meets_usdtOwner hkeeps) ?_ (fun _ _ _ h => h)
      rintro middle owner s₁ ⟨rfl, howner⟩
      refine meets_mono ih ?_ (fun _ _ _ h => h)
      rintro final touched' s' ⟨rfl, hkept, hblocks, honly⟩
      refine ⟨rfl, fun a ha => hkept a ?_, fun b hb => ?_, fun a ha => ?_⟩
      · exact (AList.mem_insert _).mpr (.inr ha)
      · rcases List.mem_cons.mp hb with rfl | hb
        · exact ⟨owner, hkept owner ((AList.mem_insert _).mpr (.inl rfl)),
            howner⟩
        · exact hblocks b hb
      · rcases honly a ha with hold | ⟨b, hb, hanswer⟩
        · rcases (AList.mem_insert _).mp hold with rfl | hold
          · exact .inr ⟨block, List.mem_cons_self, howner⟩
          · exact .inl hold
        · exact .inr ⟨b, List.mem_cons_of_mem _ hb, hanswer⟩

/-- One owner is asked for in every block, and seen there. -/
theorem meets_addUsdtOwnerTouches_seen (hkeeps : env.Keeps truth)
    {sees : Sightings} {touched : HashMap Address Touch} {blocks : List ℕ}
    (hseen : LastSeen sees touched) (hnodup : blocks.Nodup) :
    Meets env (addUsdtOwnerTouches touched blocks) world s
      (fun _ touched' _ => ∃ owner : ℕ → Address,
        (∀ block ∈ blocks, truth (.owner USDT block)
          (Except.ok (owner block) : Except RpcError Address)) ∧
        LastSeen (fun a token b => sees a token b ∨
          token = USDT ∧ a = owner b ∧ b ∈ blocks) touched')
      (fun _ _ _ => True) := by
  induction blocks generalizing sees touched world s with
  | nil =>
      simp only [addUsdtOwnerTouches, meets_pure]
      refine ⟨fun _ => Address.zero, by simp, hseen.congr ?_⟩
      simp
  | cons block rest ih =>
      rw [List.nodup_cons] at hnodup
      simp only [addUsdtOwnerTouches, meets_bind]
      refine meets_mono (meets_usdtOwner hkeeps) ?_ (fun _ _ _ _ => trivial)
      rintro middle first s₁ ⟨-, hfirst⟩
      have hnext := hseen.see first USDT (some block)
      refine meets_mono (ih hnext hnodup.2) ?_ (fun _ _ _ h => h)
      rintro final touched' s' ⟨owner, howner, hlast⟩
      have hother : ∀ b ∈ rest, Function.update owner block first b = owner b := by
        intro b hb
        apply Function.update_of_ne
        rintro rfl
        exact hnodup.1 hb
      refine ⟨Function.update owner block first, ?_, ?_⟩
      · intro b hb
        rcases List.mem_cons.mp hb with rfl | hb
        · rw [Function.update_self]
          exact hfirst
        · rw [hother b hb]
          exact howner b hb
      · apply hlast.congr
        intro a token b
        simp only [Sightings.add, List.mem_cons, Option.some.injEq]
        constructor
        · rintro ((hold | ⟨rfl, rfl, rfl⟩) | ⟨rfl, rfl, hb⟩)
          · exact .inl hold
          · exact .inr ⟨rfl, by rw [Function.update_self], .inl rfl⟩
          · exact .inr ⟨rfl, (hother b hb).symm, .inr hb⟩
        · rintro (hold | ⟨rfl, ha, rfl | hb⟩)
          · exact .inl (.inl hold)
          · rw [Function.update_self] at ha
            exact .inl (.inr ⟨ha, rfl, rfl⟩)
          · rw [hother b hb] at ha
            exact .inr ⟨rfl, ha, hb⟩

theorem meets_collectAddresses (hkeeps : env.Keeps truth) {logs : List Log} :
    Meets env (collectAddresses logs) world s
      (fun _ touched s' => s' = s ∧ Collects truth logs touched)
      (fun _ failure s' => Untouched s failure s') := by
  unfold collectAddresses
  refine meets_mono ((meets_addUsdtOwnerTouches hkeeps).and
    (meets_addUsdtOwnerTouches_seen hkeeps (lastSeen_collectTouched logs)
      (nodup_usdtSupplyBlocks logs ∅))) ?_ (fun _ _ _ h => h.1)
  rintro final touched s' ⟨⟨rfl, hkept, hblocks, honly⟩, owner, howner, hlast⟩
  refine ⟨rfl, fun log hlog a ha => ?_, fun log hlog hsupply block hblock => ?_,
    fun a ha => ?_, owner, fun log hlog hsupply block hblock => ?_, ?_⟩
  · exact hkept a (mem_collectTouched_out.mpr (.inl ⟨log, hlog, ha⟩))
  · exact hblocks block
      (mem_collectTouched_usdtSupplyBlocks.mpr ⟨log, hlog, hsupply, hblock⟩)
  · rcases honly a ha with hnamed | ⟨block, hblock, hanswer⟩
    · rcases mem_collectTouched_out.mp hnamed with hnamed | hempty
      · exact .inl hnamed
      · exact absurd hempty (AList.notMem_empty a)
    · obtain ⟨log, hlog, hsupply, hnumber⟩ :=
        mem_collectTouched_usdtSupplyBlocks.mp hblock
      exact .inr ⟨log, hlog, block, hsupply, hnumber, hanswer⟩
  · exact howner block
      (mem_collectTouched_usdtSupplyBlocks.mpr ⟨log, hlog, hsupply, hblock⟩)
  · apply hlast.congr
    intro a token b
    rw [mem_collectTouched_usdtSupplyBlocks]
    exact Iff.rfl

/-- `apply_range` folds the whole range or changes nothing. -/
theorem meets_applyRange (hkeeps : env.Keeps truth) {logs : List Log}
    {at_ : ℕ} :
    Meets env (applyRange logs at_) world s
      (fun _ result s' => ∃ touched rows,
        RangeApplied truth logs at_ s s' result.1 result.2 touched rows)
      (fun _ failure s' => FailsUntouched s failure s') := by
  unfold applyRange
  simp only [meets_bind]
  refine meets_mono (meets_collectAddresses hkeeps) ?_
    (fun _ _ _ h => h.failsUntouched)
  rintro middle touched s₁ ⟨rfl, hcollects⟩
  by_cases hempty : touched.keys = []
  · rw [if_pos hempty, meets_pure]
    refine ⟨touched, [], hcollects, by simp [hempty], fun a => ?_, by simp,
      by simp, ⟨s₁.inserted, s₁.changed, _⟩, rfl, rfl, by simp⟩
    simp [AList.mem_keys, hempty]
  · rw [if_neg hempty]
    simp only [applyTouched, meets_bind, meets_order]
    rintro ⟨addrs, hperm⟩ after hanswer
    refine meets_mono (meets_readBalances hkeeps) ?_
      (fun _ _ _ h => h.failsUntouched)
    rintro after' readings s₂ ⟨rfl, hkeys, htrue⟩
    refine meets_iterate fun order _ after'' _ rows hrows => ?_
    simp only [meets_get]
    have hmem : ∀ a, a ∈ rows.map Prod.fst ↔ a ∈ touched := by
      intro a
      rw [hrows.mem_keys, hkeys, hperm.mem_iff, AList.mem_keys]
    have hanswered : ∀ a r, (a, r) ∈ rows → Answered truth at_ a r :=
      fun a r hrow => htrue a r ((hrows.mem_iff a r).mp hrow)
    split
    · rw [meets_throw]
      exact ⟨rfl, by simp [outgrewU32]⟩
    · rename_i map out happlied
      simp only [meets_bind, meets_modify, meets_pure]
      exact ⟨touched, rows, hcollects, hperm, hmem, hrows.nodup, hanswered,
        out, happlied, rfl, rfl⟩

end Rules

/-! ## The map after a range -/

theorem applyReading_eq_some {touched : HashMap Address Touch}
    {acc acc' : BalanceMap × ApplyOutputs} {row : Address × Reading}
    (h : applyReading touched acc row = some acc') :
    ∃ applied,
      acc.1.apply row.1 row.2 ((touched.lookup row.1).getD default) =
        some (applied, acc'.1) ∧
      acc'.2 =
        { recordApplyResult applied row.1 acc.2 with
          changedOut := recordCurrentEntry acc'.1 row.1
            (recordApplyResult applied row.1 acc.2).changedOut } := by
  simp only [applyReading, Option.bind_eq_bind, Option.bind_eq_some_iff,
    Prod.exists] at h
  obtain ⟨applied, map, happly, h⟩ := h
  cases h
  exact ⟨applied, happly, rfl⟩

/-- A range applies to every address what was read for it, once, and to the
others nothing. -/
theorem applyReadings_get {touched : HashMap Address Touch}
    {rows : List (Address × Reading)} {acc acc' : BalanceMap × ApplyOutputs}
    (h : applyReadings touched rows acc = some acc')
    (hnodup : (rows.map Prod.fst).Nodup) (a : Address) :
    (∀ r, (a, r) ∈ rows → ∃ (map map' : BalanceMap) (applied : Applied),
      map.get a = acc.1.get a ∧
        map.apply a r ((touched.lookup a).getD default) =
          some (applied, map') ∧
        acc'.1.get a = map'.get a) ∧
      (a ∉ rows.map Prod.fst → acc'.1.get a = acc.1.get a) := by
  induction rows generalizing acc with
  | nil =>
      simp only [applyReadings, Option.some.injEq] at h
      subst h
      simp
  | cons row rest ih =>
      simp only [applyReadings, Option.bind_eq_bind,
        Option.bind_eq_some_iff] at h
      obtain ⟨middle, hrow, hrest⟩ := h
      obtain ⟨applied, happly, -⟩ := applyReading_eq_some hrow
      rw [List.map_cons, List.nodup_cons] at hnodup
      obtain ⟨hin, hout⟩ := ih hrest hnodup.2
      constructor
      · intro r hr
        rcases List.mem_cons.mp hr with rfl | hr
        · exact ⟨acc.1, middle.1, applied, rfl, happly, hout hnodup.1⟩
        · have hne : a ≠ row.1 :=
            ne_of_mem_of_not_mem (List.mem_map.mpr ⟨(a, r), hr, rfl⟩) hnodup.1
          rw [← BalanceMap.apply_get_ne happly hne]
          exact hin r hr
      · intro hnot
        rw [List.map_cons, List.mem_cons, not_or] at hnot
        rw [hout hnot.2, BalanceMap.apply_get_ne happly hnot.1]

/-- After a range every address read holds what was read for it, and the
others are as before. -/
theorem applyReadings_holding {touched : HashMap Address Touch}
    {rows : List (Address × Reading)} {acc acc' : BalanceMap × ApplyOutputs}
    (h : applyReadings touched rows acc = some acc')
    (hnodup : (rows.map Prod.fst).Nodup) (a : Address) :
    (∀ r, (a, r) ∈ rows → acc'.1.holding a = r.kept) ∧
      (a ∉ rows.map Prod.fst → acc'.1.holding a = acc.1.holding a) := by
  obtain ⟨hin, hout⟩ := applyReadings_get h hnodup a
  constructor
  · intro r hr
    obtain ⟨map, map', applied, -, happly, hget⟩ := hin r hr
    have hholding := BalanceMap.apply_holding happly a
    rw [if_pos rfl] at hholding
    rw [← hholding, BalanceMap.holding, hget]
    rfl
  · intro hnot
    rw [BalanceMap.holding, hout hnot]
    rfl

end UsdtPir
