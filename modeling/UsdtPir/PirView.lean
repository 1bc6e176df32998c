import UsdtPir.ChangeSet

/-!
# What the PIR thread is told

The PIR view is the initial snapshot overlaid with every batch sent so far.  A
pass sends the change set of its sync and nothing else: what the repair before
the sync changed, and what an earlier pass changed before it failed, is not in
it.  For every address the results say exactly when the view agrees with the
map after a pass that returned `Ok`.
-/

namespace UsdtPir

open Interaction
open Program

/-- A zero entry means absent. -/
def present (e : Entry) : Option Entry :=
  if e.isZero then none else some e

def viewAfter (view : Address → Option Entry) (batch : UpdateBatch) :
    Address → Option Entry :=
  batch.foldl (fun view row => Function.update view row.1 (present row.2)) view

/-- The initial snapshot overlaid in order with all batches sent. -/
def pirView (initial : Address → Option Entry) (sent : List UpdateBatch) :
    Address → Option Entry :=
  sent.foldl viewAfter initial

/-- What is held for an address after one reading. -/
def applyEntry (held : Option Entry) (x : Reading × Touch) : Option Entry :=
  if x.1.isZero then none
  else some (held.elim (freshEntry x.1 x.2) fun e => mergeEntry e x.1 x.2)

/-- The readings the repair of a pass applied, and those of its sync. -/
def repairsSince (s s' : Process) : List Application :=
  (appliedSince s s').filter fun x => x.byRepair

def syncsSince (s s' : Process) : List Application :=
  (appliedSince s s').filter fun x => !x.byRepair

/-- The entry of an address once the repair of the pass is done. -/
def entryAfterRepair (s s' : Process) (a : Address) : Option Entry :=
  (readingsOf a (repairsSince s s')).foldl applyEntry (s.map.get a)

/-- The readings of the sync make the pass report the address, starting from
the entry `held`, or bring it back to what the view has. -/
def reported (view held : Option Entry) (readings : List (Reading × Touch)) :
    Bool :=
  entryRules.recorded held readings || view == entryRules.rest held readings

/-! ## Batches and views -/

theorem overlay_apply (view : Address → Option Entry)
    (changes : HashMap Address Entry) (a : Address) :
    overlay view changes a = (changes.lookup a).elim (view a) present := by
  unfold overlay Journal.Rules.overlay
  cases changes.lookup a <;> rfl

theorem viewAfter_eq_overlay {changes : HashMap Address Entry}
    {batch : UpdateBatch} (h : Listing changes batch)
    (view : Address → Option Entry) :
    viewAfter view batch = overlay view changes := by
  have hfold : ∀ (batch : UpdateBatch) (view : Address → Option Entry)
      (a : Address), (batch.map Prod.fst).Nodup →
      (∀ e, (a, e) ∈ batch → viewAfter view batch a = present e) ∧
        (a ∉ batch.map Prod.fst → viewAfter view batch a = view a) := by
    intro batch
    induction batch with
    | nil => simp [viewAfter]
    | cons row rest ih =>
        intro view a hnodup
        rw [List.map_cons, List.nodup_cons] at hnodup
        obtain ⟨hin, hout⟩ :=
          ih (Function.update view row.1 (present row.2)) a hnodup.2
        constructor
        · intro e he
          rcases List.mem_cons.mp he with rfl | he
          · have hlast := hout hnodup.1
            rw [Function.update_self] at hlast
            exact hlast
          · exact hin e he
        · intro hnot
          rw [List.map_cons, List.mem_cons, not_or] at hnot
          have hlast := hout hnot.2
          rw [Function.update_of_ne hnot.1] at hlast
          exact hlast
  funext a
  obtain ⟨hin, hout⟩ := hfold batch view a h.nodup
  rw [overlay_apply]
  cases hlookup : changes.lookup a with
  | some e => exact hin e ((h.mem_iff a e).mpr hlookup)
  | none =>
      refine hout fun hmem => ?_
      rw [h.mem_keys, ← AList.lookup_isSome, hlookup] at hmem
      cases hmem

theorem Published.pirView_eq {s : Process} {sent : List UpdateBatch}
    (h : Published true s sent) (initial : Address → Option Entry) :
    pirView initial sent = overlay (pirView initial s.sent) s.changed := by
  rcases h with ⟨hnothing, rfl⟩ | ⟨-, batch, hbatch, rfl⟩
  · have hempty : s.changed.keys = [] := by simpa using hnothing
    funext a
    have hnone : s.changed.lookup a = none := by
      rw [AList.lookup_eq_none, AList.mem_keys, hempty]
      simp
    rw [overlay_apply, hnone]
    rfl
  · rw [← viewAfter_eq_overlay hbatch]
    simp [pirView]

/-! ## The readings of a pass -/

theorem BalanceMap.apply_get_self {map map' : BalanceMap} {addr : Address}
    {r : Reading} {seen : Touch} {applied : Applied}
    (h : map.apply addr r seen = some (applied, map')) :
    map'.get addr = applyEntry (map.get addr) (r, seen) := by
  rcases BalanceMap.apply_cases h with ⟨e, hget, hzero, -, rfl⟩ |
    ⟨e, hget, hzero, -, rfl⟩ | ⟨hget, hzero, -, rfl⟩ | ⟨hget, hzero, -, rfl⟩
  · simp [applyEntry, hzero, BalanceMap.get]
  · simp [applyEntry, hzero, hget]
    exact AList.lookup_insert _
  · simp [applyEntry, hzero, hget]
  · simp [applyEntry, hzero, hget]
    exact AList.lookup_insert _

theorem applyCorrections_get {rows : List (Address × Reading)}
    {map map' : BalanceMap} (h : applyCorrections rows map = some map')
    (a : Address) :
    map'.get a =
      (readingsOf a (rows.map repairApplication)).foldl applyEntry
        (map.get a) := by
  induction rows generalizing map with
  | nil =>
      simp only [applyCorrections, Option.some.injEq] at h
      subst h
      rfl
  | cons row rest ih =>
      obtain ⟨addr, reading⟩ := row
      simp only [applyCorrections, Option.bind_eq_bind,
        Option.bind_eq_some_iff, Prod.exists] at h
      obtain ⟨applied, middle, happly, hrest⟩ := h
      rw [ih hrest]
      by_cases ha : a = addr
      · subst ha
        rw [BalanceMap.apply_get_self happly]
        simp [readingsOf, repairApplication]
      · rw [BalanceMap.apply_get_ne happly ha]
        have hne : ¬ addr = a := fun heq => ha heq.symm
        simp [readingsOf, repairApplication, hne]

/-- What a pass did up to the start of its sync: only repairs were applied,
and nothing was sent. -/
structure Corrected (s s₁ : Process) (repairs : List Application) : Prop where
  history : s₁.history = s.history ++ repairs
  byRepair : ∀ x ∈ repairs, x.byRepair = true
  get : ∀ a, s₁.map.get a =
    (readingsOf a repairs).foldl applyEntry (s.map.get a)
  sent : s₁.sent = s.sent

section Passes

variable {truth : (q : Request) → Answer q → Prop} {cfg : FollowConfig}
    {s s₁ s' : Process}

theorem Corrected.refl (s : Process) : Corrected s s [] :=
  ⟨(List.append_nil _).symm, by simp, fun _ => rfl, rfl⟩

theorem RepairStep.corrected (h : RepairStep truth cfg s s₁) :
    ∃ repairs, Corrected s s₁ repairs := by
  cases h with
  | final => exact ⟨[], Corrected.refl s⟩
  | unknown => exact ⟨[], Corrected.refl s⟩
  | same => exact ⟨[], Corrected.refl s⟩
  | repaired _ _ _ _ hrepaired =>
      obtain ⟨rows, map, -, -, -, hmap, rfl⟩ := hrepaired
      refine ⟨rows.map repairApplication, rfl, ?_, ?_, rfl⟩
      · intro x hx
        obtain ⟨row, -, rfl⟩ := List.mem_map.mp hx
        rfl
      · intro a
        exact applyCorrections_get hmap a

theorem filter_eq_nil_of_forall {p : Application → Bool}
    {history : List Application} (h : ∀ x ∈ history, p x = false) :
    history.filter p = [] := by
  rw [List.filter_eq_nil_iff]
  intro x hx
  simp [h x hx]

/-- The history of a pass splits into its repairs and its sync. -/
theorem since_eq {repairs new : List Application}
    (hhistory : s'.history = s.history ++ (repairs ++ new))
    (hrepairs : ∀ x ∈ repairs, x.byRepair = true)
    (hnew : ∀ x ∈ new, x.byRepair = false) :
    repairsSince s s' = repairs ∧ syncsSince s s' = new := by
  have hsince : appliedSince s s' = repairs ++ new := by
    rw [appliedSince, hhistory, List.drop_left]
  constructor
  · rw [repairsSince, hsince, List.filter_append,
      List.filter_eq_self.mpr hrepairs, filter_eq_nil_of_forall hnew,
      List.append_nil]
  · have hnot : ∀ x ∈ repairs, (!x.byRepair) = false := by
      intro x hx
      rw [hrepairs x hx]
      rfl
    have hall : ∀ x ∈ new, (!x.byRepair) = true := by
      intro x hx
      rw [hnew x hx]
      rfl
    rw [syncsSince, hsince, List.filter_append, filter_eq_nil_of_forall hnot,
      List.filter_eq_self.mpr hall, List.nil_append]

/-- After a pass that returned `Ok` the view agrees with the map at an address
exactly when the readings of the sync report it. -/
theorem PassOk.view_eq_iff {stages : Stages}
    (h : PassOk stages cfg true s s')
    (initial : Address → Option Entry) (a : Address) :
    pirView initial s'.sent a = s'.map.get a ↔
      reported (pirView initial s.sent a) (entryAfterRepair s s' a)
        (readingsOf a (syncsSince s s')) = true := by
  obtain @⟨s₁, target, hrepair, -, hadvanced⟩ := h
  obtain ⟨repairs, hcorrected⟩ := hrepair.corrected
  cases hadvanced with
  | idle _ =>
      have hhistory : s'.history = s.history ++ (repairs ++ []) := by
        rw [hcorrected.history, List.append_nil]
      obtain ⟨hrepairs, hsyncs⟩ :=
        since_eq hhistory hcorrected.byRepair (by simp)
      rw [entryAfterRepair, hrepairs, hsyncs, hcorrected.get, hcorrected.sent]
      generalize (readingsOf a repairs).foldl applyEntry (s.map.get a) = held
      have hrecorded : entryRules.recorded held [] = false := by
        cases held <;> rfl
      simp [reported, readingsOf, hrecorded, Journal.Rules.rest]
  | @synced s₂ s₃ _ lo' _ hstart hchunks _ _ hpublished hstate =>
      obtain ⟨progress, hs₂⟩ := hstart
      obtain ⟨new, hnew⟩ := hchunks.journaled
      rw [hs₂] at hnew
      have hmap : s'.map = s₃.map := by
        rw [hstate]
        exact congrArg Prod.snd hnew.pruned_eq
      have hsent : s₃.sent = s.sent := by
        rw [hchunks.sameOutside.sent, hs₂]
        exact hcorrected.sent
      have hhistory : s'.history = s.history ++ (repairs ++ new) := by
        rw [hstate]
        show s₃.history = _
        rw [hnew.history]
        show s₁.history ++ new = _
        rw [hcorrected.history, List.append_assoc]
      obtain ⟨hrepairs, hsyncs⟩ :=
        since_eq hhistory hcorrected.byRepair hnew.bySync
      have hview : pirView initial s'.sent =
          overlay (pirView initial s.sent) s₃.changed := by
        rw [hpublished.pirView_eq initial]
        show overlay (pirView initial s₃.sent) s₃.changed = _
        rw [hsent]
      have hexact := hnew.overlay_eq_iff (pirView initial s.sent) a
      rw [hview, hmap, hexact, entryAfterRepair, hrepairs, hsyncs,
        ← hcorrected.get]
      simp [reported]

end Passes

end UsdtPir
