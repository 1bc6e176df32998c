import UsdtPir.FollowLoop

/-!
# What a pass can do

Every way a pass can end, as relations between the state before and the state
after: the repair it starts with, a pass with nothing to sync, a pass that
synced to its target, and the places where one can fail.  Results about runs
of the loop use these and never the code of the pass.
-/

namespace UsdtPir

open Interaction
open Program

/-- The remembered addresses were read at the start of the window, the
readings folded into the map, and the cursor moved back there. -/
def Repaired (truth : (q : Request) → Answer q → Prop) (window : ℕ)
    (s s' : Process) : Prop :=
  ∃ rows map,
    (∀ a, a ∈ rows.map Prod.fst ↔ a ∈ s.watch.addressSet) ∧
      (rows.map Prod.fst).Nodup ∧
      (∀ a r, (a, r) ∈ rows →
        Answered truth (s.map.cursor - window) a r) ∧
      applyCorrections rows s.map = some map ∧
      s' = { s with
        map := { map with cursor := s.map.cursor - window }
        watch := default
        history := s.history ++ rows.map repairApplication }

/-- The four ways the reorg check can come out. -/
inductive RepairStep (truth : (q : Request) → Answer q → Prop)
    (cfg : FollowConfig) (s : Process) : Process → Prop
  | final (htip : cfg.tip.isReorgable = false) : RepairStep truth cfg s s
  | unknown (htip : cfg.tip.isReorgable = true)
      (hhash : s.watch.cursorHash = none) : RepairStep truth cfg s s
  | same {block : Block} (htip : cfg.tip.isReorgable = true)
      (hhash : s.watch.cursorHash = some block.hash)
      (hanswer : truth (.blockByNumber s.map.cursor)
        (Except.ok (some block) : Except RpcError (Option Block))) :
      RepairStep truth cfg s s
  | repaired {known : B256} {block : Option Block} {s' : Process}
      (htip : cfg.tip.isReorgable = true)
      (hhash : s.watch.cursorHash = some known)
      (hanswer : truth (.blockByNumber s.map.cursor)
        (Except.ok block : Except RpcError (Option Block)))
      (hne : block.map Block.hash ≠ some known)
      (hrepaired : Repaired truth cfg.reorgWindow s s') :
      RepairStep truth cfg s s'

/-- The state in which a pass starts its chunks: progress recorded, totals
set, and the change set of the pass before dropped. -/
def SyncStarted (cfg : FollowConfig) (target : ℕ) (s s' : Process) : Prop :=
  ∃ progress, s' = Process.startSync { s with
    progress := progress
    totals := startTotals cfg (s.map.cursor + 1) target }

/-- The watch as `finish_pass` leaves it. -/
def WatchStored (truth : (q : Request) → Answer q → Prop)
    (cfg : FollowConfig) (s : Process) (watch : ChainWatch) : Prop :=
  (cfg.tip.isReorgable = false ∧ watch = s.watch) ∨
    (cfg.tip.isReorgable = true ∧ ∃ block : Option Block,
      truth (.blockByNumber s.map.cursor)
          (Except.ok block : Except RpcError (Option Block)) ∧
        watch = ChainWatch.trim
          { s.watch with cursorHash := block.map Block.hash }
          s.map.cursor cfg.reorgWindow)

/-- The batch of a pass: nothing without a channel or a change, else every
changed entry. -/
def Published (updates : Bool) (s : Process) (sent : List UpdateBatch) :
    Prop :=
  ((updates = false ∨ s.changed.keys = []) ∧ sent = s.sent) ∨
    (updates = true ∧ ∃ batch, Listing s.changed batch ∧
      sent = s.sent ++ [batch])

/-- The way from the repair to the end of a pass that returned `Ok`, for a
resolved target: nothing to do, or a sync up to the target. -/
inductive Advanced (scan store : (q : Request) → Answer q → Prop)
    (cfg : FollowConfig) (updates : Bool) (target : ℕ) (s : Process) :
    Process → Prop
  | idle (hle : target ≤ s.map.cursor) :
      Advanced scan store cfg updates target s s
  | synced {s₁ s₂ s' : Process} {lo' : ℕ}
      (hlt : s.map.cursor < target)
      (hstart : SyncStarted cfg target s s₁)
      (hchunks : Chunks scan cfg target (s.map.cursor + 1) s₁ lo' s₂)
      (hend : target < lo')
      (hwatch : WatchStored store cfg (s₂.pruned cfg) s'.watch)
      (hpublished : Published updates (s₂.pruned cfg) s'.sent)
      (hstate : s' = { s₂.pruned cfg with
        watch := s'.watch
        lastSnapshot := s'.lastSnapshot
        progress := s'.progress
        saved := some (s₂.pruned cfg).map
        sent := s'.sent }) :
      Advanced scan store cfg updates target s s'

/-- The same way, cut off between two chunks or after the last one. -/
inductive AdvanceFails (scan store : (q : Request) → Answer q → Prop)
    (cfg : FollowConfig) (target : ℕ) (s : Process) : Process → Prop
  | syncing {s₁ s' : Process} {lo' : ℕ}
      (hlt : s.map.cursor < target)
      (hstart : SyncStarted cfg target s s₁)
      (hchunks : Chunks scan cfg target (s.map.cursor + 1) s₁ lo' s') :
      AdvanceFails scan store cfg target s s'
  | finishing {s₁ s₂ s' : Process} {lo' : ℕ}
      (hlt : s.map.cursor < target)
      (hstart : SyncStarted cfg target s s₁)
      (hchunks : Chunks scan cfg target (s.map.cursor + 1) s₁ lo' s₂)
      (hend : target < lo')
      (hwatch : s'.watch = s₂.watch ∨
        WatchStored store cfg (s₂.pruned cfg) s'.watch)
      (hsaved : s'.saved = s₂.saved ∨
        s'.saved = some (s₂.pruned cfg).map)
      (hstate : s' = { s₂.pruned cfg with
        watch := s'.watch
        lastSnapshot := s'.lastSnapshot
        progress := s'.progress
        saved := s'.saved }) :
      AdvanceFails scan store cfg target s s'

/-- What the surroundings answer in the stages of a pass: the hash check and
the repair, the tip, the scan, and the hash that is kept. -/
structure Stages where
  check : (q : Request) → Answer q → Prop
  tip : (q : Request) → Answer q → Prop
  scan : (q : Request) → Answer q → Prop
  store : (q : Request) → Answer q → Prop

/-- A pass that returned `Ok`. -/
inductive PassOk (stages : Stages) (cfg : FollowConfig) (updates : Bool)
    (s s' : Process) : Prop
  | intro {s₁ : Process} {target : ℕ}
      (hrepair : RepairStep stages.check cfg s s₁)
      (htarget : ResolvesTo stages.tip cfg.tip target)
      (hadvanced : Advanced stages.scan stages.store cfg updates target s₁ s')

/-- A pass that did not return `Ok`, by the place where it stopped. -/
inductive PassFails (stages : Stages) (cfg : FollowConfig) (s : Process) :
    Process → Prop
  | checking : PassFails stages cfg s s
  | resolving {s₁ : Process} (hrepair : RepairStep stages.check cfg s s₁) :
      PassFails stages cfg s s₁
  | advancing {s₁ s' : Process} {target : ℕ}
      (hrepair : RepairStep stages.check cfg s s₁)
      (htarget : ResolvesTo stages.tip cfg.tip target)
      (hfails : AdvanceFails stages.scan stages.store cfg target s₁ s') :
      PassFails stages cfg s s'

/-- The stages of a pass between two states of the surroundings. -/
inductive StagedBy {ω : Type} (env : Environment Request Answer ω)
    (between : ω → ω → (q : Request) → Answer q → Prop) (world final : ω) :
    Stages → Prop
  | mk {checked resolved scanned : ω}
      (hcheck : env.Reaches world checked)
      (htip : env.Reaches checked resolved)
      (hscan : env.Reaches resolved scanned)
      (hstore : env.Reaches scanned final) :
      StagedBy env between world final
        ⟨between world checked, fun q answer => env checked q answer resolved,
          between resolved scanned, between scanned final⟩

section Rules

variable {ω : Type} {env : Environment Request Answer ω} {world : ω}
    {s : Process} {truth : (q : Request) → Answer q → Prop}
    {cfg : FollowConfig} {updates : Bool}

theorem meets_correctStaleAddresses (hkeeps : env.Keeps truth)
    {stale : List Address} {rewindTo : ℕ} :
    Meets env (correctStaleAddresses stale rewindTo) world s
      (fun _ _ s' => ∃ rows map,
        (∀ a, a ∈ rows.map Prod.fst ↔ a ∈ stale) ∧
          (rows.map Prod.fst).Nodup ∧
          (∀ a r, (a, r) ∈ rows → Answered truth rewindTo a r) ∧
          applyCorrections rows s.map = some map ∧
          s' = { s with
            map := map
            history := s.history ++ rows.map repairApplication })
      (fun _ _ s' => s' = s) := by
  unfold correctStaleAddresses
  split
  · rename_i hempty
    rw [meets_pure]
    exact ⟨[], s.map, by simp [hempty], by simp, by simp, rfl, by simp⟩
  · simp only [meets_bind]
    refine meets_mono (meets_readBalances hkeeps) ?_
      (fun _ _ _ h => h.1)
    rintro middle readings s₁ ⟨rfl, hkeys, htrue⟩
    refine meets_iterate fun order _ after _ rows hrows => ?_
    simp only [meets_get]
    split
    · rw [meets_throw]
    · rename_i map hmap
      rw [meets_modify]
      refine ⟨rows, map, fun a => ?_, hrows.nodup, fun a r hrow => ?_, hmap,
        rfl⟩
      · rw [hrows.mem_keys, hkeys]
      · exact htrue a r ((hrows.mem_iff a r).mp hrow)

theorem meets_repair (hkeeps : env.Keeps truth) {window : ℕ} :
    Meets env (repair window) world s
      (fun _ _ s' => Repaired truth window s s')
      (fun _ _ s' => s' = s) := by
  simp only [repair, meets_bind, meets_get, meets_order]
  rintro ⟨stale, hperm⟩ after _
  refine meets_mono (meets_correctStaleAddresses hkeeps) ?_
    (fun _ _ _ h => h)
  rintro final _ s₁ ⟨rows, map, hkeys, hrows, htrue, hmap, rfl⟩
  rw [meets_modify]
  refine ⟨rows, map, fun a => ?_, hrows, htrue, hmap, rfl⟩
  rw [hkeys, hperm.mem_iff, AList.mem_keys]

theorem meets_repairIfNeeded (hkeeps : env.Keeps truth) :
    Meets env (repairIfNeeded cfg) world s
      (fun _ _ s' => RepairStep truth cfg s s')
      (fun _ _ s' => s' = s) := by
  unfold repairIfNeeded
  split
  · rename_i htip
    simp only [repairIfReorged, meets_bind, meets_get]
    split
    · rename_i hhash
      rw [meets_pure]
      exact .unknown htip hhash
    · rename_i known hhash
      simp only [meets_bind]
      refine meets_mono (meets_blockHash hkeeps) ?_ (fun _ _ _ h => h.1)
      rintro middle hash s₁ ⟨rfl, block, hanswer, rfl⟩
      split
      · rename_i hsame
        rw [meets_pure]
        cases block with
        | none => cases hsame
        | some block =>
            have hknown : known = block.hash := (Option.some.inj hsame).symm
            subst hknown
            exact .same htip hhash hanswer
      · rename_i hne
        exact meets_mono (meets_repair hkeeps)
          (fun _ _ _ h => .repaired htip hhash hanswer hne h)
          (fun _ _ _ h => h)
  · rename_i htip
    rw [meets_pure]
    exact .final (by simpa using htip)

theorem meets_recordProgress {cursor tip : ℕ} :
    Meets env (recordProgress cursor tip) world s
      (fun _ _ s' => s' = { s with progress := s'.progress })
      (fun _ _ _ => False) := by
  simp only [recordProgress, meets_bind, meets_get]
  split
  · simp
  · simp

theorem meets_updateReorgWatch (hkeeps : env.Keeps truth) :
    Meets env (updateReorgWatch cfg) world s
      (fun _ _ s' => WatchStored truth cfg s s'.watch ∧
        s' = { s with watch := s'.watch })
      (fun _ _ s' => s' = s) := by
  unfold updateReorgWatch
  split
  · rename_i htip
    simp only [storeCursorHash, meets_bind, meets_get]
    refine meets_mono (meets_blockHash hkeeps) ?_ (fun _ _ _ h => h.1)
    rintro middle hash s₁ ⟨rfl, block, hanswer, rfl⟩
    simp only [meets_modify]
    exact ⟨.inr ⟨htip, block, hanswer, rfl⟩, trivial⟩
  · rename_i htip
    rw [meets_pure]
    exact ⟨.inl ⟨by simpa using htip, rfl⟩, rfl⟩

theorem meets_publishChanges :
    Meets env (publishChanges updates) world s
      (fun _ _ s' => Published updates s s'.sent ∧
        s' = { s with sent := s'.sent })
      (fun _ _ s' => s' = s) := by
  simp only [publishChanges, meets_bind, meets_get]
  split
  · rename_i hnothing
    rw [meets_pure]
    exact ⟨.inl ⟨hnothing, rfl⟩, rfl⟩
  · rename_i hsome
    simp only [meets_bind]
    refine meets_iterate fun order _ after _ batch hbatch => ?_
    simp only [meets_send]
    intro alive after' _
    split
    · rw [meets_modify]
      have hupdates : updates = true := by
        simpa using (not_or.mp hsome).1
      exact ⟨.inr ⟨hupdates, batch, hbatch, rfl⟩, rfl⟩
    · rw [meets_throw]

theorem meets_finishPass (hkeeps : env.Keeps truth) :
    Meets env (finishPass cfg updates) world s
      (fun _ _ s' => WatchStored truth cfg s s'.watch ∧
        Published updates s s'.sent ∧
        s' = { s with
          watch := s'.watch
          lastSnapshot := s'.lastSnapshot
          progress := s'.progress
          saved := some s.map
          sent := s'.sent })
      (fun _ _ s' =>
        (s'.watch = s.watch ∨ WatchStored truth cfg s s'.watch) ∧
        (s'.saved = s.saved ∨ s'.saved = some s.map) ∧
        s' = { s with
          watch := s'.watch
          lastSnapshot := s'.lastSnapshot
          progress := s'.progress
          saved := s'.saved }) := by
  simp only [finishPass, meets_bind]
  refine meets_mono (meets_updateReorgWatch hkeeps) ?_ ?_
  · rintro middle _ s₁ ⟨hwatch, hs₁⟩
    rw [meets_saveMapOrFail]
    intro answer after _
    cases answer with
    | error e =>
        exact ⟨.inr hwatch, .inl (by rw [hs₁]), by rw [hs₁]⟩
    | ok written =>
        simp only [meets_get]
        refine meets_mono meets_recordProgress ?_ (fun _ _ _ h => h.elim)
        rintro middle' _ s₂ hs₂
        simp only [markSnapshot, meets_bind, meets_instantNow, meets_modify]
        intro now after' _
        refine meets_mono meets_publishChanges ?_ ?_
        · rintro final _ s' ⟨hpublished, hs'⟩
          rw [hs'] at hpublished ⊢
          rw [hs₂] at hpublished ⊢
          rw [hs₁] at hwatch hpublished ⊢
          exact ⟨hwatch, hpublished, rfl⟩
        · rintro final failure s' rfl
          rw [hs₂, hs₁]
          rw [hs₁] at hwatch
          exact ⟨.inr hwatch, .inr rfl, rfl⟩
  · rintro middle failure s₁ rfl
    exact ⟨.inl rfl, .inl rfl, rfl⟩

theorem meets_syncTo (hkeeps : env.Keeps truth) {target : ℕ}
    (hlt : s.map.cursor < target) :
    Meets env (syncTo cfg target) world s
      (fun _ _ s' => ∃ lo' s₁ s₂, SyncStarted cfg target s s₁ ∧
        Chunks truth cfg target (s.map.cursor + 1) s₁ lo' s₂ ∧
        target < lo' ∧ s' = s₂.pruned cfg)
      (fun _ _ s' => ∃ lo' s₁, SyncStarted cfg target s s₁ ∧
        Chunks truth cfg target (s.map.cursor + 1) s₁ lo' s') := by
  have hle : s.map.cursor + 1 ≤ target := hlt
  simp only [syncTo, meets_bind, meets_get]
  refine meets_mono meets_recordProgress ?_ (fun _ _ _ h => h.elim)
  rintro middle _ s₁ hs₁
  have hstart : SyncStarted cfg target s
      (Process.startSync { s₁ with
        totals := startTotals cfg (s.map.cursor + 1) target }) :=
    ⟨s₁.progress, by rw [hs₁]⟩
  simp only [sync, meets_bind, meets_modify]
  refine meets_mono (meets_syncInto hkeeps hle) ?_ ?_
  · rintro final _ s₃ ⟨lo', s₂, hend, hchunks, rfl⟩
    simp only [meets_get, meets_pure]
    exact ⟨lo', _, s₂, hstart, hchunks, hend, rfl⟩
  · rintro final failure s' ⟨lo', hchunks⟩
    exact ⟨lo', _, hstart, hchunks⟩

section Staged

variable {between : ω → ω → (q : Request) → Answer q → Prop}

theorem meets_passTo (hexplains : env.Explains between) {target : ℕ} :
    Meets env (passTo cfg updates target) world s
      (fun final _ s' => ∃ scanned, env.Reaches world scanned ∧
        env.Reaches scanned final ∧
        Advanced (between world scanned) (between scanned final) cfg updates
          target s s')
      (fun final _ s' => ∃ scanned, env.Reaches world scanned ∧
        env.Reaches scanned final ∧
        AdvanceFails (between world scanned) (between scanned final) cfg
          target s s') := by
  simp only [passTo, meets_bind, meets_get]
  split
  · rename_i hle
    rw [meets_pure]
    exact ⟨world, .refl, .refl, .idle hle⟩
  · rename_i hnot
    have hlt : s.map.cursor < target := by omega
    simp only [meets_bind]
    refine meets_mono (Meets.explained hexplains fun final =>
      meets_syncTo (Environment.keeps_of _) hlt) ?_ ?_
    · rintro scanned _ s₁ ⟨hscan, lo', s₂, s₃, hstart, hchunks, hend, rfl⟩
      refine meets_mono (Meets.explained hexplains fun final =>
        meets_finishPass (Environment.keeps_of _)) ?_ ?_
      · rintro final _ s' ⟨hstore, hwatch, hpublished, hstate⟩
        exact ⟨scanned, hscan, hstore,
          .synced hlt hstart hchunks hend hwatch hpublished hstate⟩
      · rintro final failure s' ⟨hstore, hwatch, hsaved, hstate⟩
        exact ⟨scanned, hscan, hstore,
          .finishing hlt hstart hchunks hend hwatch hsaved hstate⟩
    · rintro scanned failure s' ⟨hscan, lo', s₂, hstart, hchunks⟩
      exact ⟨scanned, hscan, .refl, .syncing hlt hstart hchunks⟩

/-- Every run of `pass` is one of the outcomes listed above. -/
theorem meets_pass (hexplains : env.Explains between) :
    Meets env (pass cfg updates) world s
      (fun final _ s' => ∃ stages, StagedBy env between world final stages ∧
        PassOk stages cfg updates s s')
      (fun final _ s' => ∃ stages, StagedBy env between world final stages ∧
        PassFails stages cfg s s') := by
  simp only [pass, meets_bind]
  refine meets_mono (Meets.explained hexplains fun final =>
    meets_repairIfNeeded (Environment.keeps_of _)) ?_ ?_
  · rintro checked _ s₁ ⟨hcheck, hrepair⟩
    refine meets_mono meets_resolve.reaches ?_ ?_
    · rintro resolved target s₂ ⟨htip, rfl, htarget⟩
      refine meets_mono (meets_passTo hexplains) ?_ ?_
      · rintro final _ s' ⟨scanned, hscan, hstore, hadvanced⟩
        exact ⟨_, .mk hcheck htip hscan hstore,
          .intro hrepair htarget hadvanced⟩
      · rintro final failure s' ⟨scanned, hscan, hstore, hfails⟩
        exact ⟨_, .mk hcheck htip hscan hstore,
          .advancing hrepair htarget hfails⟩
    · rintro final failure s' ⟨htip, rfl, -⟩
      exact ⟨_, .mk hcheck htip .refl .refl, .resolving hrepair⟩
  · rintro final failure s' ⟨hcheck, rfl⟩
    exact ⟨_, .mk hcheck .refl .refl .refl, .checking⟩

end Staged

theorem meets_onFailure :
    Meets env onFailure world s
      (fun _ _ s' => (s'.saved = s.saved ∨ s'.saved = some s.map) ∧
        s' = { s with
          failures := s.failures + 1
          lastSnapshot := s'.lastSnapshot
          saved := s'.saved })
      (fun _ _ _ => False) := by
  simp only [onFailure, meets_bind, meets_modify, meets_saveMap]
  intro answer after _
  cases answer with
  | ok written => simp [markSnapshot]
  | error e => simp

/-- One round of the loop: how the pass went, and what is left of it. -/
def Round (stages : Stages) (cfg : FollowConfig) (updates : Bool)
    (s : Process) (outcome : Except Failure Unit) (s' : Process) : Prop :=
  (outcome = .ok () ∧ ∃ s₁, PassOk stages cfg updates s s₁ ∧
      s' = { s₁ with failures := 0 }) ∨
    (∃ chain, outcome = .error (.err chain) ∧
      ∃ s₁, PassFails stages cfg s s₁ ∧
        (s'.saved = s₁.saved ∨ s'.saved = some s₁.map) ∧
        s' = { s₁ with
          failures := s₁.failures + 1
          lastSnapshot := s'.lastSnapshot
          saved := s'.saved })

theorem meets_followRound
    {between : ω → ω → (q : Request) → Answer q → Prop}
    (hexplains : env.Explains between) :
    Meets env (followRound cfg updates) world s
      (fun final outcome s' => ∃ passed stages,
        StagedBy env between world passed stages ∧
        env.Reaches passed final ∧ Round stages cfg updates s outcome s')
      (fun final _ s' => ∃ stages, StagedBy env between world final stages ∧
        PassFails stages cfg s s') := by
  simp only [followRound, meets_bind, meets_attempt]
  refine meets_mono (meets_pass hexplains) ?_ ?_
  · rintro passed result s₁ ⟨stages, hstaged, hok⟩
    simp only [onSuccess, meets_modify, meets_pure]
    exact ⟨passed, stages, hstaged, .refl, .inl ⟨rfl, s₁, hok, rfl⟩⟩
  · rintro passed failure s₁ ⟨stages, hstaged, hfails⟩
    cases failure with
    | err chain =>
        simp only [meets_bind, meets_pure]
        refine meets_mono meets_onFailure.reaches ?_ (fun _ _ _ h => h.2.elim)
        rintro final _ s' ⟨hafter, hsaved, hs'⟩
        exact ⟨passed, stages, hstaged, hafter,
          .inr ⟨chain, rfl, s₁, hfails, hsaved, hs'⟩⟩
    | panic message => exact ⟨stages, hstaged, hfails⟩
    | killed => exact ⟨stages, hstaged, hfails⟩

end Rules

/-! ## Runs of the loop -/

structure RoundRecord where
  before : Process
  outcome : Except Failure Unit
  after : Process

/-- A run of the loop with its rounds, oldest first. -/
inductive FollowRun {ω : Type} (env : Environment Request Answer ω)
    (cfg : FollowConfig) (updates : Bool) (world : ω) (s : Process) :
    List RoundRecord → ω → Process → Prop
  | start : FollowRun env cfg updates world s [] world s
  | round {rounds : List RoundRecord} {middle final : ω}
      {s₁ s' : Process} {outcome : Except Failure Unit}
      (hrun : FollowRun env cfg updates world s rounds middle s₁)
      (hround : (followRound cfg updates).Runs env middle s₁ final
        (.ok outcome) s') :
      FollowRun env cfg updates world s
        (rounds ++ [⟨s₁, outcome, s'⟩]) final s'

theorem FollowRun.mem {ω : Type} {env : Environment Request Answer ω}
    {cfg : FollowConfig} {updates : Bool} {world final : ω}
    {s s' : Process} {rounds : List RoundRecord}
    (hrun : FollowRun env cfg updates world s rounds final s')
    {r : RoundRecord} (hr : r ∈ rounds) :
    ∃ stages, Round stages cfg updates r.before r.outcome r.after := by
  have hkeeps : env.Keeps fun _ _ => True := fun _ _ _ _ _ => trivial
  induction hrun with
  | start => cases hr
  | round hrun hround ih =>
      rcases List.mem_append.mp hr with hr | hr
      · exact ih hr
      · rw [List.mem_singleton] at hr
        subst hr
        obtain ⟨passed, stages, -, -, h⟩ :=
          (meets_followRound hkeeps.explains).of_ok hround
        exact ⟨stages, h⟩

end UsdtPir
