import UsdtPir.ChangeSet
import UsdtPir.GrowingChain

/-!
# What lasts through a pass

A property of the map, the watch and the disk that chunks, the stored hash and
the repair preserve holds after every round of a run on one chain.  Each stage
is a step of its own, so that a property is proved stage by stage.
-/

namespace UsdtPir

open Interaction

/-- The map and the watch are the same, and the disk holds what it held or the
map. -/
structure SameMap (s s' : Process) : Prop where
  map : s'.map = s.map
  watch : s'.watch = s.watch
  saved : s'.saved = s.saved ∨ s'.saved = some s.map

/-- The chunks of a pass lead from `s` to `s'`, as far as the map, the watch and
the disk go. -/
def Scanned (truth : (q : Request) → Answer q → Prop) (cfg : FollowConfig)
    (target : ℕ) (s s' : Process) : Prop :=
  ∃ s₁ s₂ lo', SameMap s s₁ ∧
    Chunks truth cfg target (s₁.map.cursor + 1) s₁ lo' s₂ ∧ SameMap s₂ s'

/-- The chunks reached the target. -/
structure ScannedTo (truth : (q : Request) → Answer q → Prop)
    (cfg : FollowConfig) (target : ℕ) (s s' : Process) : Prop where
  below : s.map.cursor < target
  scanned : Scanned truth cfg target s s'
  reached : s'.map.cursor = target
  bound : target < 2 ^ 64

/-- The hash of the cursor was taken, and perhaps the map saved. -/
structure HashTaken (truth : (q : Request) → Answer q → Prop)
    (cfg : FollowConfig) (s s' : Process) : Prop where
  map : s'.map = s.map
  watch : WatchStored truth cfg s s'.watch
  saved : s'.saved = s.saved ∨ s'.saved = some s.map

section Stages

variable {truth scan store : (q : Request) → Answer q → Prop}
    {cfg : FollowConfig} {updates : Bool} {target lo lo' : ℕ}
    {s s₁ s₂ s' : Process}

theorem SameMap.refl (s : Process) : SameMap s s :=
  ⟨rfl, rfl, .inl rfl⟩

theorem SameMap.trans (h : SameMap s s₁) (h' : SameMap s₁ s') :
    SameMap s s' where
  map := h'.map.trans h.map
  watch := h'.watch.trans h.watch
  saved := by
    rcases h'.saved with hkept | hnew
    · rw [hkept]
      exact h.saved
    · rw [hnew, h.map]
      exact .inr rfl

theorem SyncStarted.same (h : SyncStarted cfg target s s₁) : SameMap s s₁ := by
  obtain ⟨progress, rfl⟩ := h
  exact ⟨rfl, rfl, .inl rfl⟩

theorem SyncStarted.pruned_same (h : SyncStarted cfg target s s₁)
    (hchunks : Chunks truth cfg target lo s₁ lo' s') :
    SameMap s' (s'.pruned cfg) := by
  obtain ⟨progress, rfl⟩ := h
  obtain ⟨new, hnew⟩ := hchunks.journaled
  exact ⟨congrArg Prod.snd hnew.pruned_eq, rfl, .inl rfl⟩

theorem SyncStarted.scanned (h : SyncStarted cfg target s s₁)
    (hchunks : Chunks truth cfg target (s.map.cursor + 1) s₁ lo' s₂)
    (hsame : SameMap s₂ s') : Scanned truth cfg target s s' := by
  rw [← h.same.map] at hchunks
  exact ⟨s₁, s₂, lo', h.same, hchunks, hsame⟩

theorem SyncStarted.scannedTo (hranged : Ranged truth)
    (hlt : s.map.cursor < target) (h : SyncStarted cfg target s s₁)
    (hchunks : Chunks truth cfg target (s.map.cursor + 1) s₁ lo' s₂)
    (hend : target < lo') : ScannedTo truth cfg target s (s₂.pruned cfg) := by
  have hpruned := h.pruned_same hchunks
  have hscanned := h.scanned hchunks hpruned
  rw [← h.same.map] at hchunks hlt
  obtain ⟨-, -, hreached⟩ := hchunks.cursor_le hranged hlt
  obtain ⟨hcursor, hbound⟩ := hreached hend
  rw [h.same.map] at hlt
  exact ⟨hlt, hscanned, by rw [hpruned.map, hcursor], hbound⟩

/-- A pass goes on to its target and takes the hash there, or has nothing to
do. -/
theorem Advanced.split (hranged : Ranged scan)
    (h : Advanced scan store cfg updates target s s') :
    (s' = s ∧ target ≤ s.map.cursor) ∨
      ∃ s₁, ScannedTo scan cfg target s s₁ ∧ HashTaken store cfg s₁ s' := by
  cases h with
  | idle hle => exact .inl ⟨rfl, hle⟩
  | synced hlt hstart hchunks hend hwatch _ hstate =>
      refine .inr ⟨_, hstart.scannedTo hranged hlt hchunks hend, ?_, hwatch, ?_⟩
      · rw [hstate]
      · rw [hstate]
        exact .inr rfl

/-- A pass that fails on its way stops among its chunks or at its target. -/
theorem AdvanceFails.split (hranged : Ranged scan)
    (h : AdvanceFails scan store cfg target s s') :
    s.map.cursor < target ∧ (Scanned scan cfg target s s' ∨
      ∃ s₁, ScannedTo scan cfg target s s₁ ∧ HashTaken store cfg s₁ s') := by
  cases h with
  | syncing hlt hstart hchunks =>
      exact ⟨hlt, .inl (hstart.scanned hchunks (.refl _))⟩
  | @finishing s₁ s₂ _ lo' hlt hstart hchunks hend hwatch hsaved hstate =>
      have hpruned := hstart.pruned_same hchunks
      have hmap : s'.map = (s₂.pruned cfg).map := by rw [hstate]
      refine ⟨hlt, ?_⟩
      rcases hwatch with hkept | hstored
      · rw [hpruned.map] at hmap hsaved
        exact .inl (hstart.scanned hchunks ⟨hmap, hkept, hsaved⟩)
      · exact .inr ⟨_, hstart.scannedTo hranged hlt hchunks hend, hmap, hstored,
          hsaved⟩

theorem Scanned.cursorHash (h : Scanned truth cfg target s s') :
    s'.watch.cursorHash = s.watch.cursorHash := by
  obtain ⟨s₁, s₂, lo', hsame, hchunks, hsame'⟩ := h
  rw [hsame'.watch, hchunks.sameOutside.cursorHash, hsame.watch]

theorem Scanned.cursor_le (hranged : Ranged truth)
    (h : Scanned truth cfg target s s') (hlt : s.map.cursor < target) :
    s.map.cursor ≤ s'.map.cursor ∧ s'.map.cursor ≤ target := by
  obtain ⟨s₁, s₂, lo', hsame, hchunks, hsame'⟩ := h
  rw [← hsame.map] at hlt ⊢
  obtain ⟨hle, hto, -⟩ := hchunks.cursor_le hranged hlt
  rw [hsame'.map]
  exact ⟨hle, hto⟩

/-- What every chunk preserves, and only looks at the map, the watch and the
disk. -/
theorem Scanned.follow {P : Process → Prop} (hranged : Ranged truth)
    (h : Scanned truth cfg target s s') (hs : P s)
    (hsame : ∀ {s s'}, SameMap s s' → P s → P s')
    (hstep : ∀ {hi s s'}, hi ≤ target →
      ChunkApplied truth (s.map.cursor + 1) hi s s' → P s → P s') :
    P s' := by
  obtain ⟨s₁, s₂, lo', hbefore, hchunks, hafter⟩ := h
  have hfirst : P s₁ := hsame hbefore hs
  exact hsame hafter (hchunks.follow hranged hfirst hstep).1

end Stages

/-! ## The rule -/

/-- A property with a limit, which no target falls below, that lasts through
the stages of a pass on the chain.  `trusts` is what it asks of the hash that is
taken at the end. -/
structure Lasting (X : Chain) (cfg : FollowConfig)
    (trusts : ((q : Request) → Answer q → Prop) → Prop)
    (P : ℕ → Process → Prop) : Prop where
  mono : ∀ {limit limit' s}, limit ≤ limit' → P limit s → P limit' s
  same : ∀ {limit s s'}, SameMap s s' → P limit s → P limit s'
  chunk : ∀ {truth limit hi s s'}, X.BacksReads truth → hi ≤ limit →
    ChunkApplied truth (s.map.cursor + 1) hi s s' → P limit s → P limit s'
  hash : ∀ {truth limit s s'}, trusts truth → s.map.cursor = limit →
    limit < 2 ^ 64 → HashTaken truth cfg s s' → P limit s → P limit s'
  repair : ∀ {truth limit s s'}, X.BacksReads truth →
    RepairStep truth cfg s s' → P limit s → P limit s'

section Rule

variable {X : Chain} {cfg : FollowConfig} {updates : Bool}
    {trusts : ((q : Request) → Answer q → Prop) → Prop}
    {P : ℕ → Process → Prop} {scan store : (q : Request) → Answer q → Prop}
    {limit target : ℕ} {s s₁ s' : Process}

theorem Lasting.scanned (hP : Lasting X cfg trusts P)
    (hreads : X.BacksReads scan) (h : Scanned scan cfg target s s')
    (hs : P target s) : P target s' := by
  apply h.follow hreads.ranged hs
  · intro s s' hsame hbefore
    exact hP.same hsame hbefore
  · intro hi s s' hhi hchunk hbefore
    exact hP.chunk hreads hhi hchunk hbefore

theorem Lasting.scannedTo (hP : Lasting X cfg trusts P)
    (hreads : X.BacksReads scan) (htrusts : trusts store)
    (h : ScannedTo scan cfg target s s₁) (htaken : HashTaken store cfg s₁ s')
    (hs : P target s) : P target s' :=
  hP.hash htrusts h.reached h.bound htaken (hP.scanned hreads h.scanned hs)

theorem Lasting.advanced (hP : Lasting X cfg trusts P)
    (hreads : X.BacksReads scan) (htrusts : trusts store)
    (hlimit : limit ≤ target)
    (h : Advanced scan store cfg updates target s s') (hs : P limit s) :
    P target s' ∧ s'.map.cursor = max s.map.cursor target := by
  have hs' := hP.mono hlimit hs
  rcases h.split hreads.ranged with ⟨rfl, hle⟩ | ⟨s₁, hto, htaken⟩
  · exact ⟨hs', by omega⟩
  · have hlt := hto.below
    have hreached := hto.reached
    refine ⟨hP.scannedTo hreads htrusts hto htaken hs', ?_⟩
    rw [htaken.map]
    omega

theorem Lasting.fails (hP : Lasting X cfg trusts P)
    (hreads : X.BacksReads scan) (htrusts : trusts store)
    (hlimit : limit ≤ target)
    (h : AdvanceFails scan store cfg target s s') (hs : P limit s) :
    P target s' := by
  have hs' := hP.mono hlimit hs
  obtain ⟨-, hscanned | ⟨s₁, hto, htaken⟩⟩ := h.split hreads.ranged
  · exact hP.scanned hreads hscanned hs'
  · exact hP.scannedTo hreads htrusts hto htaken hs'

/-! ### Rounds on a chain that grows -/

theorem target_eq_of_resolves {n checked resolved : ℕ}
    (htip : cfg.tip = .confirmations n)
    (h : ResolvesTo (fun q answer => X.growing checked q answer resolved)
      cfg.tip target) : target = checked - n ∧ checked ≤ resolved := by
  rw [htip] at h
  obtain ⟨head, ⟨hle, -, hview⟩, rfl⟩ := h
  have hhead : head = checked := hview head rfl
  rw [hhead]
  exact ⟨rfl, hle⟩

/-- The property holds with a limit that the head of the moment allows. -/
def UnderHead (P : ℕ → Process → Prop) (n head : ℕ) (s : Process) : Prop :=
  ∃ limit ≤ head - n, P limit s

/-- The property holds with a limit that was reached. -/
def AtRest (P : ℕ → Process → Prop) (s : Process) : Prop :=
  ∃ limit ≤ s.map.cursor, P limit s

variable {n head head' passed : ℕ} {stages : Stages}
    {outcome : Except Failure Unit}

theorem UnderHead.mono (h : UnderHead P n head s) (hle : head ≤ head') :
    UnderHead P n head' s := by
  obtain ⟨limit, hlimit, hs⟩ := h
  exact ⟨limit, by omega, hs⟩

/-- The way from the check of a pass to its end, and what is left of it. -/
theorem Lasting.advanced_growing (hP : Lasting X cfg trusts P)
    (htrusts : ∀ low high, trusts (X.SaysBetween low high))
    (htip : cfg.tip = .confirmations n) {checked resolved scanned : ℕ}
    (hchecked : head ≤ checked) (hscan : X.growing.Reaches resolved scanned)
    (hstore : X.growing.Reaches scanned head')
    (htarget : ResolvesTo (fun q answer => X.growing checked q answer resolved)
      cfg.tip target)
    (h : Advanced (X.SaysBetween resolved scanned)
      (X.SaysBetween scanned head') cfg updates target s s')
    (hs : UnderHead P n head s) : UnderHead P n head' s' ∧ AtRest P s' := by
  obtain ⟨limit, hlimit, hbefore⟩ := hs
  obtain ⟨rfl, hresolved⟩ := target_eq_of_resolves htip htarget
  have hscanned := Chain.growing_reaches hscan
  have hstored := Chain.growing_reaches hstore
  obtain ⟨hafter, hcursor⟩ := hP.advanced (Chain.backs_saysBetween _ _).reads
    (htrusts _ _) (by omega) h hbefore
  exact ⟨⟨_, by omega, hafter⟩, ⟨_, by omega, hafter⟩⟩

theorem Lasting.fails_growing (hP : Lasting X cfg trusts P)
    (htrusts : ∀ low high, trusts (X.SaysBetween low high))
    (htip : cfg.tip = .confirmations n) {checked resolved scanned : ℕ}
    (hchecked : head ≤ checked) (hscan : X.growing.Reaches resolved scanned)
    (hstore : X.growing.Reaches scanned head')
    (htarget : ResolvesTo (fun q answer => X.growing checked q answer resolved)
      cfg.tip target)
    (h : AdvanceFails (X.SaysBetween resolved scanned)
      (X.SaysBetween scanned head') cfg target s s')
    (hs : UnderHead P n head s) : UnderHead P n head' s' := by
  obtain ⟨limit, hlimit, hbefore⟩ := hs
  obtain ⟨rfl, hresolved⟩ := target_eq_of_resolves htip htarget
  have hscanned := Chain.growing_reaches hscan
  have hstored := Chain.growing_reaches hstore
  have hafter := hP.fails (Chain.backs_saysBetween _ _).reads (htrusts _ _)
    (by omega) h hbefore
  exact ⟨_, by omega, hafter⟩

/-- A round on a chain that only grows. -/
theorem Lasting.round (hP : Lasting X cfg trusts P)
    (htrusts : ∀ low high, trusts (X.SaysBetween low high))
    (htip : cfg.tip = .confirmations n)
    (hstaged : StagedBy X.growing X.SaysBetween head passed stages)
    (hpassed : passed ≤ head') (h : Round stages cfg updates s outcome s')
    (hs : UnderHead P n head s) :
    UnderHead P n head' s' ∧ (outcome = .ok () → AtRest P s') := by
  obtain @⟨checked, resolved, scanned, hcheck, htold, hscan, hstore⟩ := hstaged
  have hchecked := Chain.growing_reaches hcheck
  have hall := Chain.growing_reaches (htold.trans (hscan.trans hstore))
  have hrepairs : ∀ {s₁}, RepairStep (X.SaysBetween head checked) cfg s s₁ →
      UnderHead P n head s₁ := by
    intro s₁ hrepair
    obtain ⟨limit, hlimit, hbefore⟩ := hs
    exact ⟨limit, hlimit,
      hP.repair (Chain.backs_saysBetween _ _).reads hrepair hbefore⟩
  have hsame : ∀ {limit s₁}, s'.map = s₁.map → s'.watch = s₁.watch →
      (s'.saved = s₁.saved ∨ s'.saved = some s₁.map) → P limit s₁ →
      P limit s' := by
    intro limit s₁ hmap hwatch hsaved hbefore
    exact hP.same ⟨hmap, hwatch, hsaved⟩ hbefore
  rcases h with ⟨-, s₁, ⟨hrepair, htarget, hadvanced⟩, hs'⟩ |
    ⟨chain, hfailed, s₁, hfails, hsaved, hs'⟩
  · obtain ⟨⟨limit, hlimit, hunder⟩, limit', hlimit', hrest⟩ :=
      hP.advanced_growing htrusts htip hchecked hscan hstore htarget hadvanced
        (hrepairs hrepair)
    have hmap : s'.map = s₁.map := by rw [hs']
    have hwatch : s'.watch = s₁.watch := by rw [hs']
    have hkept : s'.saved = s₁.saved := by rw [hs']
    refine ⟨⟨limit, by omega, hsame hmap hwatch (.inl hkept) hunder⟩,
      fun _ => ⟨limit', ?_, hsame hmap hwatch (.inl hkept) hrest⟩⟩
    rw [hmap]
    exact hlimit'
  · have hafter : UnderHead P n passed s₁ := by
      cases hfails with
      | checking => exact hs.mono (by omega)
      | resolving hrepair => exact (hrepairs hrepair).mono (by omega)
      | advancing hrepair htarget hfails =>
          exact hP.fails_growing htrusts htip hchecked hscan hstore htarget
            hfails (hrepairs hrepair)
    obtain ⟨limit, hlimit, hunder⟩ := hafter
    have hmap : s'.map = s₁.map := by rw [hs']
    have hwatch : s'.watch = s₁.watch := by rw [hs']
    refine ⟨⟨limit, by omega, hsame hmap hwatch hsaved hunder⟩, fun hok => ?_⟩
    rw [hfailed] at hok
    cases hok

/-- A run on a chain that only grows, with what its `Ok` rounds leave. -/
theorem Lasting.followRun (hP : Lasting X cfg trusts P)
    (htrusts : ∀ low high, trusts (X.SaysBetween low high))
    (htip : cfg.tip = .confirmations n) {rounds : List RoundRecord}
    (h : FollowRun X.growing cfg updates head s rounds head' s')
    (hs : UnderHead P n head s) :
    UnderHead P n head' s' ∧
      ∀ r ∈ rounds, r.outcome = .ok () → AtRest P r.after := by
  induction h with
  | start => exact ⟨hs, by simp⟩
  | round hrun hround ih =>
      obtain ⟨hbefore, hrounds⟩ := ih
      obtain ⟨passed, stages, hstaged, hafter, hround'⟩ :=
        (meets_followRound Chain.growing_explains).of_ok hround
      obtain ⟨hunder, hrest⟩ := hP.round htrusts htip hstaged
        (Chain.growing_reaches hafter) hround' hbefore
      refine ⟨hunder, fun r hr => ?_⟩
      rcases List.mem_append.mp hr with hr | hr
      · exact hrounds r hr
      · rw [List.mem_singleton] at hr
        rw [hr]
        exact hrest

end Rule

end UsdtPir
