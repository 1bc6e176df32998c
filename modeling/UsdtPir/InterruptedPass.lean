import UsdtPir.ReorgRepair

/-!
# A reorg that lands inside a pass

The calls of a pass see one chain up to some point and another one after it.
The next check notices as long as the hash that is kept is not a hash of the
new chain; a pass whose every answer is true of the new chain needs no check.
A pass that takes its hash from the new chain after reading from the old one
hides the reorg for good.
-/

namespace UsdtPir

open Interaction
open Program
open Following

/-- The chain of the moment and its head. -/
inductive Moment
  | old (head : ℕ)
  | new (head : ℕ)

namespace Moment

/-- What is said of the chain of the moment. -/
def Says (A B : Chain) : Moment → (q : Request) → Answer q → Prop
  | old head => A.Says head
  | new head => B.Says head

/-- Heads do not fall on either chain, and those of the new one are at least
`low`. -/
inductive Leads (low : ℕ) : Moment → Moment → Prop
  | before {head head' : ℕ} (hle : head ≤ head') :
      Leads low (old head) (old head')
  | lands {head head' : ℕ} (hlow : low ≤ head') :
      Leads low (old head) (new head')
  | after {head head' : ℕ} (hle : head ≤ head') :
      Leads low (new head) (new head')

def IsNew : Moment → Prop
  | old _ => False
  | new _ => True

theorem Leads.refl (low : ℕ) (now : Moment) : Leads low now now := by
  cases now with
  | old head => exact .before le_rfl
  | new head => exact .after le_rfl

theorem Leads.trans {low : ℕ} {now next last : Moment}
    (h : Leads low now next) (h' : Leads low next last) :
    Leads low now last := by
  cases h with
  | before hle =>
      cases h' with
      | before hle' => exact .before (hle.trans hle')
      | lands hlow => exact .lands hlow
  | lands hlow =>
      cases h' with
      | after hle' => exact .lands (hlow.trans hle')
  | after hle =>
      cases h' with
      | after hle' => exact .after (hle.trans hle')

/-- Before a moment of the old chain there is no other. -/
theorem Leads.eq_old {low head : ℕ} {now : Moment}
    (h : Leads low now (old head)) : ∃ head', now = old head' ∧ head' ≤ head := by
  cases h with
  | before hle => exact ⟨_, rfl, hle⟩

end Moment

/-- A provider under which the chain is replaced at some call, or not yet. -/
def landing (A B : Chain) (low : ℕ) : Environment Request Answer Moment :=
  fun now question answer next =>
    now.Says A B question answer ∧ now.Leads low next

/-- The allowed answers given between two moments. -/
def landingBetween (A B : Chain) (low : ℕ)
    (allowed : Moment → (q : Request) → Answer q → Prop) (first last : Moment)
    (question : Request) (answer : Answer question) : Prop :=
  ∃ now, first.Leads low now ∧ now.Leads low last ∧
    now.Says A B question answer ∧ allowed now question answer

section Landing

variable {A B : Chain} {low : ℕ}
    {allowed : Moment → (q : Request) → Answer q → Prop}
    {first last : Moment}

theorem landing_reaches
    (h : ((landing A B low).only allowed).Reaches first last) :
    first.Leads low last := by
  induction h with
  | refl => exact .refl low first
  | tail _ hstep ih =>
      obtain ⟨question, answer, ⟨-, hleads⟩, -⟩ := hstep
      exact ih.trans hleads

theorem landing_explains : ((landing A B low).only allowed).Explains
    (landingBetween A B low allowed) where
  first hanswer hreaches :=
    ⟨_, .refl low _, hanswer.1.2.trans (landing_reaches hreaches),
      hanswer.1.1, hanswer.2⟩
  later hanswer hlater := by
    obtain ⟨now, hfirst, hlast, htells, hallowed⟩ := hlater
    exact ⟨now, hanswer.1.2.trans hfirst, hlast, htells, hallowed⟩

/-- Every answer is true of one of the two chains. -/
theorem landing_tells {question : Request} {answer : Answer question}
    (h : landingBetween A B low allowed first last question answer) :
    A.Tells question answer ∨ B.Tells question answer := by
  obtain ⟨now, -, -, htells, -⟩ := h
  cases now with
  | old head => exact .inl htells.1
  | new head => exact .inr htells.1

/-- What is answered before the old chain is gone is true of it. -/
theorem backs_old {head : ℕ} :
    A.Backs (landingBetween A B low allowed first (.old head)) := by
  rintro question answer ⟨now, -, hlast, htells, -⟩
  cases hlast with
  | before hle => exact htells.1

end Landing

/-! ## States from which the new chain is followed -/

/-- The check of the next pass on the chain leaves the address guarded there,
with no tip below `limit` to come. -/
def Heals (X : Chain) (cfg : FollowConfig) (start : Option ℕ) (a : Address)
    (limit : ℕ) (s : Process) : Prop :=
  ∀ truth s₁, X.Backs truth → RepairStep truth cfg s s₁ →
    ∃ base, Guards X cfg.reorgWindow start base a limit s₁

section Heals

variable {A B X : Chain} {truth : (q : Request) → Answer q → Prop}
    {cfg : FollowConfig} {start : Option ℕ}
    {base limit limit' level hi target : ℕ} {a : Address} {s s₁ s' : Process}

theorem Heals.mono (h : Heals X cfg start a limit s) (hle : limit ≤ limit') :
    Heals X cfg start a limit' s := by
  intro truth s₁ hbacks hrepair
  obtain ⟨base, hs⟩ := h truth s₁ hbacks hrepair
  exact ⟨base, hs.mono hle⟩

/-- Only the map and the watch matter to the check. -/
theorem RepairStep.transfer (h : RepairStep truth cfg s s₁)
    (hmap : s.map = s'.map) (hwatch : s.watch = s'.watch) :
    ∃ s₂, RepairStep truth cfg s' s₂ ∧ s₁.map = s₂.map ∧
      s₁.watch = s₂.watch := by
  cases h with
  | final htip => exact ⟨s', .final htip, hmap, hwatch⟩
  | unknown htip hhash =>
      rw [hwatch] at hhash
      exact ⟨s', .unknown htip hhash, hmap, hwatch⟩
  | same htip hhash hanswer =>
      rw [hwatch] at hhash
      rw [hmap] at hanswer
      exact ⟨s', .same htip hhash hanswer, hmap, hwatch⟩
  | repaired htip hhash hanswer hne hrepaired =>
      obtain ⟨rows, map, hkeys, hnodup, htrue, hcorrected, rfl⟩ := hrepaired
      rw [hwatch] at hhash hkeys
      rw [hmap] at hanswer htrue hcorrected
      refine ⟨_, .repaired htip hhash hanswer hne
        ⟨rows, map, hkeys, hnodup, htrue, hcorrected, rfl⟩, ?_, rfl⟩
      rw [hmap]

theorem Heals.congr (h : Heals X cfg start a limit s) (hmap : s'.map = s.map)
    (hwatch : s'.watch = s.watch) : Heals X cfg start a limit s' := by
  intro truth s₁ hbacks hrepair
  obtain ⟨s₂, hrepair', hmap', hwatch'⟩ := hrepair.transfer hmap hwatch
  obtain ⟨base, hs⟩ := h truth s₂ hbacks hrepair'
  refine ⟨base, ?_⟩
  rw [Guards, Process.follower, hmap', hwatch']
  exact hs

theorem Guards.rebase {window : ℕ}
    (h : Guards X window start base a limit s) (hbase : base ≤ limit') :
    ∃ base', Guards X window start base' a limit' s :=
  Guarded.rebase h hbase

theorem Guards.heals (hquiet : X.feed.QuietAt a)
    (h : Guards X cfg.reorgWindow start base a limit s) :
    Heals X cfg start a limit s := by
  intro truth s₁ hbacks hrepair
  exact ⟨base, h.repair hbacks.reads hquiet hrepair⟩

/-- The next check on a new chain that agrees with the old one up to the start
of the window, and up to the cursor if no hash is kept. -/
theorem Watched.heals (h : Watched A cfg.reorgWindow start base a limit s)
    (hfix : A.HashesFix B) (htip : cfg.tip.isReorgable = true)
    (hquiet : A.feed.QuietAt a)
    (hagree : A.AgreesUpTo B (max base (s.map.cursor - cfg.reorgWindow)))
    (hunknown : s.watch.cursorHash = none → A.AgreesUpTo B s.map.cursor)
    (hbase : base ≤ limit') : Heals B cfg start a limit' s := by
  intro truth s₁ hbacks hrepair
  have hs₁ := hrepair.watched hbacks.reads hbacks.hashes.check hfix htip hquiet
    hagree hunknown h
  exact hs₁.guarded.rebase hbase

/-- For an address that is not in the map the new chain is followed from the
cursor on. -/
theorem Watched.start_over (h : Watched A cfg.reorgWindow start base a limit s)
    (hnone : s.watch.cursorHash = none) (habsent : s.map.get a = none) :
    Guards B cfg.reorgWindow (some s.map.cursor) base a limit s := by
  have hview : s.follower.view a = none := by
    show s.map.holding a = none
    rw [BalanceMap.holding, habsent]
    rfl
  have hstart : ∃ m, some s.map.cursor = some m ∧ s.follower.cursor ≤ m :=
    ⟨s.map.cursor, rfl, le_rfl⟩
  exact Guarded.unarmed (right_of_absent hview hstart) (fun hne => hne hnone)
    (.inr ⟨hview, hstart⟩) h.guarded.behind

/-! ### Chunks that mix both chains -/

theorem ranged_of_tells (htells : ∀ q answer, truth q answer →
      A.Tells q answer ∨ B.Tells q answer) : Ranged truth := by
  intro lo hi logs hlogs
  rcases htells _ _ hlogs with hA | hB
  · obtain ⟨hle, hlt, -⟩ := tells_getLogs hA
    exact ⟨hle, hlt⟩
  · obtain ⟨hle, hlt, -⟩ := tells_getLogs hB
    exact ⟨hle, hlt⟩

theorem landing_ranged {low : ℕ}
    {allowed : Moment → (q : Request) → Answer q → Prop} {first last : Moment} :
    Ranged (landingBetween A B low allowed first last) :=
  ranged_of_tells fun _ _ => landing_tells

/-- Up to where the chains agree, such a chunk finds what is touched. -/
theorem ChunkApplied.blended (htells : ∀ q answer, truth q answer →
      A.Tells q answer ∨ B.Tells q answer) (hagree : A.AgreesUpTo B level)
    (h : ChunkApplied truth (s.map.cursor + 1) hi s s') :
    Blended A.feed level s.follower s'.follower := by
  obtain ⟨logs, touched, hfolded⟩ := h.folded
  obtain ⟨hle, -⟩ := h.ranged (ranged_of_tells htells)
  have hcursor : s'.map.cursor = hi := hfolded.cursor
  refine ⟨?_, ?_, ?_⟩
  · show s.map.cursor ≤ s'.map.cursor
    omega
  · rintro k ⟨batch, hbatch, hk⟩
    exact (hfolded.kept k 0 ⟨batch, hbatch, Nat.zero_le _, hk⟩).recalls
  · intro k hnot
    have habsent : k ∉ touched := fun hk =>
      hnot (hfolded.remembered k hk).recalls
    refine ⟨hfolded.other k habsent, ?_⟩
    rintro ⟨b, hlo, hmin, htouches⟩
    have hb : b ≤ hi ∧ b ≤ level := by
      have hmin' : b ≤ min s'.map.cursor level := hmin
      omega
    obtain ⟨hsame, howner, -, -⟩ := hagree b hb.2
    have hlower : s.map.cursor + 1 ≤ b := hlo
    refine habsent (mem_of_touches hfolded.collects ?_ ?_ htouches)
    · intro log hlog
      rcases htells _ _ hfolded.answered with hA | hB
      · obtain ⟨-, -, hmem⟩ := tells_getLogs hA
        exact (hmem log).mpr ⟨b, hlower, hb.1, hlog⟩
      · obtain ⟨-, -, hmem⟩ := tells_getLogs hB
        have hlog' : log ∈ B.watched b := by
          rw [Chain.watched, ← hsame]
          exact hlog
        exact (hmem log).mpr ⟨b, hlower, hb.1, hlog'⟩
    · intro owner hanswer
      rcases htells _ _ hanswer with hA | hB
      · exact hA owner rfl rfl
      · rw [howner]
        exact hB owner rfl rfl

theorem Scanned.blended (htells : ∀ q answer, truth q answer →
      A.Tells q answer ∨ B.Tells q answer) (hagree : A.AgreesUpTo B level)
    (h : Scanned truth cfg target s s') :
    Blended A.feed level s.follower s'.follower := by
  apply h.follow (P := fun s₁ => Blended A.feed level s.follower s₁.follower)
    (ranged_of_tells htells) (.refl _ _ _)
  · intro s₁ s₂ hsame hbefore
    rw [hsame.follower]
    exact hbefore
  · intro hi s₁ s₂ _ hchunk hbefore
    exact hbefore.trans (hchunk.blended htells hagree)

/-- Chunks that leave the cursor where it was left all else, too. -/
theorem Scanned.still (hranged : Ranged truth)
    (h : Scanned truth cfg target s s')
    (hcursor : s'.map.cursor = s.map.cursor) : SameMap s s' := by
  have hor : SameMap s s' ∨ s.map.cursor < s'.map.cursor := by
    apply h.follow (P := fun s₁ => SameMap s s₁ ∨
      s.map.cursor < s₁.map.cursor) hranged (.inl (.refl s))
    · intro s₁ s₂ hsame hbefore
      rw [hsame.map]
      exact hbefore.imp_left fun hsame' => hsame'.trans hsame
    · intro hi s₁ s₂ _ hchunk hbefore
      have hstep := (hchunk.ranged hranged).1
      rw [hchunk.cursor]
      rcases hbefore with hsame | hlt
      · rw [hsame.map] at hstep
        exact .inr (by omega)
      · exact .inr (by omega)
  exact hor.resolve_right fun hlt => by omega

theorem Scanned.cursor_lt (hranged : Ranged truth)
    (h : Scanned truth cfg target s s') (hlt : s.map.cursor < 2 ^ 64) :
    s'.map.cursor < 2 ^ 64 := by
  apply h.follow (P := fun s₁ => s₁.map.cursor < 2 ^ 64) hranged hlt
  · intro s₁ s₂ hsame hbefore
    rw [hsame.map]
    exact hbefore
  · intro hi s₁ s₂ _ hchunk _
    have hbound := (hchunk.ranged hranged).2
    rw [hchunk.cursor]
    omega

/-- Chunks that mixed the chains kept a hash of the old one: the next check
sees the new chain, or there was nothing to mix. -/
theorem Scanned.heals (htells : ∀ q answer, truth q answer →
      A.Tells q answer ∨ B.Tells q answer)
    (h : Scanned truth cfg target s s')
    (hs : Watched A cfg.reorgWindow start base a limit s)
    (hfix : A.HashesFix B) (htip : cfg.tip.isReorgable = true)
    (hquiet : A.feed.QuietAt a) (hhash : s.watch.cursorHash ≠ none)
    (hagree : A.AgreesUpTo B (max base (s'.map.cursor - cfg.reorgWindow)))
    (hbase : base ≤ limit') : Heals B cfg start a limit' s' := by
  have hranged := ranged_of_tells htells
  have hblended := h.blended htells hagree
  have hkept := h.cursorHash
  intro truth' s₁ hbacks hrepair
  cases hrepair with
  | final hfinal =>
      rw [htip] at hfinal
      cases hfinal
  | unknown _ hnone =>
      rw [hkept] at hnone
      exact absurd hnone hhash
  | @same block _ hsame hanswer =>
      have htold := hbacks.hashes _ block hanswer
      rw [hkept] at hsame
      obtain ⟨hlt, n, hn, hnhash⟩ := hs.hash block.hash hsame
      have hbound := h.cursor_lt hranged hlt
      rw [htold] at hnhash
      -- a hash of the old cursor or below is that of the new one
      obtain ⟨heq, hnow⟩ := hfix n s'.map.cursor (by omega) hbound hnhash
      rw [heq] at hnow
      have hle : s.map.cursor ≤ s'.map.cursor := hblended.cursor
      have hs' := (hs.same (h.still hranged (by omega))).agree hnow
        (hagree.mono (le_max_left _ _))
      exact hs'.guarded.rebase hbase
  | repaired _ _ _ _ hrepaired =>
      have hguarded := Guarded.blended hquiet hs.guarded hhash hblended rfl
        (hagree.feed a) (hrepaired.rewound hbacks.reads) hbase
      exact ⟨_, hguarded.mono le_rfl fun hne => hne hrepaired.cursorHash⟩

end Heals

/-! ## The interrupted round -/

/-- The answers of a pass that takes no hash from the new chain and no tip above
`tip`. -/
def Unmarked (tip : ℕ) (now : Moment) : (q : Request) → Answer q → Prop
  | .blockByNumber _ => fun answer =>
      ∀ block, answer = Except.ok block → block ≠ none ∧ ¬ now.IsNew
  | .blockNumber => fun answer => ∀ head, answer = Except.ok head → head ≤ tip
  | _ => fun _ => True

/-- The answers of a pass that are true of the new chain.  The hash need not be,
as long as it is not the one that is kept. -/
def Holds (B : Chain) (kept : Option B256) (_ : Moment) :
    (q : Request) → Answer q → Prop
  | .blockByNumber n => fun answer => ∀ block, answer = Except.ok (some block) →
      kept = some block.hash → block.hash = B.hash n
  | question => B.Tells question

section Answers

variable {A B : Chain} {cfg : FollowConfig} {low tip n : ℕ}
    {kept : Option B256} {first last : Moment} {s s' : Process}

theorem reads_of_holds :
    B.BacksReads (landingBetween A B low (Holds B kept) first last) := by
  rintro question answer ⟨now, -, -, -, hallowed⟩ hnot
  cases question with
  | blockByNumber n => exact absurd trivial hnot
  | _ => exact hallowed

theorem check_of_holds : B.BacksCheck
    (landingBetween A B low (Holds B s.watch.cursorHash) first last) s := by
  rintro block ⟨now, -, -, -, hallowed⟩ hkept
  exact hallowed block rfl hkept

theorem hashes_of_unmarked :
    A.BacksHashes (landingBetween A B low (Unmarked tip) first last) := by
  rintro m block ⟨now, -, -, htells, hallowed⟩
  cases now with
  | old now => exact (htells.1 block rfl).2
  | new now => exact absurd trivial (hallowed (some block) rfl).2

/-- After a moment of the new chain no block hash is given. -/
theorem no_hash_of_unmarked {now : ℕ} (m : ℕ) (block : Option Block) :
    ¬ landingBetween A B low (Unmarked tip) (.new now) last (.blockByNumber m)
      (Except.ok block : Except RpcError (Option Block)) := by
  rintro ⟨next, hfirst, -, -, hallowed⟩
  cases hfirst with
  | after hle => exact (hallowed block rfl).2 trivial

/-- The hash of the cursor stands the check. -/
theorem RepairStep.eq_of_unmarked
    (h : RepairStep (landingBetween A B low (Unmarked tip) first last) cfg s s')
    (hhash : s.watch.cursorHash = some (A.hash s.map.cursor)) : s' = s := by
  cases h with
  | final => rfl
  | unknown => rfl
  | same => rfl
  | @repaired known block _ _ hknown hanswer hne _ =>
      obtain ⟨now, -, -, -, hallowed⟩ := id hanswer
      obtain ⟨hsome, -⟩ := hallowed block rfl
      obtain ⟨b, rfl⟩ := Option.ne_none_iff_exists'.mp hsome
      rw [hhash] at hknown
      have htold := hashes_of_unmarked _ b hanswer
      rw [← htold] at hknown
      exact absurd hknown hne

theorem WatchStored.hash_of_unmarked {watch : ChainWatch}
    (htip : cfg.tip.isReorgable = true)
    (h : WatchStored (landingBetween A B low (Unmarked tip) first last) cfg s
      watch) : watch.cursorHash ≠ none := by
  rcases h with ⟨hfinal, -⟩ | ⟨-, block, ⟨now, -, -, -, hallowed⟩, rfl⟩
  · rw [htip] at hfinal
    cases hfinal
  · intro hnone
    apply (hallowed block rfl).1
    simpa [ChainWatch.trim] using hnone

theorem resolved_at {allowed : Moment → (q : Request) → Answer q → Prop}
    {checked resolved : Moment} {target : ℕ} (htip : cfg.tip = .confirmations n)
    (h : ResolvesTo (fun q answer =>
      (landing A B low).only allowed checked q answer resolved) cfg.tip target) :
    ∃ head, (checked = .old head ∨ checked = .new head) ∧ target = head - n ∧
      allowed checked .blockNumber (Except.ok head : Except RpcError ℕ) := by
  rw [htip] at h
  obtain ⟨told, ⟨⟨htells, -⟩, hallowed⟩, rfl⟩ := h
  cases checked with
  | old head =>
      have heq : told = head := htells.2 told rfl
      rw [heq] at hallowed ⊢
      exact ⟨head, .inl rfl, rfl, hallowed⟩
  | new head =>
      have heq : told = head := htells.2 told rfl
      rw [heq] at hallowed ⊢
      exact ⟨head, .inr rfl, rfl, hallowed⟩

theorem WatchStored.hash_from_old {watch : ChainWatch} {now : ℕ}
    (htip : cfg.tip.isReorgable = true) :
    ¬ WatchStored (landingBetween A B low (Unmarked tip) (.new now) last) cfg s
      watch := by
  rintro (⟨hfinal, -⟩ | ⟨-, block, hanswer, -⟩)
  · rw [htip] at hfinal
    cases hfinal
  · exact no_hash_of_unmarked _ block hanswer

end Answers

section Rounds

variable {A B : Chain} {cfg : FollowConfig} {updates : Bool} {start : Option ℕ}
    {low tip head head' n base limit target : ℕ} {a : Address}
    {s t s' : Process} {stages : Stages} {passed : Moment}
    {outcome : Except Failure Unit}

/-! ### A pass that takes no hash from the new chain -/

/-- While the old chain stands, the target is what its heads allow. -/
theorem target_of_old {allowed : Moment → (q : Request) → Answer q → Prop}
    {checked resolved : Moment} {last : ℕ} (htip : cfg.tip = .confirmations n)
    (hcheck : ((landing A B low).only allowed).Reaches (.old head) checked)
    (htold : ((landing A B low).only allowed).Reaches checked resolved)
    (hscan : ((landing A B low).only allowed).Reaches resolved (.old last))
    (htarget : ResolvesTo (fun q answer =>
      (landing A B low).only allowed checked q answer resolved) cfg.tip target) :
    head - n ≤ target := by
  obtain ⟨resolvedAt, rfl, -⟩ := (landing_reaches hscan).eq_old
  obtain ⟨checkedAt, rfl, -⟩ := (landing_reaches htold).eq_old
  obtain ⟨_, hhead, hle⟩ := (landing_reaches hcheck).eq_old
  cases hhead
  obtain ⟨now, hnow | hnow, rfl, -⟩ := resolved_at htip htarget
  · cases hnow
    omega
  · cases hnow

theorem Watched.heals_noticed (htip : cfg.tip = .confirmations n)
    (hfix : A.HashesFix B) (hquiet : A.feed.QuietAt a)
    (hagree : A.AgreesUpTo B
      (max base (max s.map.cursor (tip - n) - cfg.reorgWindow)))
    (hbase : base ≤ limit)
    (ht : Watched A cfg.reorgWindow start base a target t)
    (hhash : t.watch.cursorHash ≠ none)
    (hcursor : t.map.cursor ≤ max s.map.cursor (tip - n)) :
    Heals B cfg start a limit t := by
  have hreorgable : cfg.tip.isReorgable = true := by rw [htip]; rfl
  have hlevel : max base (t.map.cursor - cfg.reorgWindow) ≤
      max base (max s.map.cursor (tip - n) - cfg.reorgWindow) := by
    omega
  exact ht.heals hfix hreorgable hquiet (hagree.mono hlevel)
    (fun hnone => absurd hnone hhash) hbase

/-- What such a pass did before the chain was replaced is all on the old
chain. -/
theorem PassOk.heals_noticed (htip : cfg.tip = .confirmations n)
    (hfix : A.HashesFix B) (hquiet : A.feed.QuietAt a)
    (hstaged : StagedBy ((landing A B low).only (Unmarked tip))
      (landingBetween A B low (Unmarked tip)) (.old head) passed stages)
    (hagree : A.AgreesUpTo B
      (max base (max s.map.cursor (tip - n) - cfg.reorgWindow)))
    (hbase : base ≤ limit)
    (hhash : s.watch.cursorHash = some (A.hash s.map.cursor))
    (h : PassOk stages cfg updates s t)
    (hs : UnderHead (Watched A cfg.reorgWindow start base a) n head s) :
    Heals B cfg start a limit t := by
  have hreorgable : cfg.tip.isReorgable = true := by rw [htip]; rfl
  have hknown : s.watch.cursorHash ≠ none := by simp [hhash]
  obtain ⟨limit', hlimit', hs⟩ := hs
  have hstill : Heals B cfg start a limit s :=
    hs.heals_noticed htip hfix hquiet hagree hbase hknown (le_max_left _ _)
  obtain @⟨checked, resolved, scanned, hcheck, htold, hscan, -⟩ := hstaged
  obtain ⟨hrepair, htarget, hadvanced⟩ := h
  rw [hrepair.eq_of_unmarked hhash] at hadvanced
  rcases hadvanced.split landing_ranged with ⟨rfl, -⟩ | ⟨s₂, hto, htaken⟩
  · exact hstill
  · cases scanned with
    | old last =>
        have hlimit := target_of_old htip hcheck htold hscan htarget
        obtain ⟨told, -, rfl, hallowed⟩ := resolved_at htip htarget
        have hle : told ≤ tip := hallowed told rfl
        obtain ⟨ht, hcursor⟩ := (Watched.lasting hreorgable hquiet).advanced
          backs_old.reads hashes_of_unmarked (hlimit'.trans hlimit) hadvanced hs
        exact ht.heals_noticed htip hfix hquiet hagree hbase
          (htaken.watch.hash_of_unmarked hreorgable) (by omega)
    | new last =>
        exact absurd htaken.watch (WatchStored.hash_from_old hreorgable)

theorem PassFails.heals_noticed (htip : cfg.tip = .confirmations n)
    (hfix : A.HashesFix B) (hquiet : A.feed.QuietAt a)
    (hstaged : StagedBy ((landing A B low).only (Unmarked tip))
      (landingBetween A B low (Unmarked tip)) (.old head) passed stages)
    (hagree : A.AgreesUpTo B
      (max base (max s.map.cursor (tip - n) - cfg.reorgWindow)))
    (hbase : base ≤ limit)
    (hhash : s.watch.cursorHash = some (A.hash s.map.cursor))
    (h : PassFails stages cfg s t)
    (hs : UnderHead (Watched A cfg.reorgWindow start base a) n head s) :
    Heals B cfg start a limit t := by
  have hreorgable : cfg.tip.isReorgable = true := by rw [htip]; rfl
  have hknown : s.watch.cursorHash ≠ none := by simp [hhash]
  obtain ⟨limit', hlimit', hs⟩ := hs
  have hstill : Heals B cfg start a limit s :=
    hs.heals_noticed htip hfix hquiet hagree hbase hknown (le_max_left _ _)
  obtain @⟨checked, resolved, scanned, hcheck, htold, hscan, -⟩ := hstaged
  cases h with
  | checking => exact hstill
  | resolving hrepair =>
      rw [hrepair.eq_of_unmarked hhash]
      exact hstill
  | advancing hrepair htarget hfails =>
      rw [hrepair.eq_of_unmarked hhash] at hfails
      have hranged : Ranged
          (landingBetween A B low (Unmarked tip) resolved scanned) :=
        landing_ranged
      obtain ⟨told, -, heq, hallowed⟩ := resolved_at htip htarget
      have hle : told ≤ tip := hallowed told rfl
      obtain ⟨hlt, hor⟩ := hfails.split hranged
      have hcursor : t.map.cursor ≤ max s.map.cursor (tip - n) := by
        rcases hor with hscanned | ⟨s₂, hto, htaken⟩
        · have hto := (hscanned.cursor_le hranged hlt).2
          omega
        · rw [htaken.map, hto.reached]
          omega
      cases scanned with
      | old last =>
          have hlimit := target_of_old htip hcheck htold hscan htarget
          have ht := (Watched.lasting hreorgable hquiet).fails backs_old.reads
            hashes_of_unmarked (hlimit'.trans hlimit) hfails hs
          have hkept : t.watch.cursorHash ≠ none := by
            rcases hor with hscanned | ⟨s₂, -, htaken⟩
            · rw [hscanned.cursorHash]
              exact hknown
            · exact htaken.watch.hash_of_unmarked hreorgable
          exact ht.heals_noticed htip hfix hquiet hagree hbase hkept hcursor
      | new last =>
          rcases hor with hscanned | ⟨s₂, -, htaken⟩
          · have hlevel : max base (t.map.cursor - cfg.reorgWindow) ≤
                max base (max s.map.cursor (tip - n) - cfg.reorgWindow) := by
              omega
            exact hscanned.heals (fun _ _ => landing_tells) hs hfix hreorgable
              hquiet hknown (hagree.mono hlevel) hbase
          · exact absurd htaken.watch (WatchStored.hash_from_old hreorgable)

/-! ### A pass whose answers are true of the new chain -/

/-- Whatever the target is, it can be reached, and the last head left it
behind. -/
theorem guards_at_target {checked resolved : Moment}
    {allowed : Moment → (q : Request) → Answer q → Prop}
    (htip : cfg.tip = .confirmations n)
    (hcheck : ((landing A B low).only allowed).Reaches (.old head) checked)
    (hlast : checked.Leads low (.new head'))
    (htarget : ResolvesTo (fun q answer =>
      (landing A B low).only allowed checked q answer resolved) cfg.tip target)
    (hbase : base ≤ low - n) (hlimit : limit ≤ head - n)
    (hs : Guards B cfg.reorgWindow start base a limit s)
    (hadvance : ∀ {base limit}, limit ≤ target →
      Guards B cfg.reorgWindow start base a limit s →
        Guards B cfg.reorgWindow start base a target t) :
    ∃ base', Guards B cfg.reorgWindow start base' a (head' - n) t := by
  obtain ⟨now, hnow, rfl, -⟩ := resolved_at htip htarget
  rcases hnow with rfl | rfl
  · -- the tip was told by the old chain, perhaps above what the new one has
    obtain ⟨_, hhead, hle⟩ := (landing_reaches hcheck).eq_old
    cases hhead
    have hlow : low ≤ head' := by
      cases hlast with
      | lands hlow => exact hlow
    exact (hadvance (by omega) hs).rebase (by omega)
  · have hlow : low ≤ now := by
      cases landing_reaches hcheck with
      | lands hlow => exact hlow
    have hle : now ≤ head' := by
      cases hlast with
      | after hle => exact hle
    have hreached : base ≤ now - n := by omega
    obtain ⟨base', hs'⟩ := hs.rebase hreached
    exact ⟨base', (hadvance le_rfl hs').mono (by omega)⟩

/-- However the check comes out, the address is guarded on the new chain. -/
theorem Watched.checked {truth : (q : Request) → Answer q → Prop}
    (hreads : B.BacksReads truth) (hcheck : B.BacksCheck truth s)
    (htip : cfg.tip.isReorgable = true) (hfix : A.HashesFix B)
    (hA : A.feed.QuietAt a) (hB : B.feed.QuietAt a)
    (hagree : A.AgreesUpTo B (max base (s.map.cursor - cfg.reorgWindow)))
    (hunknown : s.watch.cursorHash = none →
      A.AgreesUpTo B s.map.cursor ∨ s.map.get a = none)
    (hs : Watched A cfg.reorgWindow start base a limit s) :
    ∃ start', ∀ s₁, RepairStep truth cfg s s₁ →
      Guards B cfg.reorgWindow start' base a limit s₁ := by
  by_cases habsent : s.watch.cursorHash = none ∧ s.map.get a = none
  · obtain ⟨hnone, hget⟩ := habsent
    exact ⟨_, fun s₁ hrepair =>
      (hs.start_over hnone hget).repair hreads hB hrepair⟩
  · refine ⟨start, fun s₁ hrepair => ?_⟩
    have hunknown' : s.watch.cursorHash = none →
        A.AgreesUpTo B s.map.cursor := by
      intro hnone
      exact (hunknown hnone).resolve_right fun hget => habsent ⟨hnone, hget⟩
    exact (hrepair.watched hreads hcheck hfix htip hA hagree hunknown'
      hs).guarded

theorem Watched.heals_new (htip : cfg.tip.isReorgable = true)
    (hfix : A.HashesFix B) (hA : A.feed.QuietAt a) (hB : B.feed.QuietAt a)
    (hagree : A.AgreesUpTo B (max base (s.map.cursor - cfg.reorgWindow)))
    (hunknown : s.watch.cursorHash = none →
      A.AgreesUpTo B s.map.cursor ∨ s.map.get a = none)
    (hbase : base ≤ target)
    (hs : Watched A cfg.reorgWindow start base a limit s) :
    ∃ start', Heals B cfg start' a target s := by
  by_cases habsent : s.watch.cursorHash = none ∧ s.map.get a = none
  · obtain ⟨hnone, hget⟩ := habsent
    obtain ⟨base', hs'⟩ := (hs.start_over hnone hget).rebase hbase
    exact ⟨_, hs'.heals hB⟩
  · have hunknown' : s.watch.cursorHash = none →
        A.AgreesUpTo B s.map.cursor := by
      intro hnone
      exact (hunknown hnone).resolve_right fun hget => habsent ⟨hnone, hget⟩
    exact ⟨start, hs.heals hfix htip hA hagree hunknown' hbase⟩

/-- What the pass reads is what it would have read from the new chain alone. -/
theorem Round.heals_consistent (htip : cfg.tip = .confirmations n)
    (hfix : A.HashesFix B) (hA : A.feed.QuietAt a) (hB : B.feed.QuietAt a)
    (hstaged : StagedBy
      ((landing A B low).only (Holds B s.watch.cursorHash))
      (landingBetween A B low (Holds B s.watch.cursorHash)) (.old head) passed
      stages)
    (hpassed : passed.Leads low (.new head'))
    (hagree : A.AgreesUpTo B (max base (s.map.cursor - cfg.reorgWindow)))
    (hunknown : s.watch.cursorHash = none →
      A.AgreesUpTo B s.map.cursor ∨ s.map.get a = none)
    (hbase : base ≤ low - n)
    (h : Round stages cfg updates s outcome s')
    (hs : UnderHead (Watched A cfg.reorgWindow start base a) n head s) :
    ∃ start', Heals B cfg start' a (head' - n) s' := by
  have hreorgable : cfg.tip.isReorgable = true := by rw [htip]; rfl
  obtain ⟨limit, hlimit, hs⟩ := hs
  obtain @⟨checked, resolved, scanned, hcheck, htold, hscan, hstore⟩ := hstaged
  have hresolved : checked.Leads low (.new head') :=
    (landing_reaches htold).trans ((landing_reaches hscan).trans
      ((landing_reaches hstore).trans hpassed))
  have hbase' : base ≤ head' - n := by
    have hlow : low ≤ head' := by
      cases (landing_reaches hcheck).trans hresolved with
      | lands hlow => exact hlow
    omega
  rcases h with ⟨-, s₁, ⟨hrepair, htarget, hadvanced⟩, hs'⟩ |
    ⟨chain, -, s₁, hfails, -, hs'⟩
  · obtain ⟨start', hchecked⟩ := hs.checked reads_of_holds check_of_holds
      hreorgable hfix hA hB hagree hunknown
    obtain ⟨base', ht⟩ := guards_at_target htip hcheck hresolved htarget hbase
      hlimit (hchecked _ hrepair) fun hle hbefore =>
        ((Guards.lasting hreorgable hB).advanced reads_of_holds trivial hle
          hadvanced hbefore).1
    rw [hs']
    exact ⟨start', (ht.heals hB).congr rfl rfl⟩
  · have hheals : ∃ start', Heals B cfg start' a (head' - n) s₁ := by
      cases hfails with
      | checking =>
          exact hs.heals_new hreorgable hfix hA hB hagree hunknown hbase'
      | resolving hrepair =>
          obtain ⟨start', hchecked⟩ := hs.checked reads_of_holds check_of_holds
            hreorgable hfix hA hB hagree hunknown
          obtain ⟨base', ht⟩ := (hchecked _ hrepair).rebase hbase'
          exact ⟨start', ht.heals hB⟩
      | advancing hrepair htarget hfails =>
          obtain ⟨start', hchecked⟩ := hs.checked reads_of_holds check_of_holds
            hreorgable hfix hA hB hagree hunknown
          obtain ⟨base', ht⟩ := guards_at_target htip hcheck hresolved htarget
            hbase hlimit (hchecked _ hrepair) fun hle hbefore =>
              (Guards.lasting hreorgable hB).fails reads_of_holds trivial hle
                hfails hbefore
          exact ⟨start', ht.heals hB⟩
    obtain ⟨start', hheals⟩ := hheals
    rw [hs']
    exact ⟨start', hheals.congr rfl rfl⟩

/-! ### Rounds on the new chain -/

theorem Round.heals {X : Chain} {passed : ℕ}
    (htip : cfg.tip = .confirmations n) (hquiet : X.feed.QuietAt a)
    (hstaged : StagedBy X.growing X.SaysBetween head passed stages)
    (hpassed : passed ≤ head') (h : Round stages cfg updates s outcome s')
    (hs : Heals X cfg start a (head - n) s) :
    Heals X cfg start a (head' - n) s' ∧ (outcome = .ok () →
      Current X.feed a s'.follower ∧ Known X.feed blank start a s'.follower) := by
  have hreorgable : cfg.tip.isReorgable = true := by rw [htip]; rfl
  obtain @⟨checked, resolved, scanned, hcheck, htold, hscan, hstore⟩ := hstaged
  have hchecked := Chain.growing_reaches hcheck
  have hall := Chain.growing_reaches (htold.trans (hscan.trans hstore))
  have hguards : ∀ {s₁}, RepairStep (X.SaysBetween head checked) cfg s s₁ →
      ∃ base, UnderHead (Guards X cfg.reorgWindow start base a) n head s₁ := by
    intro s₁ hrepair
    obtain ⟨base, hs₁⟩ := hs _ _ (X.backs_saysBetween head checked) hrepair
    exact ⟨base, _, le_rfl, hs₁⟩
  rcases h with ⟨-, s₁, ⟨hrepair, htarget, hadvanced⟩, hs'⟩ |
    ⟨chain, hfailed, s₁, hfails, -, hs'⟩
  · obtain ⟨base, hs₁⟩ := hguards hrepair
    obtain ⟨⟨limit, hlimit, ht⟩, hrest⟩ :=
      (Guards.lasting hreorgable hquiet).advanced_growing (fun _ _ => trivial)
        htip hchecked hscan hstore htarget hadvanced hs₁
    have hright := Guards.right hrest
    rw [hs']
    refine ⟨((ht.mono (by omega)).heals hquiet).congr rfl rfl, fun _ => hright⟩
  · have hheals : Heals X cfg start a (head' - n) s₁ := by
      cases hfails with
      | checking => exact hs.mono (by omega)
      | resolving hrepair =>
          obtain ⟨base, limit, hlimit, hs₁⟩ := hguards hrepair
          exact (hs₁.mono (by omega)).heals hquiet
      | advancing hrepair htarget hfails =>
          obtain ⟨base, hs₁⟩ := hguards hrepair
          obtain ⟨limit, hlimit, ht⟩ :=
            (Guards.lasting hreorgable hquiet).fails_growing
              (fun _ _ => trivial) htip hchecked hscan hstore htarget hfails hs₁
          exact (ht.mono (by omega)).heals hquiet
    rw [hs']
    refine ⟨hheals.congr rfl rfl, fun hok => ?_⟩
    rw [hfailed] at hok
    cases hok

theorem FollowRun.heals {X : Chain} {rounds : List RoundRecord}
    (htip : cfg.tip = .confirmations n) (hquiet : X.feed.QuietAt a)
    (h : FollowRun X.growing cfg updates head s rounds head' s')
    (hs : Heals X cfg start a (head - n) s) :
    Heals X cfg start a (head' - n) s' ∧
      ∀ r ∈ rounds, r.outcome = .ok () →
        Current X.feed a r.after.follower ∧
          Known X.feed blank start a r.after.follower := by
  induction h with
  | start => exact ⟨hs, by simp⟩
  | round hrun hround ih =>
      obtain ⟨hbefore, hrounds⟩ := ih
      obtain ⟨passed, stages, hstaged, hafter, hround'⟩ :=
        (meets_followRound Chain.growing_explains).of_ok hround
      obtain ⟨hheals, hright⟩ := hround'.heals htip hquiet hstaged
        (Chain.growing_reaches hafter) hbefore
      refine ⟨hheals, fun r hr => ?_⟩
      rcases List.mem_append.mp hr with hr | hr
      · exact hrounds r hr
      · rw [List.mem_singleton] at hr
        rw [hr]
        exact hright

end Rounds

/-! ## Runs with one reorg -/

/-- A process that starts without a hash, with what the chain has for the
address; an address that is not in the map waits for nothing. -/
def StartsRight (X : Chain) (base : ℕ) (a : Address) (s : Process) : Prop :=
  s.watch = default ∧
    ((s.map.get a = none ∧ base = 0) ∨
      (base = s.map.cursor ∧ ∀ e, s.map.get a = some e →
        e.reading.balances = X.balances a s.map.cursor))

/-- The ways the chain may be replaced so that the next check can tell: between
two rounds, in a round that gets no hash from the new chain, or in one whose
answers are all true of the new chain. -/
inductive Replaced (A B : Chain) (cfg : FollowConfig) (updates : Bool)
    (n low base : ℕ) (a : Address) (head : ℕ) (s : Process) :
    ℕ → Process → Prop
  | between {head' : ℕ} (hlow : low ≤ head')
      (hagree : A.AgreesUpTo B (max base (s.map.cursor - cfg.reorgWindow)))
      (hunknown : s.watch.cursorHash = none →
        A.AgreesUpTo B s.map.cursor ∨ s.map.get a = none) :
      Replaced A B cfg updates n low base a head s head' s
  | unmarked {tip head' : ℕ} {outcome : Except Failure Unit} {s' : Process}
      (hhash : s.watch.cursorHash = some (A.hash s.map.cursor))
      (hagree : A.AgreesUpTo B
        (max base (max s.map.cursor (tip - n) - cfg.reorgWindow)))
      (hround : (followRound cfg updates).Runs
        ((landing A B low).only (Unmarked tip)) (.old head) s (.new head')
        (.ok outcome) s') :
      Replaced A B cfg updates n low base a head s head' s'
  | holds {head' : ℕ} {outcome : Except Failure Unit} {s' : Process}
      (hagree : A.AgreesUpTo B (max base (s.map.cursor - cfg.reorgWindow)))
      (hunknown : s.watch.cursorHash = none →
        A.AgreesUpTo B s.map.cursor ∨ s.map.get a = none)
      (hround : (followRound cfg updates).Runs
        ((landing A B low).only (Holds B s.watch.cursorHash)) (.old head) s
        (.new head') (.ok outcome) s') :
      Replaced A B cfg updates n low base a head s head' s'

section Runs

variable {A B : Chain} {cfg : FollowConfig} {updates : Bool}
    {start : Option ℕ} {low head₀ head head' final n base limit : ℕ}
    {a : Address} {s₀ s s' s'' : Process} {earlier later : List RoundRecord}

theorem Current.holds {X : Chain} (h : Current X.feed a s.follower) :
    ∀ e, s.map.get a = some e →
      e.reading.balances = X.balances a s.map.cursor := by
  intro e he
  apply h
  show s.map.holding a = _
  rw [BalanceMap.holding, he]
  rfl

theorem StartsRight.watched {window : ℕ} (h : StartsRight A base a s) :
    Watched A window (some s.map.cursor) base a limit s := by
  obtain ⟨hwatch, hor⟩ := h
  have hnone : s.watch.cursorHash = none := by rw [hwatch]; rfl
  have hcurrent : Current A.feed a s.follower := by
    intro value hvalue
    change s.map.holding a = some value at hvalue
    unfold BalanceMap.holding at hvalue
    obtain ⟨e, he, rfl⟩ := Option.map_eq_some_iff.mp hvalue
    rcases hor with ⟨habsent, -⟩ | ⟨-, hright⟩
    · rw [habsent] at he
      cases he
    · exact hright e he
  have hknown : Known A.feed blank (some s.map.cursor) a s.follower :=
    fun hin => absurd (hin _ rfl) (Feed.not_touchedIn_self _ _ le_rfl)
  refine ⟨Guarded.unarmed ⟨hcurrent, hknown⟩ (fun h => h hnone) ?_ ?_,
    .of_none hnone⟩
  · rcases hor with ⟨habsent, -⟩ | ⟨hbase, -⟩
    · refine .inr ⟨?_, s.map.cursor, rfl, le_rfl⟩
      show s.map.holding a = none
      rw [BalanceMap.holding, habsent]
      rfl
    · exact .inl hbase.ge
  · intro hlt
    have hcursor : s.map.cursor < base := hlt
    rcases hor with ⟨-, hbase⟩ | ⟨hbase, -⟩
    · omega
    · omega

/-- However the chain was replaced, the next check on the new one repairs what
is left of the old one. -/
theorem Replaced.heals (htip : cfg.tip = .confirmations n)
    (hfix : A.HashesFix B) (hA : A.feed.QuietAt a) (hB : B.feed.QuietAt a)
    (hbase : base ≤ low - n)
    (hs : UnderHead (Watched A cfg.reorgWindow start base a) n head s)
    (h : Replaced A B cfg updates n low base a head s head' s') :
    ∃ start', Heals B cfg start' a (head' - n) s' := by
  have hreorgable : cfg.tip.isReorgable = true := by rw [htip]; rfl
  have hlanded : ∀ {allowed outcome},
      (followRound cfg updates).Runs ((landing A B low).only allowed)
        (.old head) s (.new head') outcome s' → base ≤ head' - n := by
    intro allowed outcome hround
    cases landing_reaches hround.reaches with
    | lands hlow => omega
  cases h with
  | between hlow hagree hunknown =>
      obtain ⟨limit, -, hs⟩ := hs
      exact hs.heals_new hreorgable hfix hA hB hagree hunknown (by omega)
  | unmarked hhash hagree hround =>
      have hbase' := hlanded hround
      obtain ⟨passed, stages, hstaged, -, hround'⟩ :=
        (meets_followRound landing_explains).of_ok hround
      rcases hround' with ⟨-, t, hok, hs'⟩ | ⟨chain, -, t, hfails, -, hs'⟩
      · have ht := hok.heals_noticed htip hfix hA hstaged hagree hbase' hhash hs
        rw [hs']
        exact ⟨start, ht.congr rfl rfl⟩
      · have ht := hfails.heals_noticed htip hfix hA hstaged hagree hbase'
          hhash hs
        rw [hs']
        exact ⟨start, ht.congr rfl rfl⟩
  | holds hagree hunknown hround =>
      obtain ⟨passed, stages, hstaged, hafter, hround'⟩ :=
        (meets_followRound landing_explains).of_ok hround
      exact hround'.heals_consistent htip hfix hA hB hstaged
        (landing_reaches hafter) hagree hunknown hbase hs

/-- After a reorg that the next check can tell, every round that returns `Ok`
leaves the balances of the new chain in the map. -/
theorem replaced_run_holds_balances (htip : cfg.tip = .confirmations n)
    (hfix : A.HashesFix B) (hA : A.feed.QuietAt a) (hB : B.feed.QuietAt a)
    (hbase : base ≤ low - n) (hstart : StartsRight A base a s₀)
    (hbefore : FollowRun A.growing cfg updates head₀ s₀ earlier head s)
    (hreplaced : Replaced A B cfg updates n low base a head s head' s')
    (hafter : FollowRun B.growing cfg updates head' s' later final s'') :
    ∀ r ∈ later, r.outcome = .ok () → ∀ e, r.after.map.get a = some e →
      e.reading.balances = B.balances a r.after.map.cursor := by
  have hreorgable : cfg.tip.isReorgable = true := by rw [htip]; rfl
  obtain ⟨hs, -⟩ := (Watched.lasting hreorgable hA).followRun
    (fun _ _ => (Chain.backs_saysBetween _ _).hashes) htip hbefore
    ⟨head₀ - n, le_rfl, hstart.watched⟩
  obtain ⟨start, hheals⟩ := hreplaced.heals htip hfix hA hB hbase hs
  intro r hr hok
  exact Current.holds ((hafter.heals htip hB hheals).2 r hr hok).1

end Runs

/-- No reorg inside a round would need a condition: wherever in the round it
lands, the rounds on the new chain end with its balances. -/
def RepairsAnyLanding (A B : Chain) (cfg : FollowConfig) (updates : Bool)
    (a : Address) : Prop :=
  ∀ {low head₀ head head' final : ℕ} {s₀ s s' s'' : Process}
    {earlier later : List RoundRecord} {outcome : Except Failure Unit},
    StartsRight A 0 a s₀ →
    FollowRun A.growing cfg updates head₀ s₀ earlier head s →
    A.AgreesUpTo B (s.map.cursor - cfg.reorgWindow) →
    (followRound cfg updates).Runs (landing A B low) (.old head) s (.new head')
      (.ok outcome) s' →
    FollowRun B.growing cfg updates head' s' later final s'' →
    ∀ r ∈ later, r.outcome = .ok () → ∀ e, r.after.map.get a = some e →
      e.reading.balances = B.balances a r.after.map.cursor

/-! ### A transfer that is replaced while it is read -/

namespace ReplacedTransfer

/-- Where the provider stands in the round. -/
inductive Landing
  | waiting
  | grown
  | replaced

def Landing.moment : Landing → Moment
  | waiting => .old 1
  | grown => .old 2
  | replaced => .new 2

/-- The old chain gets a block when a hash is asked and is replaced when balances
were read.  The new one gives block hashes or not. -/
def respond (hashes : Bool) :
    Landing → (q : Request) → Answer q × Landing
  | .waiting, .blockByNumber n =>
      (if n ≤ 1 then (first.respond 1 3 () (.blockByNumber n)).1
        else Except.error ⟨"unknown block"⟩, .grown)
  | .waiting, question => ((first.respond 1 3 () question).1, .waiting)
  | .grown, .blockByNumber n =>
      (if n ≤ 2 then (first.respond 2 3 () (.blockByNumber n)).1
        else Except.error ⟨"unknown block"⟩, .grown)
  | .grown, .aggregate3 contract calls block =>
      ((first.respond 2 3 () (.aggregate3 contract calls block)).1, .replaced)
  | .grown, question => ((first.respond 2 3 () question).1, .grown)
  | .replaced, .blockByNumber n =>
      (if hashes then (second.respond 2 3 () (.blockByNumber n)).1
        else Except.error ⟨"timeout"⟩, .replaced)
  | .replaced, question => ((second.respond 2 3 () question).1, .replaced)

def before : Process :=
  ((followRound config true).exec (first.respond 1 3) () start).1.2

/-- The round in which the chain is replaced. -/
def landed (hashes : Bool) :
    (Except Failure (Except Failure Unit) × Process) × Landing :=
  (followRound config true).exec (respond hashes) .waiting before

def mixed (hashes : Bool) : Process :=
  (landed hashes).1.2

def after (hashes : Bool) : Process :=
  ((followRound config true).exec (second.respond 2 3) () (mixed hashes)).1.2

theorem says_error (X : Chain) (head n : ℕ) (e : RpcError) :
    X.Says head (.blockByNumber n)
      (Except.error e : Except RpcError (Option Block)) := by
  constructor
  · intro block hblock
    cases hblock
  · intro block hblock
    cases hblock

theorem landing_respond (hashes : Bool) (now : Landing) (question : Request) :
    landing first second 2 now.moment question (respond hashes now question).1
      (respond hashes now question).2.moment := by
  have hfirst : ∀ head, first.Says head question
      (first.respond head 3 () question).1 := fun head =>
    first.says_respond (balance_lt _ _) head 3 () question
  have hsecond := second.says_respond (balance_lt _ _) 2 3 () question
  cases now with
  | waiting =>
      cases question with
      | blockByNumber n =>
          refine ⟨?_, .before (Nat.le_succ 1)⟩
          by_cases hle : n ≤ 1
          · simp only [respond, hle]
            exact hfirst 1
          · simp only [respond, hle]
            exact says_error first 1 n _
      | _ => exact ⟨hfirst 1, .before le_rfl⟩
  | grown =>
      cases question with
      | blockByNumber n =>
          refine ⟨?_, .before le_rfl⟩
          by_cases hle : n ≤ 2
          · simp only [respond, hle]
            exact hfirst 2
          · simp only [respond, hle]
            exact says_error first 2 n _
      | aggregate3 contract calls block => exact ⟨hfirst 2, .lands le_rfl⟩
      | _ => exact ⟨hfirst 2, .before le_rfl⟩
  | replaced =>
      cases question with
      | blockByNumber n =>
          refine ⟨?_, .after le_rfl⟩
          cases hashes with
          | true => exact hsecond
          | false => exact says_error second 2 n _
      | _ => exact ⟨hsecond, .after le_rfl⟩

/-- Without hashes of the new chain the round takes none from it. -/
theorem unmarked_respond (now : Landing) (question : Request) :
    Unmarked 2 now.moment question (respond false now question).1 := by
  cases question with
  | blockByNumber n =>
      intro block hblock
      cases now with
      | waiting =>
          by_cases hle : n ≤ 1
          · simp only [respond, hle, if_true, Chain.respond] at hblock
            cases hblock
            simp [Moment.IsNew, Landing.moment]
          · simp only [respond, hle] at hblock
            cases hblock
      | grown =>
          by_cases hle : n ≤ 2
          · simp only [respond, hle, if_true, Chain.respond] at hblock
            cases hblock
            simp [Moment.IsNew, Landing.moment]
          · simp only [respond, hle] at hblock
            cases hblock
      | replaced => cases hblock
  | blockNumber =>
      intro head hhead
      cases now with
      | waiting => cases hhead; decide
      | grown => cases hhead; decide
      | replaced => cases hhead; decide
  | _ => trivial

theorem before_ok :
    ((followRound config true).exec (first.respond 1 3) () start).1.1 =
      .ok (.ok ()) := by
  decide +kernel

theorem after_ok (hashes : Bool) :
    ((followRound config true).exec (second.respond 2 3) ()
      (mixed hashes)).1.1 = .ok (.ok ()) := by
  cases hashes with
  | true => decide +kernel
  | false => decide +kernel

theorem landed_returns (hashes : Bool) :
    ∃ outcome, (landed hashes).1.1 = .ok outcome := by
  cases hashes with
  | true => exact ⟨.ok (), by decide +kernel⟩
  | false => exact ⟨.error (.err ["timeout"]), by decide +kernel⟩

theorem landed_final (hashes : Bool) : (landed hashes).2.moment = .new 2 := by
  cases hashes with
  | true => rfl
  | false => rfl

theorem run_before : FollowRun first.growing config true 1 start
    [⟨start, .ok (), before⟩] 1 before :=
  .round .start
    (first.runs_growing (followRound config true) start (balance_lt _ _)
      before_ok)

theorem run_after (hashes : Bool) : FollowRun second.growing config true 2
    (mixed hashes) [⟨mixed hashes, .ok (), after hashes⟩] 2 (after hashes) :=
  .round .start
    (second.runs_growing (followRound config true) (mixed hashes)
      (balance_lt _ _) (after_ok hashes))

theorem kept : ((after true).map.get holder).map
    (fun e => e.reading.balances) = some (5, 0) := by
  decide +kernel

theorem starts_right (a : Address) : StartsRight first 0 a start :=
  ⟨rfl, .inl ⟨rfl, rfl⟩⟩

/-- The hash comes from the new chain and the holder's 5 from the old one: no
later check sees it. -/
theorem reorg_masked_by_new_hash :
    first.HashesFix second ∧ first.Quiet ∧ second.Quiet ∧
      ¬ RepairsAnyLanding first second config true holder := by
  refine ⟨fix _ (.inl rfl) _ (.inr rfl), quiet (by decide) _,
    quiet (by decide) _, fun hrepairs => ?_⟩
  obtain ⟨outcome, houtcome⟩ := landed_returns true
  have hround : (followRound config true).Runs (landing first second 2)
      (.old 1) before (landed true).2.moment (landed true).1.1 (mixed true) :=
    Program.runs_exec Landing.moment (followRound config true) .waiting before
      (landing_respond true)
  rw [landed_final, houtcome] at hround
  have hshallow : before.map.cursor - config.reorgWindow ≤ 1 := by
    decide +kernel
  have hright := hrepairs (starts_right holder) run_before
    (agrees.mono hshallow) hround (run_after true)
    ⟨mixed true, .ok (), after true⟩ List.mem_cons_self rfl
  dsimp only at hright
  obtain ⟨e, he, hheld⟩ := Option.map_eq_some_iff.mp kept
  have hcursor : (after true).map.cursor = 2 := by decide +kernel
  have hzero : second.balances holder 2 = (0, 0) := by decide
  have hnothing := hright e he
  rw [hcursor, hzero, hheld] at hnothing
  exact absurd hnothing (by decide)

/-- When the new chain gives no hash the next round repairs it. -/
theorem replaced_run_holds_balances_unmarked :
    (after false).map.cursor = 2 ∧
      ∀ e, (after false).map.get holder = some e →
        e.reading.balances = (0, 0) := by
  obtain ⟨outcome, houtcome⟩ := landed_returns false
  have hround : (followRound config true).Runs
      ((landing first second 2).only (Unmarked 2)) (.old 1) before
      (landed false).2.moment (landed false).1.1 (mixed false) :=
    Program.runs_exec Landing.moment (followRound config true) .waiting before
      fun now question => ⟨landing_respond false now question,
        unmarked_respond now question⟩
  rw [landed_final, houtcome] at hround
  have hknown : before.watch.cursorHash =
      some (first.hash before.map.cursor) := by
    decide +kernel
  have hlevel : max 0 (max before.map.cursor (2 - 0) - config.reorgWindow) ≤
      1 := by
    decide +kernel
  have hholder : holder ≠ Address.zero := by decide
  have hkeeper : keeper ≠ Address.zero := by decide
  have hright := replaced_run_holds_balances rfl
    (fix _ (.inl rfl) _ (.inr rfl))
    ((quiet hholder _).quietAt hholder) ((quiet hkeeper _).quietAt hholder)
    (Nat.zero_le _) (starts_right holder)
    run_before (.unmarked hknown (agrees.mono hlevel) hround)
    (run_after false) ⟨mixed false, .ok (), after false⟩ List.mem_cons_self rfl
  dsimp only at hright
  have hcursor : (after false).map.cursor = 2 := by decide +kernel
  have hzero : second.balances holder 2 = (0, 0) := by decide
  rw [hcursor, hzero] at hright
  exact ⟨hcursor, hright⟩

end ReplacedTransfer

end UsdtPir
