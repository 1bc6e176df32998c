import UsdtPir.ChangeSet
import UsdtPir.FaithfulProvider

/-!
# The map is the chain's balances

On a chain that does not reorg, with balances that change only at watched
events, every address touched since the start block has its balances at the
cursor in the map and no other address is there.  This survives failed
attempts, saved snapshots and restarts from them.
-/

namespace UsdtPir

open Interaction
open Program
open Following

namespace Chain

variable (X : Chain)

/-- Block `b` has a log of `token` that names `a` and is not inert, or it has
a USDT issue or redeem and `a` owns USDT at its end. -/
def MovesToken (token : Address) (b : ℕ) (a : Address) : Prop :=
  (∃ log ∈ X.logs b, log.address = token ∧ Names log a) ∨
    ((∃ log ∈ X.logs b, isSupplyEvent log = true) ∧ X.owner b = a)

/-- Balances change only at watched events. -/
def Quiet : Prop :=
  ∀ token ∈ TOKENS, ∀ a b,
    X.balance token a (b + 1) ≠ X.balance token a b →
      X.MovesToken token (b + 1) a

/-- Some block in `lo..=hi` touches `a`. -/
def TouchedWithin (lo hi : ℕ) (a : Address) : Prop :=
  ∃ b, lo ≤ b ∧ b ≤ hi ∧ ∃ token ∈ TOKENS, X.MovesToken token b a

end Chain

theorem filter_selects_iff {log : Log} {lo hi : ℕ} :
    (filter lo hi).selects log = true ↔ log.address ∈ TOKENS ∧
      ∃ topic ∈ WATCHED_TOPICS, log.topics.head? = some topic := by
  show (decide (log.address ∈ TOKENS) &&
    log.topics.head?.any fun topic => decide (topic ∈ WATCHED_TOPICS)) = true ↔ _
  cases hhead : log.topics.head? with
  | none => simp
  | some topic => simp

theorem Names.watched_topic {log : Log} {a : Address} (h : Names log a) :
    ∃ topic ∈ WATCHED_TOPICS, log.topics.head? = some topic := by
  rcases h with ⟨htransfer, -⟩ | ⟨hdestroyed, -⟩
  · simp only [isTransfer, Bool.and_eq_true, beq_iff_eq] at htransfer
    exact ⟨TRANSFER, by decide, htransfer.1.1⟩
  · simp only [isDestroyedBlackFunds, beq_iff_eq] at hdestroyed
    exact ⟨DESTROYED_BLACK_FUNDS, by decide, hdestroyed⟩

theorem isSupplyEvent_selects {log : Log} (h : isSupplyEvent log = true)
    (lo hi : ℕ) : (filter lo hi).selects log = true := by
  simp only [isSupplyEvent, Bool.and_eq_true, beq_iff_eq] at h
  obtain ⟨htopic, haddress⟩ := h
  have hsub : ∀ topic ∈ SUPPLY_TOPICS, topic ∈ WATCHED_TOPICS := by decide
  have htoken : USDT ∈ TOKENS := by decide
  rw [filter_selects_iff, haddress]
  cases hhead : log.topics.head? with
  | none => simp [hhead] at htopic
  | some topic =>
      simp only [hhead, Option.any_some, decide_eq_true_eq] at htopic
      exact ⟨htoken, topic, hsub topic htopic, rfl⟩

section Chain

variable {X : Chain} {head start : ℕ}

/-- For the chain, the addresses the service looks up in a block are the ones
the block touches, but for the zero address in logs. -/
theorem touches_iff {a : Address} {b : ℕ} (ha : a ≠ Address.zero) :
    X.Touches b a ↔ ∃ token ∈ TOKENS, X.MovesToken token b a := by
  have hsupply : (∃ log ∈ X.watched b, isSupplyEvent log = true) ↔
      ∃ log ∈ X.logs b, isSupplyEvent log = true := by
    constructor
    · rintro ⟨log, hlog, hevent⟩
      exact ⟨log, List.mem_of_mem_filter hlog, hevent⟩
    · rintro ⟨log, hlog, hevent⟩
      exact ⟨log, List.mem_filter.mpr
        ⟨hlog, isSupplyEvent_selects hevent b b⟩, hevent⟩
  have hnamed : (∃ log ∈ X.watched b, a ∈ namedBy log) ↔
      ∃ token ∈ TOKENS, ∃ log ∈ X.logs b,
        log.address = token ∧ Names log a := by
    constructor
    · rintro ⟨log, hlog, hin⟩
      have hselects := filter_selects_iff.mp (List.of_mem_filter hlog)
      exact ⟨log.address, hselects.1, log, List.mem_of_mem_filter hlog, rfl,
        (mem_namedBy_iff.mp hin).1⟩
    · rintro ⟨token, htoken, log, hlog, rfl, hnames⟩
      have hselects : (filter b b).selects log = true :=
        filter_selects_iff.mpr ⟨htoken, hnames.watched_topic⟩
      exact ⟨log, List.mem_filter.mpr ⟨hlog, hselects⟩,
        mem_namedBy_iff.mpr ⟨hnames, ha⟩⟩
  have htoken : USDT ∈ TOKENS := by decide
  unfold Chain.Touches Chain.MovesToken
  rw [hsupply, hnamed]
  constructor
  · rintro (⟨token, hmem, hlog⟩ | hevent)
    · exact ⟨token, hmem, .inl hlog⟩
    · exact ⟨USDT, htoken, .inr hevent⟩
  · rintro ⟨token, hmem, hlog | hevent⟩
    · exact .inl ⟨token, hmem, hlog⟩
    · exact .inr hevent

theorem Chain.Touches.moves {a : Address} {b : ℕ} (h : X.Touches b a) :
    ∃ token ∈ TOKENS, X.MovesToken token b a := by
  by_cases ha : a = Address.zero
  · subst ha
    rcases h with ⟨log, -, hnamed⟩ | ⟨⟨log, hlog, hevent⟩, howner⟩
    · exact absurd rfl (mem_namedBy_iff.mp hnamed).2
    · exact ⟨USDT, by decide,
        .inr ⟨⟨log, List.mem_of_mem_filter hlog, hevent⟩, howner⟩⟩
  · exact (touches_iff ha).mp h

theorem Chain.Quiet.quietAt (h : X.Quiet) {a : Address}
    (ha : a ≠ Address.zero) : X.feed.QuietAt a := by
  intro b huntouched
  have hbalance : ∀ token ∈ TOKENS,
      X.balance token a (b + 1) = X.balance token a b := by
    intro token htoken
    by_contra hne
    exact huntouched ((touches_iff ha).mpr
      ⟨token, htoken, h token htoken a b hne⟩)
  have husdt := hbalance USDT (by decide)
  have husdc := hbalance USDC (by decide)
  show X.balances a (b + 1) = X.balances a b
  rw [Chain.balances, Chain.balances, husdt, husdc]

end Chain

/-! ## Histories of one snapshot -/

/-- The maps and snapshots that sync attempts can leave behind, from the empty
map on: attempts that succeed, fail or are cut off, saves that work or do not,
and restarts from what is on disk. -/
inductive SyncHistory (X : Chain) (start : ℕ) :
    BalanceMap → Option BalanceMap → Prop
  | new : SyncHistory X start (BalanceMap.new (start - 1)) none
  | attempt {s s' : Process} {cfg : FollowConfig} {target head : ℕ}
      {outcome : Except Failure Unit}
      (hbefore : SyncHistory X start s.map s.saved)
      (hrun : (syncInto cfg (s.map.cursor + 1) target).Runs
        (Environment.of (X.Says head)) () s () outcome s') :
      SyncHistory X start s'.map s'.saved
  | save {s s' : Process} {head : ℕ}
      {outcome : Except Failure (Except IoError Unit)}
      (hbefore : SyncHistory X start s.map s.saved)
      (hrun : saveMap.Runs (Environment.of (X.Says head)) () s () outcome
        s') :
      SyncHistory X start s'.map s'.saved
  | restart {map : BalanceMap} {saved : Option BalanceMap}
      (hbefore : SyncHistory X start map saved) :
      SyncHistory X start (saved.getD (BalanceMap.new (start - 1))) saved

/-- The map holds the balances at its cursor of what was touched after
`origin`, and nothing that was not. -/
structure Mirrors (X : Chain) (origin : ℕ) (map : BalanceMap) : Prop where
  origin_le : origin ≤ map.cursor
  known : ∀ a, a ≠ Address.zero → X.feed.TouchedIn a origin map.cursor →
    map.holding a = stored blank (X.balances a map.cursor)
  only : ∀ a, ¬ X.feed.TouchedIn a origin map.cursor → map.holding a = none

section History

variable {X : Chain} {truth : (q : Request) → Answer q → Prop}
    {start origin : ℕ} {s s' : Process}

theorem mirrors_new : Mirrors X origin (BalanceMap.new origin) where
  origin_le := le_rfl
  known a _ htouched :=
    absurd htouched (Feed.not_touchedIn_self X.feed a le_rfl)
  only a _ := by
    simp [BalanceMap.holding, BalanceMap.get, BalanceMap.new]

theorem ChunkApplied.mirrors (hquiet : X.Quiet) (hreads : X.BacksReads truth)
    {hi : ℕ} (h : ChunkApplied truth (s.map.cursor + 1) hi s s')
    (hs : Mirrors X origin s.map) : Mirrors X origin s'.map := by
  have href := (h.refreshed hreads).1
  have hlt : s.map.cursor < hi := href.lt
  have hcursor : s'.map.cursor = hi := href.cursor
  have hle : origin ≤ s.map.cursor := hs.origin_le
  refine ⟨by omega, ?_, ?_⟩
  · intro a ha htouched
    have hknown : Known X.feed blank (some origin) a s.follower := fun hin =>
      hs.known a ha (Feed.knownBy_some.mp hin)
    exact hknown.refreshed (hquiet.quietAt ha) href
      (Feed.knownBy_some.mpr htouched)
  · intro a huntouched
    rw [hcursor, Feed.touchedIn_split hle hlt.le, not_or] at huntouched
    have hview : s'.map.holding a = s.map.holding a :=
      href.untouched a huntouched.2
    rw [hview, hs.only a huntouched.1]

/-- A property of maps that every chunk from the block after the cursor
preserves, and that holds of the snapshot. -/
theorem Chunks.keeps {P : BalanceMap → Prop} (hranged : Ranged truth)
    {cfg : FollowConfig} {target lo' : ℕ}
    (hchunk : ∀ {hi s s'}, ChunkApplied truth (s.map.cursor + 1) hi s s' →
      P s.map → P s'.map)
    (h : Chunks truth cfg target (s.map.cursor + 1) s lo' s')
    (hs : P s.map) (hsaved : ∀ map ∈ s.saved, P map) :
    P s'.map ∧ ∀ map ∈ s'.saved, P map := by
  have hall := h.follow hranged
    (P := fun s => P s.map ∧ ∀ map ∈ s.saved, P map)
    ⟨hs, hsaved⟩
    (by
      intro hi s s' _ happlied hbefore
      have hafter := hchunk happlied hbefore.1
      refine ⟨hafter, fun map hmap => ?_⟩
      rcases happlied.saved with hkept | hwritten
      · rw [hkept] at hmap
        exact hbefore.2 map hmap
      · rw [hwritten] at hmap
        obtain rfl := Option.some.inj hmap
        exact hafter)
  exact hall.1

/-- Whatever an attempt comes to, it leaves the state after some chunks. -/
theorem syncInto_chunks {cfg : FollowConfig} {lo target : ℕ}
    {outcome : Except Failure Unit}
    (hrun : (syncInto cfg lo target).Runs (Environment.of truth) () s ()
      outcome s') :
    ∃ lo' s₁, Chunks truth cfg target lo s.startSync lo' s₁ ∧
      s'.map = s₁.map ∧ s'.saved = s₁.saved := by
  have hkeeps := Environment.keeps_of truth
  by_cases hle : lo ≤ target
  · cases outcome with
    | ok result =>
        obtain ⟨lo', s₁, -, hchunks, rfl⟩ :=
          (meets_syncInto hkeeps hle).of_ok hrun
        obtain ⟨new, hnew⟩ := hchunks.journaled
        refine ⟨lo', s₁, hchunks, ?_, rfl⟩
        exact congrArg Prod.snd hnew.pruned_eq
    | error failure =>
        obtain ⟨lo', hchunks⟩ := (meets_syncInto hkeeps hle).of_error hrun
        exact ⟨lo', s', hchunks, rfl, rfl⟩
  · have hlt : target < lo := Nat.lt_of_not_le hle
    cases outcome with
    | ok result =>
        obtain rfl := (meets_syncInto_empty hlt).of_ok hrun
        exact ⟨lo, s.startSync, .nil lo _, rfl, rfl⟩
    | error failure => exact ((meets_syncInto_empty hlt).of_error hrun).elim

theorem saveMap_saved
    {outcome : Except Failure (Except IoError Unit)}
    (hrun : saveMap.Runs (Environment.of truth) () s () outcome s') :
    s'.map = s.map ∧ (s'.saved = s.saved ∨ s'.saved = some s.map) := by
  have hmeets : Meets (Environment.of truth) saveMap () s
      (fun _ _ s' => s'.map = s.map ∧
        (s'.saved = s.saved ∨ s'.saved = some s.map))
      (fun _ _ _ => False) := by
    rw [meets_saveMap]
    intro answer after _
    cases answer with
    | ok written => exact ⟨rfl, .inr rfl⟩
    | error e => exact ⟨rfl, .inl rfl⟩
  cases outcome with
  | ok result => exact hmeets.of_ok hrun
  | error failure => exact (hmeets.of_error hrun).elim

/-- What holds of the empty map and is preserved by chunks holds of the map and
of the snapshot through any history. -/
theorem SyncHistory.keeps {P : BalanceMap → Prop}
    (hnew : P (BalanceMap.new (start - 1)))
    (hchunk : ∀ {head hi s s'},
      ChunkApplied (X.Says head) (s.map.cursor + 1) hi s s' →
        P s.map → P s'.map)
    {map : BalanceMap} {saved : Option BalanceMap}
    (h : SyncHistory X start map saved) : P map ∧ ∀ map ∈ saved, P map := by
  induction h with
  | new => exact ⟨hnew, by simp⟩
  | attempt hbefore hrun ih =>
      obtain ⟨lo', s₁, hchunks, hmap, hsaved⟩ := syncInto_chunks hrun
      rw [hmap, hsaved]
      exact Chunks.keeps (s := Process.startSync _)
        (X.backs_says _).reads.ranged hchunk hchunks ih.1 ih.2
  | save hbefore hrun ih =>
      obtain ⟨hmap, hkept | hwritten⟩ := saveMap_saved hrun
      · rw [hmap, hkept]
        exact ih
      · rw [hmap, hwritten]
        refine ⟨ih.1, fun map hmap => ?_⟩
        obtain rfl := Option.some.inj hmap
        exact ih.1
  | @restart map saved hbefore ih =>
      refine ⟨?_, ih.2⟩
      cases saved with
      | none => exact hnew
      | some stored => exact ih.2 stored rfl

/-- The map and the snapshot mirror the chain through any history. -/
theorem SyncHistory.mirrors (hquiet : X.Quiet) {map : BalanceMap}
    {saved : Option BalanceMap} (h : SyncHistory X start map saved) :
    Mirrors X (start - 1) map ∧
      ∀ map ∈ saved, Mirrors X (start - 1) map := by
  apply h.keeps mirrors_new
  intro head hi s s' hchunk hs
  exact hchunk.mirrors hquiet (X.backs_says head).reads hs

theorem touchedWithin_iff {a : Address} {cursor : ℕ} (hstart : 0 < start)
    (ha : a ≠ Address.zero) :
    X.TouchedWithin start cursor a ↔
      X.feed.TouchedIn a (start - 1) cursor := by
  constructor
  · rintro ⟨b, hlo, hhi, hmoves⟩
    exact ⟨b, by omega, hhi, (touches_iff ha).mpr hmoves⟩
  · rintro ⟨b, hlo, hhi, htouches⟩
    exact ⟨b, by omega, hhi, (touches_iff ha).mp htouches⟩

/-- In every history the map is the chain's balances at its cursor. -/
theorem sync_history_holds_balances (hquiet : X.Quiet) (hstart : 0 < start)
    {map : BalanceMap} {saved : Option BalanceMap}
    (h : SyncHistory X start map saved) :
    (∀ a, a ≠ Address.zero → X.TouchedWithin start map.cursor a →
      (map.get a).map (fun e => e.reading.balances) =
        if X.balances a map.cursor = (0, 0) then none
        else some (X.balances a map.cursor)) ∧
      ∀ a, ¬ X.TouchedWithin start map.cursor a → map.get a = none := by
  have hmirrors := (h.mirrors hquiet).1
  constructor
  · intro a ha htouched
    have hholding := hmirrors.known a ha
      ((touchedWithin_iff hstart ha).mp htouched)
    simpa [BalanceMap.holding, stored, blank] using hholding
  · intro a huntouched
    have hnot : ¬ X.feed.TouchedIn a (start - 1) map.cursor := by
      rintro ⟨b, hlo, hhi, htouches⟩
      exact huntouched ⟨b, by omega, hhi, Chain.Touches.moves htouches⟩
    have hholding := hmirrors.only a hnot
    simpa [BalanceMap.holding] using hholding

end History

/-! ## Sketched chains -/

theorem padded_injective {a b : Address} (h : padded a = padded b) : a = b :=
  FixedBytes.ext (List.append_cancel_left h)

theorem isTransfer_transferOf {a : Address} (ha : a ≠ Address.zero) (b : ℕ) :
    isTransfer (Chain.transferOf a b) = true := by
  have hzero : (word 0).bytes = padded Address.zero := by decide +kernel
  have hne : (⟨padded a, by simp [padded, a.length_eq]⟩ : B256) ≠ word 0 := by
    intro heq
    apply ha
    apply padded_injective
    rw [← hzero, ← heq]
  have hinert : transferIsInert (Chain.transferOf a b) = false := by
    have hdata : (Chain.transferOf a b).data.all (· == 0) = false := rfl
    have hsender : (Chain.transferOf a b).topics[1]? =
        some ⟨padded a, by simp [padded, a.length_eq]⟩ := rfl
    have hreceiver : (Chain.transferOf a b).topics[2]? = some (word 0) := rfl
    rw [transferIsInert, hdata, hsender, hreceiver, Bool.false_or,
      Option.some_beq_some, beq_eq_false_iff_ne]
    exact hne
  have hhead : (Chain.transferOf a b).topics.head? = some TRANSFER := rfl
  have hlength : (Chain.transferOf a b).topics.length = 3 := rfl
  simp [isTransfer, hinert, hhead, hlength]

/-- A sketched chain moves what a block names. -/
theorem Chain.sketch_moves {touched : ℕ → List Address}
    {usdt : Address → ℕ → ℕ} {tag : ℕ → ℕ} {a : Address} {b : ℕ}
    (ha : a ≠ Address.zero) (hin : a ∈ touched b) :
    (Chain.sketch touched usdt tag).MovesToken USDT b a := by
  have hlog : Chain.transferOf a b ∈
      (Chain.sketch touched usdt tag).logs b :=
    List.mem_map.mpr ⟨a, hin, rfl⟩
  have hnames : Names (Chain.transferOf a b) a :=
    .inl ⟨isTransfer_transferOf ha b, _, List.mem_cons_self, rfl⟩
  exact .inl ⟨_, hlog, rfl, hnames⟩

/-- A sketched chain is quiet when balances change only in touched blocks. -/
theorem Chain.sketch_quiet {touched : ℕ → List Address}
    {usdt : Address → ℕ → ℕ} {tag : ℕ → ℕ}
    (h : ∀ a b, usdt a (b + 1) ≠ usdt a b →
      a ≠ Address.zero ∧ a ∈ touched (b + 1)) :
    (Chain.sketch touched usdt tag).Quiet := by
  intro token htoken a b hne
  have husdt : token = USDT := by
    by_contra hother
    apply hne
    simp only [Chain.sketch, if_neg hother]
  subst husdt
  have hchange : usdt a (b + 1) ≠ usdt a b := by
    simpa only [Chain.sketch, if_true] using hne
  obtain ⟨ha, hin⟩ := h a b hchange
  exact Chain.sketch_moves ha hin

/-! ### A holder that receives and spends -/

namespace ReceiveSpend

def holder : Address :=
  FixedBytes.filled 20 0xaa

def spender : Address :=
  FixedBytes.filled 20 0xbb

/-- The holder receives 5 in block 1.  The spender receives 3 in block 1 and
spends it in block 2. -/
def chain : Chain :=
  Chain.sketch
    (fun b => if b = 1 then [holder, spender] else if b = 2 then [spender]
      else [])
    (fun a b => if a = holder ∧ 1 ≤ b then 5
      else if a = spender ∧ b = 1 then 3 else 0)
    (fun _ => 0)

def config : FollowConfig :=
  ⟨1, 600, .finalized, 64, .wrapping⟩

def start : Process :=
  { Process.launched (BalanceMap.new 0) with saved := none }

def finish : Process :=
  ((syncInto config 1 2).exec (chain.respond 2 2) () start).1.2

theorem quiet : chain.Quiet := by
  apply Chain.sketch_quiet
  intro a b hne
  have hholder : holder ≠ Address.zero := by decide
  have hspender : spender ≠ Address.zero := by decide
  by_cases ha : a = holder
  · subst ha
    have hb : b = 0 := by
      by_contra hb
      have hpos : 1 ≤ b := Nat.one_le_iff_ne_zero.mpr hb
      simp [hpos] at hne
    subst hb
    exact ⟨hholder, by decide⟩
  · by_cases ha' : a = spender
    · subst ha'
      match b with
      | 0 => exact ⟨hspender, by decide⟩
      | 1 => exact ⟨hspender, by decide⟩
      | b + 2 => simp [ha] at hne
    · simp [ha, ha'] at hne

theorem balance_lt (token a : Address) (b : ℕ) :
    chain.balance token a b < 2 ^ 256 := by
  apply Chain.sketch_balance_lt
  intro a b
  split
  · decide
  · split
    · decide
    · decide

theorem finish_ok :
    ((syncInto config 1 2).exec (chain.respond 2 2) () start).1.1 = .ok () := by
  decide +kernel

theorem history : SyncHistory chain 1 finish.map finish.saved :=
  .attempt .new (chain.runs_exec (syncInto config 1 2) start balance_lt finish_ok)

theorem sync_history_holds_receipts :
    (finish.map.get holder).map (fun e => e.reading.balances) = some (5, 0) ∧
      (finish.map.get spender).map (fun e => e.reading.balances) = none := by
  have hcursor : finish.map.cursor = 2 := by decide +kernel
  have hholder : holder ≠ Address.zero := by decide
  have hspender : spender ≠ Address.zero := by decide
  have hmoves : ∀ a ∈ [holder, spender], chain.TouchedWithin 1 2 a := by
    intro a ha
    have hne : a ≠ Address.zero := by
      intro heq
      subst heq
      exact absurd ha (by decide)
    exact ⟨1, le_rfl, by decide, USDT, by decide, Chain.sketch_moves hne ha⟩
  have hall := (sync_history_holds_balances quiet (by decide) history).1
  rw [hcursor] at hall
  rw [hall holder hholder (hmoves holder (by simp)),
    hall spender hspender (hmoves spender (by simp))]
  decide

end ReceiveSpend

end UsdtPir
