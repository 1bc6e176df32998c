import UsdtPir.ReorgRepair
import UsdtPir.StampFold

/-!
# Stamps after a reorg

A repair reads the balances of the addresses it recalls at the block it rewinds
to, and says of no token that it saw them there.  So an entry that survives the
repair keeps its stamps, those of replaced blocks among them, until the sync
that follows sees the address again or finds it without balances.
-/

namespace UsdtPir

open Interaction
open Program
open Following

/-- Block `n` is one up to `last` in which the address is seen in the token. -/
def Chain.Stamps (X : Chain) (a token : Address) (last n : ℕ) : Prop :=
  n ≤ last ∧ (X.sightings token).touched n a

/-- The stamps of the map are blocks of the chain. -/
def BalanceMap.StampsOn (map : BalanceMap) (X : Chain) : Prop :=
  ∀ a, ∀ token ∈ TOKENS, ∀ stamp, map.stamp a token = some stamp →
    stamp ≠ 0 → X.Stamps a token map.cursor stamp.toNat

/-- A sync of the blocks after `lo` up to `hi` leaves a block of the chain in
the place of the stamp `n`, or `n` is one itself. -/
def Chain.Accounts (X : Chain) (a token : Address) (lo hi n : ℕ) : Prop :=
  X.Stamps a token (max lo hi) n ∨
    Renews X.feed (X.sightings token) blank a lo hi

/-- The check of a pass may find another hash than the one it knows. -/
def Chain.Rewinds (Y : Chain) (head : ℕ) (s : Process) : Prop :=
  ∃ known, s.watch.cursorHash = some known ∧
    (known = Y.hash s.map.cursor → head < s.map.cursor)

/-- What a pass does about a stamp of a block that may have been replaced.
Without a hash it only syncs on; where it rewinds, it also drops the addresses
it recalls that have no balances there. -/
structure Chain.Clears (Y : Chain) (cfg : FollowConfig) (head target : ℕ)
    (s : Process) (a token : Address) (n : ℕ) : Prop where
  unknown : s.watch.cursorHash = none →
    Y.Accounts a token s.map.cursor target n
  rewound : Y.Rewinds head s →
    (a ∈ s.watch.addressSet ∧
        blank (Y.balances a (s.map.cursor - cfg.reorgWindow)) = true) ∨
      Y.Accounts a token (s.map.cursor - cfg.reorgWindow) target n

/-- The pass clears every stamp above the start of the reorg window. -/
def Chain.ClearsWindow (Y : Chain) (cfg : FollowConfig) (head target : ℕ)
    (s : Process) : Prop :=
  ∀ a, ∀ token ∈ TOKENS, ∀ stamp, s.map.stamp a token = some stamp →
    s.map.cursor - cfg.reorgWindow < stamp.toNat →
      Y.Clears cfg head target s a token stamp.toNat

/-- The chain and the state after each pass of a run that starts with an empty
map at block `start`.  Every pass returns `Ok`, and `meets` says what else is
known of it: of its chain, the head at its start, its target and the state
before it. -/
inductive PassRun (meets : Chain → ℕ → ℕ → Process → Prop)
    (family : Set Chain) (cfg : FollowConfig) (updates : Bool) (start : ℕ) :
    Chain → Process → Prop
  | start {X : Chain} {s : Process} (hX : X ∈ family)
      (hmap : s.map = BalanceMap.new start) (hwatch : s.watch = default) :
      PassRun meets family cfg updates start X s
  | pass {X Y : Chain} {target head head' : ℕ} {s s' : Process}
      (hbefore : PassRun meets family cfg updates start X s)
      (hY : Y ∈ family)
      (hagree : X.AgreesUpTo Y (s.map.cursor - cfg.reorgWindow))
      (hmeets : meets Y head target s)
      (hpass : PassRuns Y.growing cfg updates head s target head' s') :
      PassRun meets family cfg updates start Y s'

section Stamps

variable {X Y : Chain} {truth scan store : (q : Request) → Answer q → Prop}
    {cfg : FollowConfig} {updates : Bool}
    {n start lo hi last target head head' : ℕ} {a token : Address}
    {s s₁ s' : Process} {stamp : U32}

theorem block32_toNat {b : ℕ} (h : block32 b = some stamp) :
    stamp.toNat = b := by
  have hlt : b < 2 ^ 32 := by
    by_contra hlt
    rw [block32, if_neg hlt] at h
    cases h
  rw [block32_eq_some h, BitVec.toNat_ofNat, Nat.mod_eq_of_lt hlt]

theorem Chain.Stamps.mono (h : X.Stamps a token lo n) (hle : lo ≤ hi) :
    X.Stamps a token hi n :=
  ⟨h.1.trans hle, h.2⟩

/-- Chains that agree show the same. -/
theorem Chain.AgreesUpTo.stamps (h : X.AgreesUpTo Y last)
    (hn : X.Stamps a token last n) : Y.Stamps a token last n := by
  rcases h n hn.1 with ⟨hlogs, howner, -, -⟩
  refine ⟨hn.1, ?_⟩
  have hseen := hn.2
  change Sees (X.watched n) X.owner a token n at hseen
  change Sees (Y.watched n) Y.owner a token n
  rw [Chain.watched, hlogs] at hseen
  rcases hseen with hshown | ⟨htoken, ha, hsupply⟩
  · exact .inl hshown
  · exact .inr ⟨htoken, ha.trans howner, hsupply⟩

/-! ### The repair -/

/-- A correction has no block to stamp with: what is stamped was stamped
before. -/
theorem applyCorrections_stamp {rows : List (Address × Reading)}
    {map map' : BalanceMap} (h : applyCorrections rows map = some map')
    (hstamp : map'.stamp a token = some stamp) (hne : stamp ≠ 0) :
    map.stamp a token = some stamp := by
  induction rows generalizing map with
  | nil =>
      simp only [applyCorrections, Option.some.injEq] at h
      rw [h]
      exact hstamp
  | cons row rest ih =>
      rcases row with ⟨addr, reading⟩
      simp only [applyCorrections, Option.bind_eq_bind,
        Option.bind_eq_some_iff, Prod.exists] at h
      rcases h with ⟨applied, middle, happly, hrest⟩
      have hmiddle := ih hrest
      by_cases ha : a = addr
      · rw [← ha] at happly
        have hzero : reading.isZero = false := by
          by_contra hzero
          have hkept : middle.holding a = reading.kept := by
            rw [BalanceMap.apply_holding happly a, if_pos rfl]
          rw [Reading.kept, eq_true_of_ne_false hzero] at hkept
          rw [BalanceMap.stamp_eq_none.mpr
            (BalanceMap.holding_eq_none.mp hkept)] at hmiddle
          cases hmiddle
        rcases BalanceMap.apply_stamp happly hzero token with
          ⟨kept, hkept, hold⟩
        have hunseen : (default : Touch).last token = none := by
          unfold Touch.last
          split
          · rfl
          · rfl
        rw [hkept, Option.some.injEq] at hmiddle
        rw [hunseen, Option.elim_none, hmiddle, Option.some.injEq] at hold
        cases hbefore : map.stamp a token with
        | none =>
            rw [hbefore] at hold
            exact absurd hold.symm hne
        | some old =>
            rw [hbefore] at hold
            rw [← hold]
            rfl
      · rw [BalanceMap.stamp, ← BalanceMap.apply_get_ne happly ha]
        exact hmiddle

/-- A stamp that is left by a repair was there before, and its address was not
recalled, or has balances at the block rewound to. -/
theorem Repaired.stamps {window : ℕ} (hreads : Y.BacksReads truth)
    (h : Repaired truth window s s₁)
    (hstamp : s₁.map.stamp a token = some stamp) (hne : stamp ≠ 0) :
    s.map.stamp a token = some stamp ∧
      (a ∈ s.watch.addressSet →
        blank (Y.balances a (s.map.cursor - window)) = false) := by
  have hrewound := h.rewound hreads
  constructor
  · rcases h with ⟨rows, map, -, -, -, hmap, rfl⟩
    exact applyCorrections_stamp hmap hstamp hne
  · intro hrecalled
    have hview : s₁.map.holding a =
        stored blank (Y.balances a (s.map.cursor - window)) :=
      hrewound.recalled a (mem_addressSet.mp hrecalled)
    by_contra hblank
    rw [stored, if_pos (eq_true_of_ne_false hblank)] at hview
    rw [BalanceMap.stamp_eq_none.mpr
      (BalanceMap.holding_eq_none.mp hview)] at hstamp
    cases hstamp

/-- A check that repairs did not find the hash it knows, or not the block. -/
theorem Chain.Rewinds.of_repaired {checked : ℕ} {known : B256}
    {block : Option Block} (hknown : s.watch.cursorHash = some known)
    (hanswer : Y.SaysBetween head checked (.blockByNumber s.map.cursor)
      (Except.ok block : Except RpcError (Option Block)))
    (hne : block.map Block.hash ≠ some known) : Y.Rewinds head s := by
  refine ⟨known, hknown, ?_⟩
  intro hsame
  rcases hanswer with ⟨now, hnow, -, htells, hview⟩
  by_contra hlt
  cases block with
  | none =>
      have hnone : now < s.map.cursor := (hview none rfl).mp rfl
      omega
  | some b =>
      apply hne
      rw [Option.map_some, (htells b rfl).2, hsame]

/-- After the check every stamp is accounted for: it is a block of the new
chain, or the sync will take it away. -/
theorem RepairStep.accounted {checked : ℕ} (hfix : X.HashesFix Y)
    (htip : cfg.tip.isReorgable = true)
    (hagree : X.AgreesUpTo Y (s.map.cursor - cfg.reorgWindow))
    (hclears : Y.ClearsWindow cfg head target s)
    (hrepair : RepairStep (Y.SaysBetween head checked) cfg s s₁)
    (hhash : HashKnown X s) (hs : s.map.StampsOn X) (htoken : token ∈ TOKENS)
    (hstamp : s₁.map.stamp a token = some stamp) (hne : stamp ≠ 0) :
    Y.Accounts a token s₁.map.cursor target stamp.toNat := by
  have hbacks := Y.backs_saysBetween head checked
  have hlow : ∀ low, s.map.cursor - cfg.reorgWindow ≤ low →
      s.map.stamp a token = some stamp →
      stamp.toNat ≤ s.map.cursor - cfg.reorgWindow →
      Y.Accounts a token low target stamp.toNat := by
    intro low hle hbefore hold
    have hseen := (hs a token htoken stamp hbefore hne).2
    have hkept : Y.Stamps a token (s.map.cursor - cfg.reorgWindow)
        stamp.toNat := hagree.stamps ⟨hold, hseen⟩
    exact .inl (hkept.mono (hle.trans (le_max_left _ _)))
  cases hrepair with
  | final hfinal =>
      rw [htip] at hfinal
      cases hfinal
  | unknown _ hnone =>
      by_cases hnew : s.map.cursor - cfg.reorgWindow < stamp.toNat
      · exact (hclears a token htoken stamp hstamp hnew).unknown hnone
      · exact hlow _ (Nat.sub_le _ _) hstamp (Nat.le_of_not_lt hnew)
  | @same block _ hknown hanswer =>
      have hsame := hbacks.hashes.check block hanswer hknown
      have hall := hhash.agrees hfix hknown hsame
      have hkept := hall.stamps (hs a token htoken stamp hstamp hne)
      exact .inl (hkept.mono (le_max_left _ _))
  | repaired _ hknown hanswer hdiffers hrepaired =>
      rcases hrepaired.stamps hbacks.reads hstamp hne with ⟨hbefore, hheld⟩
      rw [hrepaired.watch_eq.2]
      by_cases hnew : s.map.cursor - cfg.reorgWindow < stamp.toNat
      · have hrewinds := Chain.Rewinds.of_repaired hknown hanswer hdiffers
        rcases (hclears a token htoken stamp hbefore hnew).rewound hrewinds with
          ⟨hrecalled, hblank⟩ | haccounted
        · rw [hheld hrecalled] at hblank
          cases hblank
        · exact haccounted
      · exact hlow _ le_rfl hbefore (Nat.le_of_not_lt hnew)

/-! ### The sync -/

theorem Scanned.chunked (hranged : Ranged truth)
    (h : Scanned truth cfg target s s') :
    ∃ ends, Chunked truth s.map ends s'.map := by
  rcases h with ⟨s₁, s₂, lo', hbefore, hchunks, hafter⟩
  rw [hafter.map, ← hbefore.map]
  exact hchunks.chunked hranged

/-- A stamp that is left by a sync is a block of it, or was there before and
was not renewed. -/
theorem ScannedTo.stamps (hreads : Y.BacksReads scan)
    (h : ScannedTo scan cfg target s s₁) (htoken : token ∈ TOKENS)
    (hstamp : s₁.map.stamp a token = some stamp) (hne : stamp ≠ 0) :
    Y.Stamps a token target stamp.toNat ∨
      (s.map.stamp a token = some stamp ∧
        ¬ Renews Y.feed (Y.sightings token) blank a s.map.cursor target) := by
  rcases h.scanned.chunked hreads.ranged with ⟨ends, hchunked⟩
  have hmarked := hchunked.marked hreads a htoken
  rw [h.reached] at hmarked
  rcases hmarked.traced (fun b => Chain.sightings_touches) hstamp hne with
    ⟨b, -, hle, hseen, hblock⟩ | hkept
  · left
    rw [block32_toNat hblock]
    exact ⟨hle, hseen⟩
  · exact .inr hkept

/-- When all stamps are accounted for, the sync of the pass leaves only stamps
of the chain. -/
theorem Advanced.stampsOn (hreads : Y.BacksReads scan)
    (h : Advanced scan store cfg updates target s s')
    (haccounts : ∀ a, ∀ token ∈ TOKENS, ∀ stamp,
      s.map.stamp a token = some stamp → stamp ≠ 0 →
        Y.Accounts a token s.map.cursor target stamp.toNat) :
    s'.map.StampsOn Y := by
  intro a token htoken stamp hstamp hne
  rcases h.split hreads.ranged with ⟨rfl, hle⟩ | ⟨s₁, hto, htaken⟩
  · rcases haccounts a token htoken stamp hstamp hne with hkept | hrenews
    · rw [max_eq_left hle] at hkept
      exact hkept
    · rcases hrenews with ⟨b, hlo, hhi, -⟩ | ⟨b, hlo, hhi, -, -⟩
      · omega
      · omega
  · rw [htaken.map] at hstamp ⊢
    rw [hto.reached]
    rcases hto.stamps hreads htoken hstamp hne with hnew | ⟨hold, hnot⟩
    · exact hnew
    · rcases haccounts a token htoken stamp hold hne with hkept | hrenews
      · rw [max_eq_right hto.below.le] at hkept
        exact hkept
      · exact absurd hrenews hnot

theorem HashKnown.advanced (htip : cfg.tip.isReorgable = true)
    (hreads : Y.BacksReads scan) (hhashes : Y.BacksHashes store)
    (h : Advanced scan store cfg updates target s s') (hs : HashKnown Y s) :
    HashKnown Y s' := by
  rcases h.split hreads.ranged with ⟨rfl, hle⟩ | ⟨s₁, hto, htaken⟩
  · exact hs
  · apply htaken.hashKnown htip hhashes
    rw [hto.reached]
    exact hto.bound

/-! ### The run -/

/-- A pass that clears the window takes the stamps from one chain to the
other. -/
theorem PassRuns.stampsOn (hfix : X.HashesFix Y)
    (htip : cfg.tip.isReorgable = true)
    (hagree : X.AgreesUpTo Y (s.map.cursor - cfg.reorgWindow))
    (hclears : Y.ClearsWindow cfg head target s)
    (h : PassRuns Y.growing cfg updates head s target head' s')
    (hhash : HashKnown X s) (hs : s.map.StampsOn X) :
    HashKnown Y s' ∧ s'.map.StampsOn Y := by
  rcases h.outcome Chain.growing_explains with
    ⟨checked, resolved, scanned, s₁, -, hrepair, -, hadvanced⟩
  have hchecked := Y.backs_saysBetween head checked
  have hscanned := Y.backs_saysBetween resolved scanned
  have hstored := Y.backs_saysBetween scanned head'
  constructor
  · have hbefore : HashKnown Y s₁ :=
      hrepair.hashKnown hchecked.hashes.check hfix htip hhash
    exact hbefore.advanced htip hscanned.reads hstored.hashes hadvanced
  · apply hadvanced.stampsOn hscanned.reads
    intro a token htoken stamp hstamp hne
    exact hrepair.accounted hfix htip hagree hclears hhash hs htoken hstamp hne

/-- In a run whose passes clear the reorg window the stamps are blocks of the
chain of the last pass. -/
theorem pass_run_stamps {family : Set Chain}
    (hfix : ∀ X ∈ family, ∀ Y ∈ family, X.HashesFix Y)
    (htip : cfg.tip = .confirmations n)
    (h : PassRun (fun Y => Y.ClearsWindow cfg) family cfg updates start X s) :
    s.map.StampsOn X := by
  have hreorgable : cfg.tip.isReorgable = true := by rw [htip]; rfl
  have hall : X ∈ family ∧ HashKnown X s ∧ s.map.StampsOn X := by
    induction h with
    | @start X s hX hmap hwatch =>
        refine ⟨hX, .of_none (by rw [hwatch]; rfl), ?_⟩
        intro a token _ stamp hstamp
        rw [hmap] at hstamp
        cases hstamp
    | pass hbefore hY hagree hclears hpass ih =>
        rcases ih with ⟨hX, hhash, hs⟩
        exact ⟨hY, hpass.stampsOn (hfix _ hX _ hY) hreorgable hagree hclears
          hhash hs⟩
  exact hall.2.2

end Stamps

namespace ReplacedTransfer

theorem start_clears (target : ℕ) : first.ClearsWindow config 2 target start := by
  intro a token _ stamp hstamp
  cases hstamp

/-- The holder is dropped by the repair, with the stamp of the block that was
replaced. -/
theorem middle_clears (target : ℕ) :
    second.ClearsWindow config 3 target middle := by
  intro a token _ stamp hstamp _
  have hkeys : middle.map.inner.keys = [holder] := by decide +kernel
  have ha : a = holder := by
    have hin : a ∈ middle.map.inner := by
      rw [← AList.lookup_isSome]
      rw [BalanceMap.stamp, Option.map_eq_some_iff] at hstamp
      rcases hstamp with ⟨e, he, -⟩
      exact Option.isSome_of_eq_some he
    rw [AList.mem_keys, hkeys] at hin
    exact List.mem_singleton.mp hin
  constructor
  · intro hnone
    have harmed : middle.watch.cursorHash ≠ none := by decide +kernel
    exact absurd hnone harmed
  · intro _
    left
    rw [ha]
    constructor
    · decide +kernel
    · decide +kernel

/-- The keeper has the stamp of its block on the second chain, and all stamps
are blocks of that chain. -/
theorem pass_run_stamps_replaced :
    finish.map.stamp keeper USDT = some 2 ∧ finish.map.StampsOn second := by
  rcases pass_runs_iff.mp
    (first.runs_growing (pass config true) start (balance_lt _ _) middle_ok) with
    ⟨early, hearly⟩
  rcases pass_runs_iff.mp
    (second.runs_growing (pass config true) middle (balance_lt _ _) finish_ok)
    with ⟨late, hlate⟩
  have hcursor : middle.map.cursor - config.reorgWindow ≤ 1 := by
    decide +kernel
  have hmiddle : PassRun (fun Y => Y.ClearsWindow config) family config true 0
      first middle :=
    .pass (.start (.inl rfl) rfl rfl) (.inl rfl) (.refl _) (start_clears early)
      hearly
  constructor
  · decide +kernel
  · exact pass_run_stamps fix rfl
      (.pass hmiddle (.inr rfl) (agrees.mono hcursor) (middle_clears late) hlate)

end ReplacedTransfer

/-- In every run of passes, whatever they meet, the stamps are blocks of the
chain of the last pass. -/
def StampsStayCanonical (family : Set Chain) (cfg : FollowConfig) : Prop :=
  ∀ (updates : Bool) (start : ℕ) (X : Chain) (s : Process),
    PassRun (fun _ _ _ _ => True) family cfg updates start X s →
      s.map.StampsOn X

/-! ### A second transfer that is replaced by none -/

namespace LingeringStamp

open ReplacedTransfer

/-- The holder gets 5 in block 1, and more in block 2 unless `late` is 5. -/
def chain (late : ℕ) (tag : ℕ → ℕ) : Chain :=
  Chain.sketch
    (fun b => if b = 1 ∨ (b = 2 ∧ late ≠ 5) then [holder] else [])
    (fun a b => if a ≠ holder ∨ b = 0 then 0 else if b = 1 then 5 else late) tag

def first : Chain :=
  chain 7 unforked

def second : Chain :=
  chain 5 forked

def family : Set Chain :=
  {first, second}

def middle : Process :=
  ((pass config true).exec (first.respond 2 3) () start).1.2

def finish : Process :=
  ((pass config true).exec (second.respond 3 3) () middle).1.2

theorem quiet (late : ℕ) (tag : ℕ → ℕ) : (chain late tag).Quiet := by
  apply Chain.sketch_quiet
  intro a b hne
  by_cases ha : a = holder
  · rw [ha]
    have hholder : holder ≠ Address.zero := by decide
    have hblock : b = 0 ∨ (b = 1 ∧ late ≠ 5) := by
      by_contra hother
      rcases not_or.mp hother with ⟨hpos, hlate⟩
      by_cases hone : b = 1
      · have heq : late = 5 := by
          by_contra hdiffers
          exact hlate ⟨hone, hdiffers⟩
        simp [hone, heq] at hne
      · simp [hpos, hone] at hne
    refine ⟨hholder, ?_⟩
    rcases hblock with rfl | ⟨rfl, hlate⟩
    · simp
    · simp [hlate]
  · simp [ha] at hne

theorem balance_lt {late : ℕ} (hlate : late < 8) (tag : ℕ → ℕ)
    (token a : Address) (b : ℕ) : (chain late tag).balance token a b < 2 ^ 256 := by
  apply Chain.sketch_balance_lt
  intro a b
  split
  · decide
  · split
    · decide
    · exact hlate

theorem agrees : first.AgreesUpTo second 1 := by
  intro b hb
  have hne : b ≠ 2 := by omega
  have htag : forked b = unforked b := if_pos (Nat.lt_succ_of_le hb)
  have hcases : b = 0 ∨ b = 1 := by omega
  rcases hcases with rfl | rfl
  · simp [first, second, chain, Chain.sketch, htag]
  · simp [first, second, chain, Chain.sketch, htag]

theorem middle_ok :
    ((pass config true).exec (first.respond 2 3) () start).1.1 = .ok () := by
  decide +kernel

theorem finish_ok :
    ((pass config true).exec (second.respond 3 3) () middle).1.1 = .ok () := by
  decide +kernel

theorem run : PassRun (fun _ _ _ _ => True) family config true 0 second
    finish := by
  rcases pass_runs_iff.mp (first.runs_growing (pass config true) start
    (balance_lt (by decide) _) middle_ok) with
    ⟨early, hearly⟩
  rcases pass_runs_iff.mp (second.runs_growing (pass config true) middle
    (balance_lt (by decide) _) finish_ok) with
    ⟨late, hlate⟩
  have hcursor : middle.map.cursor - config.reorgWindow ≤ 1 := by
    decide +kernel
  have hmiddle : PassRun (fun _ _ _ _ => True) family config true 0 first
      middle :=
    .pass (.start (.inl rfl) rfl rfl) (.inl rfl) (.refl _) trivial hearly
  exact .pass hmiddle (.inr rfl) (agrees.mono hcursor) trivial hlate

/-- The holder keeps the stamp of block 2, which does not name it any more. -/
theorem stamp_lingers :
    (∀ X ∈ family, X.Quiet) ∧ (∀ X ∈ family, ∀ Y ∈ family, X.HashesFix Y) ∧
      ¬ StampsStayCanonical family config := by
  refine ⟨?_, forks_fix agrees, ?_⟩
  · rintro X (rfl | rfl)
    · exact quiet _ _
    · exact quiet _ _
  · intro h
    have hstamp : finish.map.stamp holder USDT = some 2 := by decide +kernel
    have hseen := (h true 0 second finish run holder USDT (by decide) 2 hstamp
      (by decide)).2
    have hlogs : second.watched 2 = [] := by decide +kernel
    change Sees (second.watched 2) second.owner holder USDT 2 at hseen
    rw [hlogs] at hseen
    rcases hseen with ⟨log, hlog, -⟩ | ⟨-, -, log, hlog, -⟩
    · cases hlog
    · cases hlog

end LingeringStamp

end UsdtPir
