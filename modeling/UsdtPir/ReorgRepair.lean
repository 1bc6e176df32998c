import UsdtPir.ChainBalances
import UsdtPir.ReorgWatch

/-!
# Reorg repair converges

A run of passes in one process, each of which returns `Ok`, with a chain that
may be replaced between any two of them by one that agrees with it up to the
start of the reorg window.  After every pass the map has the balances of the
chain of that pass.
-/

namespace UsdtPir

open Interaction
open Program
open Following

/-- A pass that returns `Ok`, cut where its tip is resolved. -/
def PassRuns {ω : Type} (env : Environment Request Answer ω)
    (cfg : FollowConfig) (updates : Bool) (world : ω) (s : Process)
    (target : ℕ) (final : ω) (s' : Process) : Prop :=
  ∃ checked s₁ resolved s₂,
    (repairIfNeeded cfg).Runs env world s checked (.ok ()) s₁ ∧
      cfg.tip.resolve.Runs env checked s₁ resolved (.ok target) s₂ ∧
      (passTo cfg updates target).Runs env resolved s₂ final (.ok ()) s'

theorem pass_runs_iff {ω : Type} {env : Environment Request Answer ω}
    {cfg : FollowConfig} {updates : Bool} {world final : ω} {s s' : Process} :
    (pass cfg updates).Runs env world s final (.ok ()) s' ↔
      ∃ target, PassRuns env cfg updates world s target final s' := by
  unfold pass PassRuns
  rw [runs_bind_ok]
  constructor
  · rintro ⟨checked, ⟨⟩, s₁, hcheck, hrest⟩
    obtain ⟨resolved, target, s₂, hresolve, hto⟩ := runs_bind_ok.mp hrest
    exact ⟨target, checked, s₁, resolved, s₂, hcheck, hresolve, hto⟩
  · rintro ⟨target, checked, s₁, resolved, s₂, hcheck, hresolve, hto⟩
    exact ⟨checked, (), s₁, hcheck,
      runs_bind_ok.mpr ⟨resolved, target, s₂, hresolve, hto⟩⟩

/-- What such a pass did, and where its surroundings stood meanwhile. -/
theorem PassRuns.outcome {ω : Type} {env : Environment Request Answer ω}
    {between : ω → ω → (q : Request) → Answer q → Prop}
    (hexplains : env.Explains between) {cfg : FollowConfig} {updates : Bool}
    {world final : ω} {s s' : Process} {target : ℕ}
    (h : PassRuns env cfg updates world s target final s') :
    ∃ checked resolved scanned s₁, env.Reaches resolved scanned ∧
      RepairStep (between world checked) cfg s s₁ ∧
      ResolvesTo (fun q answer => env checked q answer resolved) cfg.tip
        target ∧
      Advanced (between resolved scanned) (between scanned final) cfg updates
        target s₁ s' := by
  obtain ⟨checked, s₁, resolved, s₂, hcheck, hresolve, hto⟩ := h
  have hrepair := (Meets.explained hexplains fun final =>
    meets_repairIfNeeded (Environment.keeps_of _)).of_ok hcheck
  obtain ⟨rfl, htarget⟩ := meets_resolve.of_ok hresolve
  obtain ⟨scanned, hscan, -, hadvanced⟩ :=
    (meets_passTo hexplains).of_ok hto
  exact ⟨checked, resolved, scanned, s₂, hscan, hrepair.2, htarget, hadvanced⟩

/-- The target lies between what the first and the last head allow. -/
theorem PassRuns.target_mem {X : Chain} {cfg : FollowConfig} {updates : Bool}
    {n head head' target : ℕ} {s s' : Process}
    (htip : cfg.tip = .confirmations n)
    (h : PassRuns X.growing cfg updates head s target head' s') :
    head - n ≤ target ∧ target ≤ head' - n := by
  obtain ⟨checked, s₁, resolved, s₂, hcheck, hresolve, hto⟩ := h
  have hbefore := Chain.growing_reaches hcheck.reaches
  have hresolved := Chain.growing_reaches hresolve.reaches
  have hafter := Chain.growing_reaches hto.reaches
  obtain ⟨-, htarget⟩ := meets_resolve.of_ok hresolve
  obtain ⟨rfl, -⟩ := target_eq_of_resolves htip htarget
  omega

/-- The chain, the last resolved tip and the state after each pass of a run
that starts with an empty map at block `start`. -/
inductive ReorgRun (family : Set Chain) (cfg : FollowConfig) (updates : Bool)
    (start : ℕ) : Chain → ℕ → Process → Prop
  | start {X : Chain} {s : Process} (hX : X ∈ family)
      (hmap : s.map = BalanceMap.new start) (hwatch : s.watch = default) :
      ReorgRun family cfg updates start X 0 s
  | pass {X Y : Chain} {tip target head head' : ℕ} {s s' : Process}
      (hbefore : ReorgRun family cfg updates start X tip s)
      (hY : Y ∈ family)
      (hagree : X.AgreesUpTo Y (s.map.cursor - cfg.reorgWindow))
      (hpass : PassRuns Y.growing cfg updates head s target head' s')
      (htip : tip ≤ target) :
      ReorgRun family cfg updates start Y target s'

/-- Nothing has been folded in yet. -/
def Pristine (start : ℕ) (s : Process) : Prop :=
  s.map = BalanceMap.new start ∧ s.watch = default

/-- After a pass of the run: the address is watched, and a watch without a
hash has nothing to lose. -/
structure InStep (X : Chain) (window start tip : ℕ) (a : Address)
    (s : Process) : Prop where
  watched : Watched X window (some start) 0 a tip s
  unhashed : s.watch.cursorHash = none →
    Pristine start s ∨ s.map.cursor - window = s.map.cursor

section Steps

variable {X Y : Chain} {cfg : FollowConfig} {updates : Bool} {n : ℕ}
    {start tip target head head' : ℕ} {a : Address} {s s' : Process}

theorem Pristine.watched {window : ℕ} (h : Pristine start s) :
    Watched X window (some start) 0 a tip s := by
  obtain ⟨hmap, hwatch⟩ := h
  have habsent : s.follower.view a = none := by
    show s.map.holding a = none
    rw [hmap]
    simp [BalanceMap.holding, BalanceMap.get, BalanceMap.new]
  have hstart : ∃ m, some start = some m ∧ s.follower.cursor ≤ m := by
    refine ⟨start, rfl, ?_⟩
    show s.map.cursor ≤ start
    rw [hmap]
    exact le_rfl
  have hnone : s.watch.cursorHash = none := by rw [hwatch]; rfl
  exact ⟨Guarded.unarmed (right_of_absent habsent hstart) (fun h => h hnone)
    (.inr ⟨habsent, hstart⟩) (fun hlt => absurd hlt (Nat.not_lt_zero _)),
    .of_none hnone⟩

/-- The hash of a block the chain has is never missing. -/
theorem WatchStored.hash_ne_none {watch : ChainWatch} {low high : ℕ}
    (h : WatchStored (Y.SaysBetween low high) cfg s watch)
    (htip : cfg.tip.isReorgable = true) (hle : s.map.cursor ≤ low) :
    watch.cursorHash ≠ none := by
  rcases h with ⟨hfinal, -⟩ | ⟨-, block, ⟨now, hlow, -, -, hview⟩, rfl⟩
  · rw [htip] at hfinal
    cases hfinal
  · intro hnone
    have hblock : block = none := by
      simpa [ChainWatch.trim] using hnone
    have hlt : now < s.map.cursor := (hview block rfl).mp hblock
    omega

/-- After the check of a pass the address is watched on the new chain.  Where
the repair left no hash, it also left a gap below the tip, unless there was
nothing to rewind. -/
theorem InStep.checked {truth : (q : Request) → Answer q → Prop}
    {s₁ : Process} (hbacks : Y.Backs truth) (hfix : X.HashesFix Y)
    (hX : X.feed.QuietAt a) (htip : cfg.tip.isReorgable = true)
    (hagree : X.AgreesUpTo Y (s.map.cursor - cfg.reorgWindow))
    (hrepair : RepairStep truth cfg s s₁)
    (hs : InStep X cfg.reorgWindow start tip a s) :
    Watched Y cfg.reorgWindow (some start) 0 a tip s₁ ∧
      (s₁.watch.cursorHash = none → Pristine start s₁ ∨
        (tip ≤ s₁.map.cursor →
          s₁.map.cursor - cfg.reorgWindow = s₁.map.cursor)) := by
  by_cases hpristine : Pristine start s
  · have hnone : s.watch.cursorHash = none := by rw [hpristine.2]; rfl
    have heq : s₁ = s := by
      cases hrepair with
      | final => rfl
      | unknown => rfl
      | same => rfl
      | repaired _ hhash =>
          rw [hnone] at hhash
          cases hhash
    rw [heq]
    exact ⟨hpristine.watched, fun _ => .inl hpristine⟩
  · have hkept : s.watch.cursorHash = none →
        s.map.cursor - cfg.reorgWindow = s.map.cursor := by
      intro hnone
      exact (hs.unhashed hnone).resolve_left hpristine
    have hunknown : s.watch.cursorHash = none →
        X.AgreesUpTo Y s.map.cursor := by
      intro hnone
      rw [hkept hnone] at hagree
      exact hagree
    rw [← Nat.zero_max (s.map.cursor - cfg.reorgWindow)] at hagree
    refine ⟨hrepair.watched hbacks.reads hbacks.hashes.check hfix htip hX
      hagree hunknown hs.watched, fun hnone => .inr fun hle => ?_⟩
    cases hrepair with
    | final hfinal =>
        rw [htip] at hfinal
        cases hfinal
    | unknown _ hhash => exact hkept hhash
    | same _ hhash =>
        rw [hnone] at hhash
        cases hhash
    | repaired _ hhash _ _ hrepaired =>
        have harmed : s.watch.cursorHash ≠ none := by simp [hhash]
        have hfloor : s.map.cursor - cfg.reorgWindow ≤
            max 0 (tip - cfg.reorgWindow) :=
          (hs.watched.guarded.ready harmed).2.1
        rw [hrepaired.watch_eq.2] at hle ⊢
        omega

theorem InStep.pass (hfix : X.HashesFix Y) (hX : X.feed.QuietAt a)
    (hY : Y.feed.QuietAt a) (htip : cfg.tip = .confirmations n)
    (hagree : X.AgreesUpTo Y (s.map.cursor - cfg.reorgWindow))
    (hmono : tip ≤ target)
    (hpass : PassRuns Y.growing cfg updates head s target head' s')
    (hs : InStep X cfg.reorgWindow start tip a s) :
    InStep Y cfg.reorgWindow start target a s' := by
  have hreorgable : cfg.tip.isReorgable = true := by rw [htip]; rfl
  obtain ⟨checked, resolved, scanned, s₁, hscan, hrepair, htarget,
    hadvanced⟩ := hpass.outcome Chain.growing_explains
  obtain ⟨hwatched, hunhashed⟩ := hs.checked (Chain.backs_saysBetween _ _)
    hfix hX hreorgable hagree hrepair
  have hreads := (Y.backs_saysBetween resolved scanned).reads
  obtain ⟨hwatched', -⟩ := (Watched.lasting hreorgable hY).advanced hreads
    (Chain.backs_saysBetween _ _).hashes hmono hadvanced hwatched
  refine ⟨hwatched', fun hnone => ?_⟩
  rcases hadvanced.split hreads.ranged with ⟨rfl, hle⟩ | ⟨s₂, hto, htaken⟩
  · rcases hunhashed hnone with hpristine | hgap
    · exact .inl hpristine
    · exact .inr (hgap (hmono.trans hle))
  · obtain ⟨rfl, hresolved⟩ := target_eq_of_resolves htip htarget
    have hscanned := Chain.growing_reaches hscan
    have hlow : s₂.map.cursor ≤ scanned := by
      rw [hto.reached]
      omega
    exact absurd hnone (htaken.watch.hash_ne_none hreorgable hlow)

/-- Every state of the run is in step with the chain of its last pass. -/
theorem ReorgRun.inStep {family : Set Chain}
    (hfix : ∀ X ∈ family, ∀ Y ∈ family, X.HashesFix Y)
    (hquiet : ∀ X ∈ family, X.feed.QuietAt a)
    (htip : cfg.tip = .confirmations n)
    (h : ReorgRun family cfg updates start X tip s) :
    X ∈ family ∧ InStep X cfg.reorgWindow start tip a s := by
  induction h with
  | start hX hmap hwatch =>
      have hpristine : Pristine start _ := ⟨hmap, hwatch⟩
      exact ⟨hX, hpristine.watched, fun _ => .inl hpristine⟩
  | pass hbefore hY hagree hpass hmono ih =>
      obtain ⟨hX, hs⟩ := ih
      exact ⟨hY, hs.pass (hfix _ hX _ hY) (hquiet _ hX) (hquiet _ hY) htip
        hagree hmono hpass⟩

/-- After every pass an address that is in the map has its balances on the
chain of that pass, and one that the chain touched since the start is there
unless its balances are zero. -/
theorem reorg_run_holds_balances {family : Set Chain}
    (hfix : ∀ X ∈ family, ∀ Y ∈ family, X.HashesFix Y)
    (hquiet : ∀ X ∈ family, X.feed.QuietAt a)
    (htip : cfg.tip = .confirmations n)
    (h : ReorgRun family cfg updates start X tip s) :
    (∀ e, s.map.get a = some e →
      e.reading.balances = X.balances a s.map.cursor) ∧
    ((∃ b, start < b ∧ b ≤ s.map.cursor ∧ X.Touches b a) →
      X.balances a s.map.cursor ≠ (0, 0) → s.map.get a ≠ none) := by
  have hwatched := (h.inStep hfix hquiet htip).2.watched
  obtain ⟨hcurrent, hknown⟩ :=
    hwatched.guarded.settled.right (Nat.zero_le _)
  constructor
  · intro e he
    apply hcurrent
    show s.map.holding a = _
    rw [BalanceMap.holding, he]
    rfl
  · intro htouched hnonzero hnone
    have hview : s.map.holding a = stored blank (X.balances a s.map.cursor) :=
      hknown (Feed.knownBy_some.mpr htouched)
    rw [BalanceMap.holding, hnone] at hview
    simp [stored, blank, hnonzero] at hview

end Steps

/-! ### A transfer that is replaced by another -/

namespace ReplacedTransfer

def holder : Address :=
  FixedBytes.filled 20 0xaa

def keeper : Address :=
  FixedBytes.filled 20 0xbb

/-- The receiver gets 5 in block 2. -/
def chain (receiver : Address) (tag : ℕ → ℕ) : Chain :=
  Chain.sketch (fun b => if b = 2 then [receiver] else [])
    (fun a b => if a = receiver ∧ 2 ≤ b then 5 else 0) tag

def unforked (_ : ℕ) : ℕ :=
  0

/-- The fork that replaces block 2 and what follows it. -/
def forked (b : ℕ) : ℕ :=
  if b < 2 then 0 else 1

def first : Chain :=
  chain holder unforked

def second : Chain :=
  chain keeper forked

def family : Set Chain :=
  {first, second}

def config : FollowConfig :=
  ⟨50, 600, .confirmations 0, 1, .wrapping⟩

def start : Process :=
  Process.launched (BalanceMap.new 0)

def middle : Process :=
  ((pass config true).exec (first.respond 2 3) () start).1.2

def finish : Process :=
  ((pass config true).exec (second.respond 3 3) () middle).1.2

theorem quiet {receiver : Address} (hreceiver : receiver ≠ Address.zero)
    (tag : ℕ → ℕ) : (chain receiver tag).Quiet := by
  apply Chain.sketch_quiet
  intro a b hne
  by_cases ha : a = receiver
  · subst ha
    have hb : b = 1 := by
      by_contra hb
      by_cases hlt : 2 ≤ b
      · simp [hlt, hlt.trans (Nat.le_succ b)] at hne
      · have hlt' : ¬ 2 ≤ b + 1 := by omega
        simp [hlt, hlt'] at hne
    subst hb
    exact ⟨hreceiver, by simp⟩
  · simp [ha] at hne

theorem balance_lt (receiver : Address) (tag : ℕ → ℕ) (token a : Address)
    (b : ℕ) : (chain receiver tag).balance token a b < 2 ^ 256 := by
  apply Chain.sketch_balance_lt
  intro a b
  split
  · decide
  · decide

theorem agrees : first.AgreesUpTo second 1 := by
  intro b hb
  have hne : b ≠ 2 := by omega
  have hlt : b < 2 := by omega
  have hle : ¬ 2 ≤ b := by omega
  have htag : forked b = unforked b := if_pos hlt
  simp [first, second, chain, Chain.sketch, htag, hne, hle]

theorem forks_fix {touched touched' : ℕ → List Address}
    {usdt usdt' : Address → ℕ → ℕ}
    (hagree : (Chain.sketch touched usdt unforked).AgreesUpTo
      (Chain.sketch touched' usdt' forked) 1) :
    ∀ X ∈ ({Chain.sketch touched usdt unforked,
        Chain.sketch touched' usdt' forked} : Set Chain),
      ∀ Y ∈ ({Chain.sketch touched usdt unforked,
          Chain.sketch touched' usdt' forked} : Set Chain), X.HashesFix Y := by
  have hold : ∀ b, unforked b < 2 ^ 64 := fun _ => Nat.two_pow_pos 64
  have hnew : ∀ b, forked b < 2 ^ 64 := by
    intro b
    unfold forked
    split
    · decide
    · decide
  have hbelow : ∀ m, unforked m = forked m →
      (Chain.sketch touched usdt unforked).AgreesUpTo
        (Chain.sketch touched' usdt' forked) m := by
    intro m hm
    have hlt : m < 2 := by
      by_contra hnot
      simp [unforked, forked, hnot] at hm
    exact hagree.mono (by omega)
  rintro X (rfl | rfl) Y (rfl | rfl)
  · exact Chain.sketch_hashesFix hold hold fun m _ => .refl m
  · exact Chain.sketch_hashesFix hold hnew hbelow
  · exact Chain.sketch_hashesFix hnew hold fun m hm => (hbelow m hm.symm).symm
  · exact Chain.sketch_hashesFix hnew hnew fun m _ => .refl m

theorem fix : ∀ X ∈ family, ∀ Y ∈ family, X.HashesFix Y :=
  forks_fix agrees

theorem middle_ok :
    ((pass config true).exec (first.respond 2 3) () start).1.1 = .ok () := by
  decide +kernel

theorem finish_ok :
    ((pass config true).exec (second.respond 3 3) () middle).1.1 = .ok () := by
  decide +kernel

theorem run : ∃ tip, ReorgRun family config true 0 second tip finish := by
  obtain ⟨early, hearly⟩ := pass_runs_iff.mp
    (first.runs_growing (pass config true) start (balance_lt _ _) middle_ok)
  obtain ⟨late, hlate⟩ := pass_runs_iff.mp
    (second.runs_growing (pass config true) middle (balance_lt _ _) finish_ok)
  have hle : early ≤ late := by
    have hfirst := hearly.target_mem rfl
    have hsecond := hlate.target_mem rfl
    omega
  have hcursor : middle.map.cursor - config.reorgWindow ≤ 1 := by
    decide +kernel
  have hstart : ReorgRun family config true 0 first 0 start :=
    .start (.inl rfl) rfl rfl
  have hmiddle : ReorgRun family config true 0 first early middle :=
    .pass hstart (.inl rfl) (.refl _) hearly (Nat.zero_le _)
  exact ⟨late, .pass hmiddle (.inr rfl) (agrees.mono hcursor) hlate hle⟩

/-- The keeper is in the map and the holder is not there with its 5. -/
theorem reorg_run_holds_balances_replaced :
    finish.map.get keeper ≠ none ∧
      ∀ e, finish.map.get holder = some e → e.reading.balances = (0, 0) := by
  obtain ⟨tip, hrun⟩ := run
  have hkeeper : keeper ≠ Address.zero := by decide
  have hholder : holder ≠ Address.zero := by decide
  have hquiet : ∀ a, a ≠ Address.zero → ∀ X ∈ family, X.feed.QuietAt a := by
    rintro a ha X (rfl | rfl)
    · exact (quiet hholder _).quietAt ha
    · exact (quiet hkeeper _).quietAt ha
  have hcursor : finish.map.cursor = 3 := by decide +kernel
  constructor
  · have hkept := (reorg_run_holds_balances fix (hquiet keeper hkeeper) rfl
      hrun).2
    rw [hcursor] at hkept
    have htouched : second.Touches 2 keeper :=
      (touches_iff hkeeper).mpr
        ⟨USDT, by decide, Chain.sketch_moves hkeeper List.mem_cons_self⟩
    exact hkept ⟨2, by decide, by decide, htouched⟩ (by decide)
  · have hheld := (reorg_run_holds_balances fix (hquiet holder hholder) rfl
      hrun).1
    rw [hcursor] at hheld
    intro e he
    rw [hheld e he]
    decide

end ReplacedTransfer

end UsdtPir
