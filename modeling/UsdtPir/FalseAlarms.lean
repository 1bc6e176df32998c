import UsdtPir.FaithfulProvider
import UsdtPir.PirView
import UsdtPir.ReorgWatch

/-!
# Reorgs that did not happen

The hash of a watch is taken at the end of a pass and checked at the start of
the next.  On a chain that only grows, the check passes as long as the hash
belongs to the block at the cursor.  A pass that folds a chunk and fails before
it takes the new hash leaves the old one with a cursor further on.
-/

namespace UsdtPir

open Interaction

/-- The stored hash is that of the block at the cursor, which the provider has. -/
def Fresh (X : Chain) (head : ℕ) (s : Process) : Prop :=
  ∀ known, s.watch.cursorHash = some known →
    s.map.cursor ≤ head ∧ known = X.hash s.map.cursor

/-- Some true answer to the next check is taken for a reorg. -/
def Chain.Alarms (X : Chain) (s : Process) : Prop :=
  ∃ known head block, s.watch.cursorHash = some known ∧
    s.map.cursor ≤ head ∧
      X.Says head (.blockByNumber s.map.cursor)
        (Except.ok block : Except RpcError (Option Block)) ∧
      block.map Block.hash ≠ some known

namespace RoundRecord

/-- A pass that had a hash failed after it moved the cursor and before it took
the hash of the block it moved to. -/
def LosesHash (r : RoundRecord) : Prop :=
  r.outcome ≠ .ok () ∧ r.before.watch.cursorHash ≠ none ∧
    r.after.watch.cursorHash = r.before.watch.cursorHash ∧
      r.before.map.cursor < r.after.map.cursor

/-- The cursor did not fall, and no reading was applied by a repair. -/
def OnlyAdvances (r : RoundRecord) : Prop :=
  r.before.map.cursor ≤ r.after.map.cursor ∧
    repairsSince r.before r.after = []

end RoundRecord

/-- From `s` to `s'` chunks were folded and nothing was repaired. -/
structure Onward (s s' : Process) : Prop where
  cursor : s.map.cursor ≤ s'.map.cursor
  history : ∃ new, s'.history = s.history ++ new ∧
    ∀ x ∈ new, x.byRepair = false

/-- The watch still has the hash of a block the cursor has left. -/
def LeftBehind (s s' : Process) : Prop :=
  s.watch.cursorHash ≠ none ∧ s'.watch.cursorHash = s.watch.cursorHash ∧
    s.map.cursor < s'.map.cursor

section Stages

variable {X : Chain} {truth scan store : (q : Request) → Answer q → Prop}
    {cfg : FollowConfig} {updates : Bool} {target n : ℕ}
    {head head' checked : ℕ} {s s₁ s' : Process}

theorem Onward.refl (s : Process) : Onward s s :=
  ⟨le_rfl, [], (List.append_nil _).symm, by simp⟩

theorem Onward.congr (h : Onward s s₁) (hmap : s'.map = s₁.map)
    (hhistory : s'.history = s₁.history) : Onward s s' := by
  constructor
  · rw [hmap]
    exact h.cursor
  · rw [hhistory]
    exact h.history

theorem Onward.repairsSince (h : Onward s s') : repairsSince s s' = [] := by
  rcases h.history with ⟨new, hnew, hsync⟩
  have hsplit : s'.history = s.history ++ ([] ++ new) := by
    rw [hnew, List.nil_append]
  exact (since_eq hsplit (by simp) hsync).1

theorem Fresh.mono (h : Fresh X head s) (hle : head ≤ head') :
    Fresh X head' s := by
  intro known hknown
  have hold := h known hknown
  exact ⟨hold.1.trans hle, hold.2⟩

theorem Fresh.congr (h : Fresh X head s) (hmap : s'.map = s.map)
    (hwatch : s'.watch = s.watch) : Fresh X head s' := by
  rw [Fresh, hmap, hwatch]
  exact h

theorem Fresh.of_none (h : s.watch.cursorHash = none) : Fresh X head s := by
  intro known hknown
  rw [h] at hknown
  contradiction

theorem Chain.Says.hash_eq {m : ℕ} {block : Option Block}
    (h : X.Says head (.blockByNumber m)
      (Except.ok block : Except RpcError (Option Block)))
    (hle : m ≤ head) : block.map Block.hash = some (X.hash m) := by
  cases block with
  | none =>
      have hlt : head < m := (h.2 none rfl).mp rfl
      omega
  | some b =>
      have hhash : b.hash = X.hash m := (h.1 b rfl).2
      simp [hhash]

theorem Fresh.not_alarms (h : Fresh X head s) : ¬ X.Alarms s := by
  intro halarms
  rcases halarms with ⟨known, head', block, hknown, hle, htells, hne⟩
  apply hne
  rw [htells.hash_eq hle, (h known hknown).2]

/-- With a fresh hash the check finds nothing to repair. -/
theorem RepairStep.eq_of_fresh (h : RepairStep (X.SaysBetween head checked)
      cfg s s₁) (hs : Fresh X head s) : s₁ = s := by
  cases h with
  | final => rfl
  | unknown => rfl
  | same => rfl
  | @repaired known block _ _ hhash hanswer hne _ =>
      exfalso
      rcases hanswer with ⟨now, hlow, -, htells⟩
      have hfresh := hs known hhash
      apply hne
      rw [htells.hash_eq (hfresh.1.trans hlow), hfresh.2]

theorem SyncStarted.onward {lo' : ℕ} (hranged : Ranged truth)
    (hlt : s.map.cursor < target) (hstart : SyncStarted cfg target s s₁)
    (hchunks : Chunks truth cfg target (s.map.cursor + 1) s₁ lo' s') :
    Onward s s' := by
  have hscanned := hstart.scanned hchunks (.refl _)
  have hcursor := (hscanned.cursor_le hranged hlt).1
  rcases hchunks.journaled with ⟨new, hnew⟩
  refine ⟨hcursor, new, ?_, hnew.bySync⟩
  rcases hstart with ⟨progress, rfl⟩
  exact hnew.history

theorem Advanced.onward (hranged : Ranged scan)
    (h : Advanced scan store cfg updates target s s') : Onward s s' := by
  cases h with
  | idle => exact .refl s
  | @synced s₁ s₂ _ lo' hlt hstart hchunks hend hwatch hpublished hstate =>
      have honward := hstart.onward hranged hlt hchunks
      apply honward.congr
      · rw [hstate]
        exact (hstart.pruned_same hchunks).map
      · rw [hstate]
        rfl

theorem AdvanceFails.onward (hranged : Ranged scan)
    (h : AdvanceFails scan store cfg target s s') : Onward s s' := by
  cases h with
  | @syncing s₁ _ lo' hlt hstart hchunks =>
      exact hstart.onward hranged hlt hchunks
  | @finishing s₁ s₂ _ lo' hlt hstart hchunks hend hwatch hsaved hstate =>
      have honward := hstart.onward hranged hlt hchunks
      apply honward.congr
      · rw [hstate]
        exact (hstart.pruned_same hchunks).map
      · rw [hstate]
        rfl

/-- The hash that is taken is that of the block at the cursor. -/
theorem HashTaken.fresh (htip : cfg.tip.isReorgable = true)
    (hbetween : s.map.cursor ≤ head)
    (h : HashTaken (X.SaysBetween head head') cfg s s') : Fresh X head' s' := by
  rcases h.watch with ⟨hfinal, -⟩ | ⟨-, block, hanswer, hwatch⟩
  · rw [htip] at hfinal
    contradiction
  · rcases hanswer with ⟨now, hlow, hhigh, htells⟩
    have hhash := htells.hash_eq (hbetween.trans hlow)
    intro known hknown
    rw [hwatch] at hknown
    change block.map Block.hash = some known at hknown
    rw [hhash, Option.some.injEq] at hknown
    rw [h.map]
    exact ⟨by omega, hknown.symm⟩

/-- Where chunks end, the hash is fresh or left behind. -/
theorem Scanned.fresh_or_left (hranged : Ranged truth)
    (hlt : s.map.cursor < target)
    (h : Scanned truth cfg target s s') (hs : Fresh X head s) :
    Fresh X head s' ∨ LeftBehind s s' := by
  have hle := (h.cursor_le hranged hlt).1
  have hhash := h.cursorHash
  by_cases hnone : s.watch.cursorHash = none
  · left
    apply Fresh.of_none
    rw [hhash, hnone]
  · by_cases hmoved : s.map.cursor < s'.map.cursor
    · right
      exact ⟨hnone, hhash, hmoved⟩
    · left
      have hstayed : s'.map.cursor = s.map.cursor := by omega
      rw [Fresh, hhash, hstayed]
      exact hs

theorem Advanced.fresh (htip : cfg.tip.isReorgable = true)
    {resolved scanned : ℕ} (hreach : resolved ≤ scanned)
    (hend : scanned ≤ head') (htarget : target ≤ resolved)
    (h : Advanced (X.SaysBetween resolved scanned)
      (X.SaysBetween scanned head') cfg updates target s s')
    (hs : Fresh X resolved s) : Fresh X head' s' := by
  have hranged := (X.backs_saysBetween resolved scanned).reads.ranged
  rcases h.split hranged with ⟨rfl, -⟩ | ⟨s₁, hto, htaken⟩
  · exact hs.mono (by omega)
  · apply htaken.fresh htip
    rw [hto.reached]
    omega

theorem AdvanceFails.fresh_or_left (htip : cfg.tip.isReorgable = true)
    {resolved scanned : ℕ} (hreach : resolved ≤ scanned)
    (hend : scanned ≤ head') (htarget : target ≤ resolved)
    (h : AdvanceFails (X.SaysBetween resolved scanned)
      (X.SaysBetween scanned head') cfg target s s')
    (hs : Fresh X resolved s) : Fresh X head' s' ∨ LeftBehind s s' := by
  have hranged := (X.backs_saysBetween resolved scanned).reads.ranged
  rcases h.split hranged with ⟨hlt, hscanned | ⟨s₁, hto, htaken⟩⟩
  · exact hscanned.fresh_or_left hranged hlt (hs.mono (by omega))
  · left
    apply htaken.fresh htip
    rw [hto.reached]
    omega

/-! ## One round -/

variable {passed : ℕ} {stages : Stages} {outcome : Except Failure Unit}

theorem Round.onward (htip : cfg.tip = .confirmations n)
    (hstaged : StagedBy X.growing X.SaysBetween head passed stages)
    (hpassed : passed ≤ head') (h : Round stages cfg updates s outcome s')
    (hs : Fresh X head s) :
    Onward s s' ∧
      (Fresh X head' s' ∨ outcome ≠ .ok () ∧ LeftBehind s s') := by
  have hreorgable : cfg.tip.isReorgable = true := by
    rw [htip]
    rfl
  rcases hstaged with @⟨checked, resolved, scanned, hcheck, htold, hscan, hstore⟩
  have hchecked := Chain.growing_reaches hcheck
  have hresolved := Chain.growing_reaches htold
  have hscanned := Chain.growing_reaches hscan
  have hstored := Chain.growing_reaches hstore
  have hranged := (X.backs_saysBetween resolved scanned).reads.ranged
  have hfresh : Fresh X resolved s := hs.mono (by omega)
  rcases h with ⟨-, s₁, ⟨hrepair, htarget, hadvanced⟩, hs'⟩ |
    ⟨chain, hfailed, s₁, hfails, -, hs'⟩
  · have hsame := hrepair.eq_of_fresh hs
    subst hsame
    have hbound := (target_eq_of_resolves htip htarget).1
    have hafter := hadvanced.fresh hreorgable hscanned hstored (by omega) hfresh
    constructor
    · apply (hadvanced.onward hranged).congr <;> rw [hs']
    · left
      exact (hafter.mono hpassed).congr (by rw [hs']) (by rw [hs'])
  · have hne : outcome ≠ .ok () := by
      rw [hfailed]
      simp
    have hmap : s'.map = s₁.map := by rw [hs']
    have hwatch : s'.watch = s₁.watch := by rw [hs']
    have hhistory : s'.history = s₁.history := by rw [hs']
    cases hfails with
    | checking =>
        refine ⟨(Onward.refl _).congr hmap hhistory, ?_⟩
        left
        exact (hs.mono (by omega)).congr hmap hwatch
    | resolving hrepair =>
        have hsame := hrepair.eq_of_fresh hs
        subst hsame
        refine ⟨(Onward.refl _).congr hmap hhistory, ?_⟩
        left
        exact (hs.mono (by omega)).congr hmap hwatch
    | advancing hrepair htarget hfails =>
        have hsame := hrepair.eq_of_fresh hs
        subst hsame
        have hbound := (target_eq_of_resolves htip htarget).1
        refine ⟨(hfails.onward hranged).congr hmap hhistory, ?_⟩
        rcases hfails.fresh_or_left hreorgable hscanned hstored (by omega)
          hfresh with hafter | hleft
        · left
          exact (hafter.mono hpassed).congr hmap hwatch
        · right
          rw [LeftBehind, hmap, hwatch]
          exact ⟨hne, hleft⟩

end Stages

/-! ## Runs -/

section Runs

variable {X : Chain} {cfg : FollowConfig} {updates : Bool} {n : ℕ}
    {head head' : ℕ} {s s' : Process} {rounds : List RoundRecord}

/-- While no round loses the hash, every round only advances. -/
theorem FollowRun.fresh (htip : cfg.tip = .confirmations n)
    (hrun : FollowRun X.growing cfg updates head s rounds head' s')
    (hs : s.watch.cursorHash = none)
    (hkeeps : ∀ r ∈ rounds, ¬ r.LosesHash) :
    Fresh X head' s' ∧ ∀ r ∈ rounds, ¬ X.Alarms r.after ∧ r.OnlyAdvances := by
  induction hrun with
  | start => exact ⟨.of_none hs, by simp⟩
  | @round rounds middle final s₁ s₂ outcome hrun hround ih =>
      have hearlier : ∀ r ∈ rounds, ¬ r.LosesHash := by
        intro r hr
        exact hkeeps r (List.mem_append_left _ hr)
      have hlast : ¬ RoundRecord.LosesHash ⟨s₁, outcome, s₂⟩ :=
        hkeeps _ (by simp)
      have hbefore := ih hearlier
      rcases (meets_followRound Chain.growing_explains).of_ok hround with
        ⟨passed, stages, hstaged, hafter, hround'⟩
      have hstep := hround'.onward htip hstaged (Chain.growing_reaches hafter)
        hbefore.1
      have hfresh : Fresh X final s₂ := by
        rcases hstep.2 with hfresh | ⟨hne, hleft⟩
        · exact hfresh
        · exact absurd ⟨hne, hleft⟩ hlast
      refine ⟨hfresh, ?_⟩
      intro r hr
      rcases List.mem_append.mp hr with hr | hr
      · exact hbefore.2 r hr
      · rw [List.mem_singleton] at hr
        subst hr
        exact ⟨hfresh.not_alarms, hstep.1.cursor, hstep.1.repairsSince⟩

theorem HashKnown.lasting (htip : cfg.tip.isReorgable = true) :
    Lasting X cfg X.BacksHashes (fun _ => HashKnown X) where
  mono _ hs := hs
  same hsame hs := hs.same hsame
  chunk hreads _ hchunk hs := hs.chunk hreads hchunk
  hash hhashes hcursor hbound htaken _ :=
    htaken.hashKnown htip hhashes (hcursor ▸ hbound)
  repair _ hrepair hs := hs.repair hrepair

/-- Every state of a run has a hash of a block it has seen. -/
theorem FollowRun.hashKnown (htip : cfg.tip = .confirmations n)
    (hrun : FollowRun X.growing cfg updates head s rounds head' s')
    (hs : HashKnown X s) :
    HashKnown X s' ∧ ∀ r ∈ rounds, HashKnown X r.before ∧ HashKnown X r.after := by
  have hreorgable : cfg.tip.isReorgable = true := by
    rw [htip]
    rfl
  have hlasting := HashKnown.lasting (X := X) hreorgable
  induction hrun with
  | start => exact ⟨hs, by simp⟩
  | @round rounds middle final s₁ s₂ outcome hrun hround ih =>
      have hbefore := ih
      have hone : FollowRun X.growing cfg updates middle s₁
          ([] ++ [⟨s₁, outcome, s₂⟩]) final s₂ := .round .start hround
      have hunder := (hlasting.followRun
        (fun _ _ => (X.backs_saysBetween _ _).hashes) htip hone
        ⟨0, Nat.zero_le _, hbefore.1⟩).1
      rcases hunder with ⟨-, -, hafter⟩
      refine ⟨hafter, ?_⟩
      intro r hr
      rcases List.mem_append.mp hr with hr | hr
      · exact hbefore.2 r hr
      · rw [List.mem_singleton] at hr
        subst hr
        exact ⟨hbefore.1, hafter⟩

/-- A hash left behind is taken for a reorg. -/
theorem RoundRecord.LosesHash.alarms (hfix : X.HashesFix X) {r : RoundRecord}
    (hbefore : HashKnown X r.before) (hafter : HashKnown X r.after)
    (h : r.LosesHash) : X.Alarms r.after := by
  rcases h with ⟨-, hsome, hhash, hlt⟩
  rcases Option.ne_none_iff_exists'.mp hsome with ⟨known, hknown⟩
  rw [hknown] at hhash
  rcases hbefore known hknown with ⟨-, m, hm, hmhash⟩
  have hbound := (hafter known hhash).1
  refine ⟨known, r.after.map.cursor,
    some ⟨r.after.map.cursor, X.hash r.after.map.cursor⟩, hhash, le_rfl,
    ⟨?_, ?_⟩, ?_⟩
  · intro b hb
    cases hb
    exact ⟨rfl, rfl⟩
  · intro block hblock
    cases hblock
    simp
  · intro heq
    have hsame : X.hash r.after.map.cursor = X.hash m := by
      rw [hmhash]
      simpa using heq
    have hsame' := (hfix _ m hbound (by omega) hsame).1
    omega

/-- On a chain that only grows no round repairs anything, and none could,
exactly when no round loses the hash. -/
theorem follow_never_alarms_iff (htip : cfg.tip = .confirmations n)
    (hfix : X.HashesFix X) {now : ℕ}
    (hrun : FollowRun X.growing cfg updates head (s.startFollow now) rounds
      head' s') :
    (∀ r ∈ rounds, ¬ X.Alarms r.after ∧ r.OnlyAdvances) ↔
      ∀ r ∈ rounds, ¬ r.LosesHash := by
  constructor
  · intro hquiet r hr hloses
    have hknown := (hrun.hashKnown htip (.of_none rfl)).2 r hr
    exact (hquiet r hr).1 (hloses.alarms hfix hknown.1 hknown.2)
  · intro hkeeps
    exact (hrun.fresh htip rfl hkeeps).2

/-- No reorg would ever be reported on the chain while it only grows. -/
def NeverAlarms (X : Chain) (cfg : FollowConfig) (updates : Bool) : Prop :=
  ∀ {head head' now : ℕ} {s s' : Process} {rounds : List RoundRecord},
    FollowRun X.growing cfg updates head (s.startFollow now) rounds head' s' →
      ∀ r ∈ rounds, r.OnlyAdvances

end Runs

/-! ### A pass that times out between two chunks -/

namespace TimedOut

def holder : Address :=
  FixedBytes.filled 20 0xaa

/-- The holder receives 5 in block 1. -/
def chain : Chain :=
  Chain.sketch (fun b => if b = 1 then [holder] else [])
    (fun a b => if a = holder ∧ 1 ≤ b then 5 else 0) (fun _ => 0)

def config : FollowConfig :=
  ⟨1, 600, .confirmations 0, 64, .wrapping⟩

def start : Process :=
  (Process.launched (BalanceMap.new 0)).startFollow 0

/-- The logs of block 3 cannot be fetched. -/
def logsTimeOut : (q : Request) → Option (Answer q)
  | .getLogs f => if f.fromBlock = 3 then some (Except.error ⟨"timeout"⟩) else none
  | _ => none

/-- The tip cannot be resolved. -/
def tipTimesOut : (q : Request) → Option (Answer q)
  | .blockNumber => some (Except.error ⟨"timeout"⟩)
  | _ => none

/-- The chain grows to three blocks once a hash was asked for. -/
def respond (head : ℕ) (q : Request) : Answer q × ℕ :=
  ((chain.respond head 3 () q).1,
    match q with
    | .blockByNumber _ => max head 3
    | _ => head)

def first : Process :=
  ((followRound config true).exec respond 1 start).1.2

def second : Process :=
  ((followRound config true).exec (chain.respondUnless logsTimeOut 3 3) ()
    first).1.2

def third : Process :=
  ((followRound config true).exec (chain.respondUnless tipTimesOut 3 3) ()
    second).1.2

theorem balance_lt (token a : Address) (b : ℕ) :
    chain.balance token a b < 2 ^ 256 := by
  apply Chain.sketch_balance_lt
  intro a b
  split
  · decide
  · decide

theorem fix : chain.HashesFix chain := by
  apply Chain.sketch_hashesFix
  · intro b
    exact Nat.two_pow_pos 64
  · intro b
    exact Nat.two_pow_pos 64
  · intro m _
    exact .refl m

theorem growing_respond (head : ℕ) (q : Request) :
    chain.growing head q (respond head q).1 (respond head q).2 := by
  refine ⟨?_, chain.says_respond balance_lt head 3 () q⟩
  cases q with
  | blockByNumber n => exact le_max_left head 3
  | _ => exact le_rfl

theorem first_ok : ((followRound config true).exec respond 1 start).1.1 =
    .ok (.ok ()) := by
  decide +kernel

theorem first_final : ((followRound config true).exec respond 1 start).2 = 3 := by
  decide +kernel

theorem second_failed :
    ((followRound config true).exec (chain.respondUnless logsTimeOut 3 3) ()
      first).1.1 = .ok (.error (.err ["timeout"])) := by
  decide +kernel

theorem third_failed :
    ((followRound config true).exec (chain.respondUnless tipTimesOut 3 3) ()
      second).1.1 = .ok (.error (.err ["timeout"])) := by
  decide +kernel

theorem says_logsTimeOut (q : Request) (answer : Answer q)
    (h : logsTimeOut q = some answer) : chain.Says 3 q answer := by
  cases q with
  | getLogs f =>
      by_cases hthird : f.fromBlock = 3
      · simp only [logsTimeOut, if_pos hthird] at h
        cases h
        constructor
        · intro logs hlogs
          cases hlogs
        · trivial
      · simp only [logsTimeOut, if_neg hthird] at h
        contradiction
  | _ => cases h

theorem says_tipTimesOut (q : Request) (answer : Answer q)
    (h : tipTimesOut q = some answer) : chain.Says 3 q answer := by
  cases q with
  | blockNumber =>
      cases h
      constructor
      · trivial
      · intro m hm
        cases hm
  | _ => cases h

theorem run_first : FollowRun chain.growing config true 1 start
    [⟨start, .ok (), first⟩] 3 first := by
  have hround := Program.runs_exec id (followRound config true) 1 start
    growing_respond
  rw [first_ok, first_final] at hround
  exact .round .start hround

def rounds : List RoundRecord :=
  [⟨start, .ok (), first⟩, ⟨first, .error (.err ["timeout"]), second⟩,
    ⟨second, .error (.err ["timeout"]), third⟩]

theorem run : FollowRun chain.growing config true 1 start rounds 3 third := by
  have hsecond := chain.runs_still (followRound config true) first
    (chain.says_respondUnless balance_lt says_logsTimeOut 3) second_failed
  have hthird := chain.runs_still (followRound config true) second
    (chain.says_respondUnless balance_lt says_tipTimesOut 3) third_failed
  exact .round (.round run_first hsecond) hthird

theorem follow_never_alarms_first :
    (∀ r ∈ [(⟨start, .ok (), first⟩ : RoundRecord)],
        ¬ chain.Alarms r.after ∧ r.OnlyAdvances) ↔
      ∀ r ∈ [(⟨start, .ok (), first⟩ : RoundRecord)], ¬ r.LosesHash :=
  follow_never_alarms_iff rfl fix run_first

/-- The pass after the one that timed out goes back to block 0 and reads the
holder there, although nothing was replaced. -/
theorem follow_alarms_without_reorg :
    chain.HashesFix chain ∧ ¬ NeverAlarms chain config true := by
  refine ⟨fix, ?_⟩
  intro hnever
  have hlast := hnever run ⟨second, .error (.err ["timeout"]), third⟩
    (by simp [rounds])
  have hkept := hlast.1
  dsimp only at hkept
  have hfell : third.map.cursor < second.map.cursor := by
    decide +kernel
  exact absurd hkept (Nat.not_le_of_lt hfell)

end TimedOut

end UsdtPir
