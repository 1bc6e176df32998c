import UsdtPir.PirView

/-!
# Which changes of a run reach the PIR thread

The syncer keeps what a failed pass folded into the map, and the repair of a
pass changes the map outside the bookkeeping of the sync.  Both kinds of
change reach the PIR thread only if a later sync happens to report the same
address; the theorems give the exact condition, over one pass for repairs and
over whole runs of the loop for failed passes.
-/

namespace UsdtPir

open Interaction
open Program

/-- A pass that starts with the view equal to the map leaves them equal at
every address its repair changed, exactly when its sync reports them all. -/
theorem pass_reports_repairs_iff {ω : Type}
    {env : Environment Request Answer ω} {world final : ω}
    {cfg : FollowConfig} {s s' : Process}
    {initial : Address → Option Entry}
    (hrun : (pass cfg true).Runs env world s final (.ok ()) s')
    (hview : ∀ a, pirView initial s.sent a = s.map.get a) :
    (∀ a, entryAfterRepair s s' a ≠ s.map.get a →
        pirView initial s'.sent a = s'.map.get a) ↔
      ∀ a, entryAfterRepair s s' a ≠ s.map.get a →
        reported (s.map.get a) (entryAfterRepair s s' a)
          (readingsOf a (syncsSince s s')) = true := by
  have hkeeps : env.Keeps fun _ _ => True := fun _ _ _ _ _ => trivial
  obtain ⟨stages, -, hok⟩ := (meets_pass hkeeps.explains).of_ok hrun
  refine forall_congr' fun a => forall_congr' fun _ => ?_
  rw [hok.view_eq_iff initial a, hview a]

/-! ### A repair that nobody hears of -/

namespace OrphanedTransfer

def holder : Address :=
  FixedBytes.filled 20 0xaa

/-- The chain that won: its block 2 is a new one, and the holder never got
anything. -/
def chain : Chain :=
  Chain.sketch (fun _ => []) (fun _ _ => 0) (fun b => if b < 2 then 0 else 1)

/-- The chain that was followed before. -/
def orphaned : Chain :=
  Chain.sketch (fun b => if b = 2 then [holder] else [])
    (fun a b => if a = holder ∧ 2 ≤ b then 5 else 0) (fun _ => 0)

def config : FollowConfig :=
  ⟨50, 600, .confirmations 0, 1, .wrapping⟩

/-- The state after block 2 of the orphaned chain was folded in and the PIR
database was built from the map. -/
def start : Process :=
  { Process.launched ⟨AList.singleton holder ⟨5, 2, 0, 0⟩, 2⟩ with
    watch := ⟨some (orphaned.hash 2), [(2, [holder])]⟩ }

def finish : Process :=
  ((pass config true).exec (chain.respond 3 3) () start).1.2

theorem balance_lt (token a : Address) (b : ℕ) :
    chain.balance token a b < 2 ^ 256 :=
  Chain.sketch_balance_lt (fun _ _ => Nat.succ_pos 7) token a b

theorem finish_ok :
    ((pass config true).exec (chain.respond 3 3) () start).1.1 = .ok () := by
  decide +kernel

theorem runs :
    (pass config true).Runs (Environment.of (chain.Says 3)) () start ()
      (.ok ()) finish :=
  chain.runs_exec (pass config true) start balance_lt finish_ok

theorem pass_reports_repairs_orphaned :
    (∀ a, entryAfterRepair start finish a ≠ start.map.get a →
        pirView start.map.get finish.sent a = finish.map.get a) ↔
      ∀ a, entryAfterRepair start finish a ≠ start.map.get a →
        reported (start.map.get a) (entryAfterRepair start finish a)
          (readingsOf a (syncsSince start finish)) = true :=
  pass_reports_repairs_iff runs fun _ => rfl

/-- The repair removed the holder, and the view still has its balance. -/
theorem pass_hides_repair :
    (pass config true).Runs (Environment.of (chain.Says 3)) () start ()
        (.ok ()) finish ∧
      (∀ a, pirView start.map.get start.sent a = start.map.get a) ∧
      ¬ ∀ a, entryAfterRepair start finish a ≠ start.map.get a →
        pirView start.map.get finish.sent a = finish.map.get a := by
  have hchanged : entryAfterRepair start finish holder ≠
      start.map.get holder := by
    decide +kernel
  have hstale : pirView start.map.get finish.sent holder ≠
      finish.map.get holder := by
    decide +kernel
  exact ⟨runs, fun _ => rfl, fun hall => hstale (hall holder hchanged)⟩

end OrphanedTransfer

/-! ## Failed passes -/

/-- The readings change what is held for an address. -/
def changesEntry (held : Option Entry) (readings : List (Reading × Touch)) :
    Bool :=
  match held with
  | none => readings.any fun x => !x.1.isZero
  | some e => readings.any (entryRules.stirs e)

/-- A chunk of one of these rounds, a failed one, inserted, updated or removed
the address. -/
def ChangedByFailedPass (rounds : List RoundRecord) (a : Address) : Prop :=
  ∃ r ∈ rounds, r.outcome ≠ .ok () ∧
    changesEntry (entryAfterRepair r.before r.after a)
      (readingsOf a (syncsSince r.before r.after)) = true

/-- In every run of the loop: the view has the entry of the map, after every
pass that returned `Ok`, at every address an earlier failed pass changed,
exactly when each of these passes reports these addresses itself. -/
theorem follow_reports_failed_passes_iff {ω : Type}
    {env : Environment Request Answer ω} {cfg : FollowConfig}
    {world final : ω} {s s' : Process} {rounds : List RoundRecord} {now : ℕ}
    {initial : Address → Option Entry}
    (hrun : FollowRun env cfg true world (s.startFollow now) rounds final s') :
    (∀ earlier r later, rounds = earlier ++ r :: later → r.outcome = .ok () →
        ∀ a, ChangedByFailedPass earlier a →
          pirView initial r.after.sent a = r.after.map.get a) ↔
      ∀ earlier r later, rounds = earlier ++ r :: later →
        r.outcome = .ok () → ∀ a, ChangedByFailedPass earlier a →
          reported (pirView initial r.before.sent a)
            (entryAfterRepair r.before r.after a)
            (readingsOf a (syncsSince r.before r.after)) = true := by
  have hpass : ∀ r ∈ rounds, r.outcome = .ok () → ∀ a,
      (pirView initial r.after.sent a = r.after.map.get a ↔
        reported (pirView initial r.before.sent a)
          (entryAfterRepair r.before r.after a)
          (readingsOf a (syncsSince r.before r.after)) = true) := by
    intro r hr hok a
    obtain ⟨stages, ⟨-, s₁, hpassOk, hafter⟩ | ⟨chain, hfailed, -⟩⟩ :=
      hrun.mem hr
    · rw [hafter]
      exact hpassOk.view_eq_iff initial a
    · rw [hok] at hfailed
      cases hfailed
  have hmem : ∀ earlier (r : RoundRecord) later,
      rounds = earlier ++ r :: later → r ∈ rounds := by
    intro earlier r later hsplit
    rw [hsplit]
    simp
  constructor
  · intro hview earlier r later hsplit hok a ha
    exact (hpass r (hmem earlier r later hsplit) hok a).mp
      (hview earlier r later hsplit hok a ha)
  · intro hreported earlier r later hsplit hok a ha
    exact (hpass r (hmem earlier r later hsplit) hok a).mpr
      (hreported earlier r later hsplit hok a ha)

/-! ### A change lost to a snapshot that could not be written -/

namespace FailedSave

def holder : Address :=
  FixedBytes.filled 20 0xaa

/-- The holder receives 5 in block 1. -/
def chain : Chain :=
  Chain.sketch (fun b => if b = 1 then [holder] else [])
    (fun a b => if a = holder ∧ 1 ≤ b then 5 else 0) (fun _ => 0)

def config : FollowConfig :=
  ⟨50, 600, .finalized, 64, .wrapping⟩

def start : Process :=
  (Process.launched (BalanceMap.new 0)).startFollow 0

/-- The disk is full. -/
def respondDiskFull (world : Unit) (q : Request) : Answer q × Unit :=
  match q with
  | .save _ => (Except.error ⟨"No space left on device"⟩, ())
  | q => chain.respond 1 3 world q

def middle : Process :=
  ((followRound config true).exec respondDiskFull () start).1.2

def finish : Process :=
  ((followRound config true).exec (chain.respond 1 3) () middle).1.2

def rounds : List RoundRecord :=
  [⟨start, .error (.err ["No space left on device"]), middle⟩,
    ⟨middle, .ok (), finish⟩]

theorem balance_lt (token a : Address) (b : ℕ) :
    chain.balance token a b < 2 ^ 256 := by
  apply Chain.sketch_balance_lt
  intro a b
  split
  · decide
  · decide

theorem says_respondDiskFull (world : Unit) (q : Request) :
    chain.Says 1 q (respondDiskFull world q).1 := by
  cases q with
  | save map => exact ⟨trivial, trivial⟩
  | _ => exact chain.says_respond balance_lt 1 3 world _

theorem middle_failed :
    ((followRound config true).exec respondDiskFull () start).1.1 =
      .ok (.error (.err ["No space left on device"])) := by
  decide +kernel

theorem finish_ok :
    ((followRound config true).exec (chain.respond 1 3) () middle).1.1 =
      .ok (.ok ()) := by
  decide +kernel

theorem runs :
    FollowRun (Environment.of (chain.Says 1)) config true () start rounds ()
      finish := by
  have hfirst : (followRound config true).Runs
      (Environment.of (chain.Says 1)) () start ()
      (.ok (.error (.err ["No space left on device"]))) middle := by
    rw [← middle_failed]
    exact Program.runs_exec id (followRound config true) () start
      says_respondDiskFull
  have hsecond := chain.runs_exec (followRound config true) middle balance_lt
    finish_ok
  exact .round (.round .start hfirst) hsecond

theorem follow_reports_failed_passes_save :
    (∀ earlier r later, rounds = earlier ++ r :: later → r.outcome = .ok () →
        ∀ a, ChangedByFailedPass earlier a →
          pirView (BalanceMap.new 0).get r.after.sent a =
            r.after.map.get a) ↔
      ∀ earlier r later, rounds = earlier ++ r :: later →
        r.outcome = .ok () → ∀ a, ChangedByFailedPass earlier a →
          reported (pirView (BalanceMap.new 0).get r.before.sent a)
            (entryAfterRepair r.before r.after a)
            (readingsOf a (syncsSince r.before r.after)) = true :=
  follow_reports_failed_passes_iff runs

/-- The pass that failed put the holder into the map; the one that succeeded
found nothing to do, and the view never learned of it. -/
theorem follow_loses_change :
    FollowRun (Environment.of (chain.Says 1)) config true () start rounds ()
        finish ∧
      ¬ ∀ earlier r later, rounds = earlier ++ r :: later →
        r.outcome = .ok () → ∀ a, ChangedByFailedPass earlier a →
          pirView start.map.get r.after.sent a = r.after.map.get a := by
  refine ⟨runs, fun hall => ?_⟩
  have hchanged : ChangedByFailedPass
      [⟨start, .error (.err ["No space left on device"]), middle⟩] holder := by
    refine ⟨_, List.mem_singleton.mpr rfl, by simp, ?_⟩
    decide +kernel
  have hstale : pirView start.map.get finish.sent holder ≠
      finish.map.get holder := by
    decide +kernel
  exact hstale (hall _ ⟨middle, .ok (), finish⟩ [] rfl rfl holder hchanged)

end FailedSave

end UsdtPir
