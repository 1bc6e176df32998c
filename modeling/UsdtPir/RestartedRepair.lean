import UsdtPir.CatchUp
import UsdtPir.IdleAddresses
import UsdtPir.InterruptedPass

/-!
# A reorg after a restart

The hash of the cursor and the remembered addresses are in memory only.  A
process that was started from a snapshot repairs a reorg as the process that
was not stopped does, if it has taken a hash when the reorg comes and no block
is replaced, as far as the address goes, that it did not scan itself.
-/

namespace UsdtPir

open Interaction
open Program
open Following

/-- What a started process does: it catches up, or it is in the loop, which it
entered at block `since`. -/
inductive Stage
  | catchingUp
  | following (since : ℕ)

/-- A started process on one chain, with its rounds of the loop. -/
inductive Serving (X : Chain) (cfg : FollowConfig) (updates : Bool)
    (head : ℕ) (stage : Stage) (s : Process) :
    List RoundRecord → ℕ → Stage → Process → Prop
  | start : Serving X cfg updates head stage s [] head stage s
  | catchUp {rounds : List RoundRecord} {middle final : ℕ}
      {s₁ s' : Process} {outcome : Except Failure Unit}
      (hrun : Serving X cfg updates head stage s rounds middle .catchingUp s₁)
      (hround : (catchUpRound cfg).Runs X.growing middle s₁ final
        (.ok outcome) s') :
      Serving X cfg updates head stage s rounds final .catchingUp s'
  | enter {rounds : List RoundRecord} {middle now : ℕ} {s₁ : Process}
      (hrun : Serving X cfg updates head stage s rounds middle .catchingUp s₁) :
      Serving X cfg updates head stage s rounds middle
        (.following s₁.map.cursor) (s₁.startFollow now)
  | round {rounds : List RoundRecord} {middle final since : ℕ}
      {s₁ s' : Process} {outcome : Except Failure Unit}
      (hrun : Serving X cfg updates head stage s rounds middle
        (.following since) s₁)
      (hround : (followRound cfg updates).Runs X.growing middle s₁ final
        (.ok outcome) s') :
      Serving X cfg updates head stage s (rounds ++ [⟨s₁, outcome, s'⟩]) final
        (.following since) s'

/-- The map has what the chain has for the address at the cursor, if it has the
address, and it has an address that was touched since `start`. -/
def Right (X : Chain) (start : ℕ) (a : Address) (map : BalanceMap) : Prop :=
  Current X.feed a ⟨map.holding, map.cursor, []⟩ ∧
    Known X.feed blank (some start) a ⟨map.holding, map.cursor, []⟩

/-- The maps have the same balances of the address; one that is missing has
none. -/
def SameBalances (a : Address) (map map' : BalanceMap) : Prop :=
  (map.holding a).getD (0, 0) = (map'.holding a).getD (0, 0)

section Stages

variable {A B X : Chain} {truth : (q : Request) → Answer q → Prop}
    {cfg : FollowConfig} {updates : Bool} {start head head' n : ℕ}
    {limit limit' base window : ℕ} {a : Address} {s s' : Process}
    {map map' : BalanceMap} {stage stage' : Stage}
    {rounds : List RoundRecord}

/-- A map that is right in a process without a hash. -/
theorem Right.guards (h : Right X start a s.map)
    (hnone : s.watch.cursorHash = none) :
    Guards X window (some start) s.map.cursor a limit s := by
  have hright : Current X.feed a s.follower ∧
      Known X.feed blank (some start) a s.follower := h
  apply Guarded.unarmed hright
  · intro hne
    exact hne hnone
  · exact .inl le_rfl
  · intro hlt
    exact absurd hlt (lt_irrefl _)

theorem Right.watched (h : Right X start a s.map)
    (hnone : s.watch.cursorHash = none) :
    Watched X window (some start) s.map.cursor a limit s :=
  ⟨h.guards hnone, .of_none hnone⟩

theorem Right.agree (h : Right A start a map)
    (hagree : A.feed.AgreeAt B.feed a map.cursor) : Right B start a map :=
  ⟨h.1.agree hagree, h.2.agree hagree⟩

/-- What is stored of an address without balances is nothing. -/
theorem Right.getD_of_zero (h : Right X start a map)
    (hzero : X.balances a map.cursor = (0, 0)) :
    (map.holding a).getD (0, 0) = (0, 0) := by
  cases hholding : map.holding a with
  | none => rfl
  | some b =>
      have hb : b = X.balances a map.cursor := h.1 b hholding
      rw [Option.getD_some, hb, hzero]

theorem Right.getD_of_touched (h : Right X start a map)
    (htouched : X.feed.TouchedIn a start map.cursor) :
    (map.holding a).getD (0, 0) = X.balances a map.cursor := by
  have hview : map.holding a = stored blank (X.balances a map.cursor) :=
    h.2 (Feed.knownBy_some.mpr htouched)
  rw [hview]
  unfold stored blank
  split
  · rename_i hzero
    exact (beq_iff_eq.mp hzero).symm
  · rfl

/-- Maps that are right on one chain at one block have the same balances of an
address without any, and of one that was touched. -/
theorem Right.same (h : Right X start a map) (h' : Right X start a map')
    (hcursor : map.cursor = map'.cursor)
    (hcomparable : X.balances a map.cursor = (0, 0) ∨
      X.feed.TouchedIn a start map.cursor) : SameBalances a map map' := by
  unfold SameBalances
  obtain hzero | htouched := hcomparable
  · rw [h.getD_of_zero hzero]
    rw [hcursor] at hzero
    exact (h'.getD_of_zero hzero).symm
  · rw [h.getD_of_touched htouched]
    rw [hcursor] at htouched ⊢
    exact (h'.getD_of_touched htouched).symm

theorem Right.caughtUp (htip : cfg.tip.isReorgable = true)
    (hquiet : X.feed.QuietAt a) (hreads : X.BacksReads truth)
    (hcaught : CaughtUp truth cfg s s') (h : Right X start a s.map) :
    Right X start a s'.map := by
  rcases hcaught with hmap | ⟨target, -, hlt, hscanned⟩
  · rw [hmap]
    exact h
  · have hbefore : Guards X cfg.reorgWindow (some start) s.map.cursor a target
        s.renewed := Right.guards (s := s.renewed) h rfl
    have hafter := (Guards.lasting htip hquiet).scanned hreads hscanned hbefore
    have hcursor := (hscanned.cursor_le hreads.ranged hlt).1
    exact hafter.settled.right hcursor

theorem Watched.right (h : Watched X window (some start) 0 a limit s) :
    Right X start a s.map :=
  h.guarded.settled.right (Nat.zero_le _)

/-- The address is watched, and the snapshot is right. -/
structure Durable (X : Chain) (window start : ℕ) (a : Address) (limit : ℕ)
    (s : Process) : Prop where
  watched : Watched X window (some start) 0 a limit s
  saved : ∀ map, s.saved = some map → Right X start a map

theorem Durable.of_saved (hwatched : Watched X window (some start) 0 a limit' s')
    (hsaved : s'.saved = s.saved ∨ s'.saved = some s'.map)
    (h : Durable X window start a limit s) :
    Durable X window start a limit' s' := by
  constructor
  · exact hwatched
  · intro map hmap
    rcases hsaved with hkept | hnew
    · rw [hkept] at hmap
      exact h.saved map hmap
    · rw [hnew] at hmap
      cases hmap
      exact hwatched.right

theorem RepairStep.saved (h : RepairStep truth cfg s s') :
    s'.saved = s.saved := by
  cases h with
  | final => rfl
  | unknown => rfl
  | same => rfl
  | repaired _ _ _ _ hrepaired =>
      rcases hrepaired with ⟨rows, map, -, -, -, -, rfl⟩
      rfl

theorem Durable.lasting (htip : cfg.tip.isReorgable = true)
    (hquiet : X.feed.QuietAt a) :
    Lasting X cfg X.BacksHashes (Durable X cfg.reorgWindow start a) where
  mono hle h := ⟨(Watched.lasting htip hquiet).mono hle h.watched, h.saved⟩
  same hsame h := by
    apply h.of_saved (h.watched.same hsame)
    rw [hsame.map]
    exact hsame.saved
  chunk hreads hhi hchunk h := by
    have hwatched :=
      (Watched.lasting htip hquiet).chunk hreads hhi hchunk h.watched
    exact h.of_saved hwatched hchunk.saved
  hash hhashes hcursor hbound htaken h := by
    have hwatched := (Watched.lasting htip hquiet).hash hhashes hcursor hbound
      htaken h.watched
    apply h.of_saved hwatched
    rw [htaken.map]
    exact htaken.saved
  repair hreads hrepair h := by
    have hwatched :=
      (Watched.lasting htip hquiet).repair hreads hrepair h.watched
    exact h.of_saved hwatched (.inl hrepair.saved)

/-! ## The run that was started again -/

/-- What holds of the address before the reorg. -/
def Stage.Keeps (X : Chain) (cfg : FollowConfig) (n start : ℕ) (a : Address)
    (head : ℕ) : Stage → Process → Prop
  | .catchingUp, s => Right X start a s.map
  | .following since, s =>
      UnderHead (Watched X cfg.reorgWindow (some start) since a) n head s

/-- A round of catching up, on a chain that grows meanwhile. -/
theorem catchUpRound_caughtUp
    {outcome : Except Failure (Except Failure Unit)}
    (hround : (catchUpRound cfg).Runs X.growing head s head' outcome s') :
    head ≤ head' ∧ CaughtUp (X.SaysBetween head head') cfg s s' := by
  have hmeets : Meets X.growing (UsdtPir.catchUpRound cfg) head s
      (fun final _ s' => X.growing.Reaches head final ∧
        CaughtUp (X.SaysBetween head final) cfg s s')
      (fun final _ s' => X.growing.Reaches head final ∧
        CaughtUp (X.SaysBetween head final) cfg s s') :=
    Meets.explained Chain.growing_explains fun final =>
      meets_catchUpRound (Environment.keeps_of _)
  have hcaught : CaughtUp (X.SaysBetween head head') cfg s s' := by
    cases outcome with
    | ok result => exact (hmeets.of_ok hround).2
    | error failure => exact (hmeets.of_error hround).2
  exact ⟨Chain.growing_reaches hround.reaches, hcaught⟩

theorem Right.catchUpRound {outcome : Except Failure (Except Failure Unit)}
    (htip : cfg.tip = .confirmations n) (hquiet : X.feed.QuietAt a)
    (hround : (catchUpRound cfg).Runs X.growing head s head' outcome s')
    (h : Right X start a s.map) : Right X start a s'.map := by
  have hreorgable : cfg.tip.isReorgable = true := by
    rw [htip]
    rfl
  obtain ⟨-, hcaught⟩ := catchUpRound_caughtUp hround
  exact h.caughtUp hreorgable hquiet (Chain.backs_saysBetween _ _).reads hcaught

theorem Serving.keeps (htip : cfg.tip = .confirmations n)
    (hquiet : X.feed.QuietAt a)
    (hrun : Serving X cfg updates head stage s rounds head' stage' s')
    (h : stage.Keeps X cfg n start a head s) :
    stage'.Keeps X cfg n start a head' s' := by
  have hreorgable : cfg.tip.isReorgable = true := by
    rw [htip]
    rfl
  induction hrun with
  | start => exact h
  | catchUp hrun hround ih => exact Right.catchUpRound htip hquiet hround ih
  | @enter rounds middle now s₁ hrun ih =>
      have hright : Right X start a (s₁.startFollow now).map := ih
      exact ⟨middle - n, le_rfl, hright.watched rfl⟩
  | round hrun hround ih =>
      exact ((Watched.lasting hreorgable hquiet).followRun
        (fun _ _ => (Chain.backs_saysBetween _ _).hashes) htip
        (.round .start hround) ih).1

/-- The address is nowhere in the process; catching up starts with a watch of
its own. -/
def Stage.Unread (window start top n : ℕ) (a : Address) (head : ℕ) :
    Stage → Process → Prop
  | .catchingUp, s =>
      UnderHead (UsdtPir.Unread window start top a) n head s.renewed
  | .following _, s => UnderHead (UsdtPir.Unread window start top a) n head s

/-- The memory of a watch that is dropped is no loss. -/
theorem Unread.renewed {top : ℕ} (h : Unread window start top a limit s) :
    Unread window start top a limit s.renewed := by
  intro htop
  have hunseen := h htop
  constructor
  · exact hunseen.view
  · rintro ⟨batch, hbatch, -⟩
    cases hbatch
  · exact hunseen.low
  · intro harmed
    exact absurd rfl harmed
  · exact hunseen.behind

theorem Unread.catchUpRound {top : ℕ}
    {outcome : Except Failure (Except Failure Unit)}
    (htip : cfg.tip = .confirmations n)
    (huntouched : ¬ X.feed.TouchedIn a (start - cfg.reorgWindow) top)
    (hround : (catchUpRound cfg).Runs X.growing head s head' outcome s')
    (h : UnderHead (Unread cfg.reorgWindow start top a) n head s.renewed) :
    UnderHead (Unread cfg.reorgWindow start top a) n head' s'.renewed := by
  have hreorgable : cfg.tip.isReorgable = true := by
    rw [htip]
    rfl
  obtain ⟨limit, hlimit, hs⟩ := h
  obtain ⟨hgrows, hmap | ⟨target, htarget, -, hscanned⟩⟩ :=
    catchUpRound_caughtUp hround
  · refine ⟨limit, by omega, ?_⟩
    have hfollower : s'.renewed.follower = s.renewed.follower := by
      simp only [Process.follower, Process.renewed, hmap]
    intro htop
    rw [hfollower]
    exact hs htop
  · rw [htip] at htarget
    obtain ⟨now, ⟨height, hlow, hhigh, -, hview⟩, rfl⟩ := htarget
    have hnow : now = height := hview now rfl
    have hbefore : UsdtPir.Unread cfg.reorgWindow start top a (now - n)
        s.renewed := hs.mono (by omega)
    have hafter := (Unread.lasting hreorgable huntouched).scanned
      (Chain.backs_saysBetween _ _).reads hscanned hbefore
    exact ⟨now - n, by omega, hafter.renewed⟩

theorem RepairStep.cursor_le (h : RepairStep truth cfg s s') :
    s'.map.cursor ≤ s.map.cursor := by
  cases h with
  | final => exact le_rfl
  | unknown => exact le_rfl
  | same => exact le_rfl
  | repaired _ _ _ _ hrepaired =>
      rw [hrepaired.watch_eq.2]
      exact Nat.sub_le _ _

/-- A pass that gets further writes the map. -/
theorem PassRuns.saved {target : ℕ}
    (h : PassRuns X.growing cfg updates head s target head' s')
    (hlt : s.map.cursor < s'.map.cursor) : s'.saved = some s'.map := by
  rcases h.outcome Chain.growing_explains with
    ⟨checked, resolved, scanned, s₁, -, hrepair, -, hadvanced⟩
  have hle := hrepair.cursor_le
  cases hadvanced with
  | idle => omega
  | synced _ _ _ _ _ _ hstate =>
      rw [hstate]

/-- The address stays watched, and the snapshot right, up to the stop. -/
theorem ReorgRun.durable {family : Set Chain} {tip head₀ : ℕ} {u₀ : Process}
    (hfix : ∀ X ∈ family, ∀ Y ∈ family, X.HashesFix Y)
    (hquiet : ∀ X ∈ family, X.feed.QuietAt a)
    (htip : cfg.tip = .confirmations n)
    (h : ReorgRun family cfg updates start X tip u₀)
    (hright : ∀ map, u₀.saved = some map → Right X start a map)
    (hhead : tip ≤ head₀ - n)
    (hearlier : FollowRun X.growing cfg updates head₀ u₀ rounds head s) :
    UnderHead (Durable X cfg.reorgWindow start a) n head s := by
  rcases h.inStep hfix hquiet htip with ⟨hX, hs⟩
  have hreorgable : cfg.tip.isReorgable = true := by
    rw [htip]
    rfl
  have hbefore : UnderHead (Durable X cfg.reorgWindow start a) n head₀ u₀ :=
    ⟨tip, hhead, hs.watched, hright⟩
  exact ((Durable.lasting hreorgable (hquiet X hX)).followRun
    (fun _ _ => (Chain.backs_saysBetween _ _).hashes) htip hearlier hbefore).1

end Stages

namespace ReplacedTransfer

/-- The next round on a chain with the head. -/
def next (X : Chain) (head : ℕ) (s : Process) : Process :=
  ((followRound config true).exec (X.respond head 3) () s).1.2

/-- The first pass at block 1. -/
def early : Process :=
  ((pass config true).exec (first.respond 1 3) () start).1.2

def late : Process :=
  next first 2 start

end ReplacedTransfer

end UsdtPir
