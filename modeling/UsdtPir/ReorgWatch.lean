import UsdtPir.PassInvariants

/-!
# The reorg watch through a pass

What a process must keep about one address so that a reorg inside the window
can be repaired, and how the stages of a pass keep it: the chunks and the
trimming on one chain, the repair from one chain to another.
-/

namespace UsdtPir

open Interaction
open Following

/-- The address is guarded, a watch with a hash being armed. -/
def Guards (X : Chain) (window : ℕ) (start : Option ℕ) (base : ℕ) (a : Address)
    (limit : ℕ) (s : Process) : Prop :=
  Guarded X.feed blank start base window limit
    (s.watch.cursorHash ≠ none) a s.follower

/-- The hash of the watch is that of a block up to the cursor. -/
def HashKnown (X : Chain) (s : Process) : Prop :=
  ∀ h, s.watch.cursorHash = some h →
    s.map.cursor < 2 ^ 64 ∧ ∃ n ≤ s.map.cursor, X.hash n = h

structure Watched (X : Chain) (window : ℕ) (start : Option ℕ) (base : ℕ)
    (a : Address) (limit : ℕ) (s : Process) : Prop where
  guarded : Guards X window start base a limit s
  hash : HashKnown X s

/-- The block hashes that may be answered are those of the chain. -/
def Chain.BacksHashes (X : Chain)
    (truth : (q : Request) → Answer q → Prop) : Prop :=
  ∀ n block, truth (.blockByNumber n)
    (Except.ok (some block) : Except RpcError (Option Block)) →
      block.hash = X.hash n

section Stages

variable {X Y : Chain} {truth : (q : Request) → Answer q → Prop}
    {cfg : FollowConfig} {window base limit target hi : ℕ} {start : Option ℕ}
    {a : Address} {s s₁ s' : Process}

theorem Chain.Backs.hashes (h : X.Backs truth) : X.BacksHashes truth :=
  fun _ block hanswer => (h _ _ hanswer block rfl).2

theorem SameMap.follower (h : SameMap s s') : s'.follower = s.follower := by
  rw [Process.follower, Process.follower, h.map, h.watch]

theorem Guards.same (h : Guards X window start base a limit s)
    (hsame : SameMap s s') : Guards X window start base a limit s' := by
  rw [Guards, hsame.follower, hsame.watch]
  exact h

theorem Guards.mono (h : Guards X window start base a limit s)
    (hle : limit ≤ target) : Guards X window start base a target s :=
  Guarded.mono h hle id

/-- At rest nothing is left to wait for. -/
theorem Guards.right (h : AtRest (Guards X window start base a) s) :
    Current X.feed a s.follower ∧ Known X.feed blank start a s.follower := by
  obtain ⟨limit, hlimit, hs⟩ := h
  apply Settled.right hs.settled
  by_contra hlt
  have hbase := hs.behind (Nat.lt_of_not_le hlt)
  have hcursor : s.follower.cursor = s.map.cursor := rfl
  omega

theorem HashKnown.same (h : HashKnown X s) (hsame : SameMap s s') :
    HashKnown X s' := by
  rw [HashKnown, hsame.map, hsame.watch]
  exact h

theorem HashKnown.of_none (h : s.watch.cursorHash = none) : HashKnown X s := by
  intro known hknown
  rw [h] at hknown
  cases hknown

theorem Watched.same (h : Watched X window start base a limit s)
    (hsame : SameMap s s') : Watched X window start base a limit s' :=
  ⟨h.guarded.same hsame, h.hash.same hsame⟩

/-! ### The stages -/

theorem Repaired.watch_eq (h : Repaired truth window s s₁) :
    s₁.watch = default ∧ s₁.map.cursor = s.map.cursor - window := by
  obtain ⟨rows, map, -, -, -, -, rfl⟩ := h
  exact ⟨rfl, rfl⟩

theorem Repaired.cursorHash (h : Repaired truth window s s₁) :
    s₁.watch.cursorHash = none := by
  rw [h.watch_eq.1]
  rfl

theorem Guards.chunk (hreads : X.BacksReads truth)
    (hquiet : X.feed.QuietAt a) (hhi : hi ≤ limit)
    (h : ChunkApplied truth (s.map.cursor + 1) hi s s')
    (hs : Guards X window start base a limit s) :
    Guards X window start base a limit s' := by
  rw [Guards, h.sameOutside.cursorHash]
  exact Guarded.refreshed hquiet hs (h.refreshed hreads).1 hhi

theorem HashTaken.trimmed (htip : cfg.tip.isReorgable = true)
    (h : HashTaken truth cfg s s') :
    Trimmed (s.map.cursor - cfg.reorgWindow) s.follower s'.follower := by
  rcases h.watch with ⟨hfinal, -⟩ | ⟨-, block, -, hwatch⟩
  · rw [htip] at hfinal
    cases hfinal
  · exact trimmed_trim (by rw [h.map]) (by rw [h.map]) hwatch

/-- The check of a pass on the chain that is followed anyway. -/
theorem Guards.repair (hreads : X.BacksReads truth)
    (hquiet : X.feed.QuietAt a) (h : RepairStep truth cfg s s₁)
    (hs : Guards X cfg.reorgWindow start base a limit s) :
    Guards X cfg.reorgWindow start base a limit s₁ := by
  cases h with
  | final => exact hs
  | unknown => exact hs
  | same => exact hs
  | repaired _ hhash _ _ hrepaired =>
      have harmed : s.watch.cursorHash ≠ none := by simp [hhash]
      have hguarded := Guarded.rewound hquiet hs harmed rfl
        (Chain.AgreesUpTo.refl _ |>.feed a) (hrepaired.rewound hreads)
      exact hguarded.mono le_rfl fun hne => hne hrepaired.cursorHash

theorem Guards.lasting (htip : cfg.tip.isReorgable = true)
    (hquiet : X.feed.QuietAt a) :
    Lasting X cfg (fun _ => True) (Guards X cfg.reorgWindow start base a) where
  mono hle hs := hs.mono hle
  same hsame hs := hs.same hsame
  chunk hreads hhi hchunk hs := hs.chunk hreads hquiet hhi hchunk
  hash _ hcursor _ htaken hs :=
    (Guarded.trimmed hs hcursor (htaken.trimmed htip)).mono le_rfl
      fun _ => trivial
  repair hreads hrepair hs := hs.repair hreads hquiet hrepair

theorem HashKnown.chunk (hreads : X.BacksReads truth)
    (h : ChunkApplied truth (s.map.cursor + 1) hi s s')
    (hs : HashKnown X s) : HashKnown X s' := by
  obtain ⟨hlt, hbound⟩ := h.ranged hreads.ranged
  intro known hknown
  rw [h.sameOutside.cursorHash] at hknown
  obtain ⟨-, n, hn, hnhash⟩ := hs known hknown
  rw [h.cursor]
  exact ⟨by omega, n, by omega, hnhash⟩

theorem HashTaken.hashKnown (htip : cfg.tip.isReorgable = true)
    (hhashes : X.BacksHashes truth) (hbound : s.map.cursor < 2 ^ 64)
    (h : HashTaken truth cfg s s') : HashKnown X s' := by
  rcases h.watch with ⟨hfinal, -⟩ | ⟨-, block, hanswer, hwatch⟩
  · rw [htip] at hfinal
    cases hfinal
  · intro known hknown
    rw [hwatch] at hknown
    change block.map Block.hash = some known at hknown
    rw [Option.map_eq_some_iff] at hknown
    obtain ⟨b, rfl, rfl⟩ := hknown
    rw [h.map]
    exact ⟨hbound, s.map.cursor, le_rfl, (hhashes _ b hanswer).symm⟩

theorem HashKnown.repair (h : RepairStep truth cfg s s₁)
    (hs : HashKnown X s) : HashKnown X s₁ := by
  cases h with
  | final => exact hs
  | unknown => exact hs
  | same => exact hs
  | repaired _ _ _ _ hrepaired => exact .of_none hrepaired.cursorHash

theorem Watched.lasting (htip : cfg.tip.isReorgable = true)
    (hquiet : X.feed.QuietAt a) :
    Lasting X cfg X.BacksHashes (Watched X cfg.reorgWindow start base a) where
  mono hle hs := ⟨hs.guarded.mono hle, hs.hash⟩
  same hsame hs := hs.same hsame
  chunk hreads hhi hchunk hs :=
    ⟨hs.guarded.chunk hreads hquiet hhi hchunk, hs.hash.chunk hreads hchunk⟩
  hash hhashes hcursor hbound htaken hs :=
    ⟨(Guards.lasting htip hquiet).hash trivial hcursor hbound htaken hs.guarded,
      htaken.hashKnown htip hhashes (hcursor ▸ hbound)⟩
  repair hreads hrepair hs :=
    ⟨hs.guarded.repair hreads hquiet hrepair, hs.hash.repair hrepair⟩

/-! ### The check on another chain -/

theorem HashKnown.agree (h : HashKnown X s)
    (hcursor : X.AgreesUpTo Y s.map.cursor) : HashKnown Y s := by
  intro known hknown
  obtain ⟨hbound, n, hn, hhash⟩ := h known hknown
  obtain ⟨-, -, -, hsame⟩ := hcursor n hn
  exact ⟨hbound, n, hn, by rw [← hsame, hhash]⟩

theorem Watched.agree (h : Watched X window start base a limit s)
    (hcursor : X.AgreesUpTo Y s.map.cursor) (hbase : X.AgreesUpTo Y base) :
    Watched Y window start base a limit s where
  guarded := Guarded.agree h.guarded (hcursor.feed a) (hbase.feed a)
  hash := h.hash.agree hcursor

/-- A hash that passes the check is the one the chain has at the cursor. -/
def Chain.BacksCheck (X : Chain) (truth : (q : Request) → Answer q → Prop)
    (s : Process) : Prop :=
  ∀ block, truth (.blockByNumber s.map.cursor)
    (Except.ok (some block) : Except RpcError (Option Block)) →
      s.watch.cursorHash = some block.hash → block.hash = X.hash s.map.cursor

theorem Chain.BacksHashes.check (h : X.BacksHashes truth) :
    X.BacksCheck truth s :=
  fun block hanswer _ => h _ block hanswer

/-- A hash that still stands shows that nothing was replaced. -/
theorem HashKnown.agrees {known : B256} (h : HashKnown X s)
    (hfix : X.HashesFix Y) (hknown : s.watch.cursorHash = some known)
    (hsame : known = Y.hash s.map.cursor) : X.AgreesUpTo Y s.map.cursor := by
  obtain ⟨hbound, n, hn, hnhash⟩ := h known hknown
  rw [hsame] at hnhash
  obtain ⟨heq, hagree⟩ := hfix n s.map.cursor (by omega) hbound hnhash
  rw [heq] at hagree
  exact hagree

/-- A hash that is left after the check is one of the new chain. -/
theorem RepairStep.hashKnown (hcheck : Y.BacksCheck truth s)
    (hfix : X.HashesFix Y) (htip : cfg.tip.isReorgable = true)
    (h : RepairStep truth cfg s s₁) (hs : HashKnown X s) : HashKnown Y s₁ := by
  cases h with
  | final hfinal =>
      rw [htip] at hfinal
      cases hfinal
  | unknown _ hhash => exact .of_none hhash
  | @same block _ hhash hanswer =>
      have hsame := hcheck block hanswer hhash
      exact hs.agree (hs.agrees hfix hhash hsame)
  | repaired _ _ _ _ hrepaired => exact .of_none hrepaired.cursorHash

/-- The start of a pass on a chain that is the same for the address up to where
it can be repaired.  Without a hash nothing is checked. -/
theorem RepairStep.guarded (hreads : Y.BacksReads truth)
    (hcheck : Y.BacksCheck truth s) (hfix : X.HashesFix Y)
    (htip : cfg.tip.isReorgable = true) (hquiet : X.feed.QuietAt a)
    (hagree : X.feed.AgreeAt Y.feed a
      (max base (s.map.cursor - cfg.reorgWindow)))
    (hunknown : s.watch.cursorHash = none →
      X.feed.AgreeAt Y.feed a s.map.cursor)
    (h : RepairStep truth cfg s s₁)
    (hs : Watched X cfg.reorgWindow start base a limit s) :
    Guards Y cfg.reorgWindow start base a limit s₁ := by
  have hbase := hagree.mono (le_max_left _ _)
  cases h with
  | final hfinal =>
      rw [htip] at hfinal
      cases hfinal
  | unknown _ hhash => exact Guarded.agree hs.guarded (hunknown hhash) hbase
  | @same block _ hhash hanswer =>
      have hsame := hcheck block hanswer hhash
      exact Guarded.agree hs.guarded ((hs.hash.agrees hfix hhash hsame).feed a)
        hbase
  | @repaired known block _ _ hhash _ _ hrepaired =>
      have harmed : s.watch.cursorHash ≠ none := by simp [hhash]
      have hguarded := Guarded.rewound hquiet hs.guarded harmed rfl hagree
        (hrepaired.rewound hreads)
      exact hguarded.mono le_rfl fun hne => hne hrepaired.cursorHash

/-- The start of a pass on a chain that agrees with the one followed so far up
to the start of the window. -/
theorem RepairStep.watched (hreads : Y.BacksReads truth)
    (hcheck : Y.BacksCheck truth s) (hfix : X.HashesFix Y)
    (htip : cfg.tip.isReorgable = true) (hquiet : X.feed.QuietAt a)
    (hagree : X.AgreesUpTo Y (max base (s.map.cursor - cfg.reorgWindow)))
    (hunknown : s.watch.cursorHash = none → X.AgreesUpTo Y s.map.cursor)
    (h : RepairStep truth cfg s s₁)
    (hs : Watched X cfg.reorgWindow start base a limit s) :
    Watched Y cfg.reorgWindow start base a limit s₁ := by
  constructor
  · exact h.guarded hreads hcheck hfix htip hquiet (hagree.feed a)
      (fun hnone => (hunknown hnone).feed a) hs
  · exact h.hashKnown hcheck hfix htip hs.hash

end Stages

end UsdtPir
