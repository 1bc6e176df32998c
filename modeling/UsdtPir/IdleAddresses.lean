import UsdtPir.ReorgRepair

/-!
# Addresses that no chain touches

An address that no block touches which a process may read is in no map.  A
process reads no block that lies further below the first block of its map than
the reorg window reaches.
-/

namespace UsdtPir

open Interaction
open Following

/-- While no target is past `top` the address is in the process nowhere. -/
def Unread (window start top : ℕ) (a : Address) (limit : ℕ) (s : Process) :
    Prop :=
  limit ≤ top →
    Unseen start window limit (s.watch.cursorHash ≠ none) a s.follower

section Runs

variable {X Y : Chain} {truth : (q : Request) → Answer q → Prop}
    {cfg : FollowConfig} {updates : Bool} {start top n head head' : ℕ}
    {window tip limit limit' : ℕ} {a : Address} {s s₁ s' : Process}
    {rounds : List RoundRecord}

theorem Unread.mono (h : Unread window start top a limit s)
    (hle : limit ≤ limit') : Unread window start top a limit' s := by
  intro htop
  exact (h (hle.trans htop)).mono hle id

/-- A limit below that of a run before is one as well, if it reaches the first
block of the map. -/
theorem Unread.lower (h : Unread window start top a limit s)
    (htop : limit ≤ top) (hstart : start ≤ limit') :
    Unread window start top a limit' s := by
  intro _
  have hunseen := h htop
  constructor
  · exact hunseen.view
  · exact hunseen.recalled
  · exact hunseen.low
  · intro harmed
    exact ⟨(hunseen.ready harmed).1, hstart⟩
  · intro _
    exact hstart

theorem Unread.lasting (htip : cfg.tip.isReorgable = true)
    (huntouched : ¬ X.feed.TouchedIn a (start - cfg.reorgWindow) top) :
    Lasting X cfg (fun _ => True) (Unread cfg.reorgWindow start top a) where
  mono hle h := h.mono hle
  same hsame h := by
    intro htop
    rw [hsame.follower, hsame.watch]
    exact h htop
  chunk hreads hhi hchunk h := by
    intro htop
    rw [hchunk.sameOutside.cursorHash]
    apply (h htop).refreshed (hchunk.refreshed hreads).1
    rintro ⟨m, hm, hmle, htouched⟩
    exact huntouched ⟨m, hm, by omega, htouched⟩
  hash _ hcursor _ htaken h := by
    intro htop
    exact ((h htop).trimmed hcursor (htaken.trimmed htip)).mono le_rfl
      fun _ => trivial
  repair hreads hrepair h := by
    intro htop
    cases hrepair with
    | final => exact h htop
    | unknown => exact h htop
    | same => exact h htop
    | repaired _ hhash _ _ hrepaired =>
        have harmed := ne_of_eq_of_ne hhash (Option.some_ne_none _)
        exact ((h htop).rewound harmed (hrepaired.rewound hreads)).mono le_rfl
          fun hne => hne hrepaired.cursorHash

end Runs

end UsdtPir
