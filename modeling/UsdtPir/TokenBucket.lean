import Mathlib.Algebra.BigOperators.Group.List.Basic
import Mathlib.Algebra.Order.Ring.Defs
import Mathlib.Tactic.Linarith

/-!
# Token buckets

A bucket gains tokens up to a cap, and a request takes one if there is a whole
one.  Nothing but the gains can be spent beyond what the bucket held.
-/

namespace TokenBucket

variable {K : Type*} [Field K] [LinearOrder K]
    {cap tokens gain gain' held : K}

/-- What a bucket holds after a gain. -/
def level (cap tokens gain : K) : K :=
  min (tokens + gain) cap

/-- How many requests a bucket grants at a time. -/
def grants (held : K) : ℕ :=
  if 1 ≤ held then 1 else 0

/-- What a request leaves. -/
def left (held : K) : K :=
  if 1 ≤ held then held - 1 else held

theorem level_le : level cap tokens gain ≤ cap :=
  min_le_right _ _

theorem left_add_grants (held : K) : left held + grants held = held := by
  unfold left grants
  split
  · simp
  · simp

variable [IsStrictOrderedRing K]

theorem level_nonneg (hcap : 0 ≤ cap) (htokens : 0 ≤ tokens) (hgain : 0 ≤ gain) :
    0 ≤ level cap tokens gain :=
  le_min (add_nonneg htokens hgain) hcap

theorem level_add_le (hgain : 0 ≤ gain') :
    level cap tokens (gain + gain') ≤ level cap tokens gain + gain' := by
  unfold level
  rw [min_add]
  apply min_le_min
  · rw [add_assoc]
  · exact le_add_of_nonneg_right hgain

theorem left_le (held : K) : left held ≤ held := by
  unfold left
  split
  · linarith
  · exact le_rfl

theorem left_nonneg (h : 0 ≤ held) : 0 ≤ left held := by
  unfold left
  split
  · linarith
  · exact h

/-- The requests granted over some gains, and what is left after them. -/
def serve (cap : K) : K → List K → ℕ × K
  | tokens, [] => (0, tokens)
  | tokens, gain :: gains =>
      let held := level cap tokens gain
      let (served, final) := serve cap (left held) gains
      (grants held + served, final)

theorem serve_nonneg {gains : List K} (hcap : 0 ≤ cap) (htokens : 0 ≤ tokens)
    (hgains : ∀ gain ∈ gains, 0 ≤ gain) : 0 ≤ (serve cap tokens gains).2 := by
  induction gains generalizing tokens with
  | nil => exact htokens
  | cons gain gains ih =>
      have hheld : 0 ≤ level cap tokens gain :=
        level_nonneg hcap htokens (hgains gain List.mem_cons_self)
      apply ih (left_nonneg hheld)
      intro later hlater
      exact hgains later (List.mem_cons_of_mem gain hlater)

theorem serve_le (cap tokens : K) (gains : List K) :
    ((serve cap tokens gains).1 : K) + (serve cap tokens gains).2 ≤
      tokens + gains.sum := by
  induction gains generalizing tokens with
  | nil => simp [serve]
  | cons gain gains ih =>
      have hlevel : level cap tokens gain ≤ tokens + gain := min_le_left _ _
      have hheld := left_add_grants (level cap tokens gain)
      have hrest := ih (left (level cap tokens gain))
      simp only [serve, Nat.cast_add, List.sum_cons]
      linarith

end TokenBucket
