import Mathlib.Data.List.Basic
import Mathlib.Data.List.TakeDrop
import Mathlib.Tactic.Common

/-!
# Slices of a list

`slice i j l` is `l[i..j]`, and `copyFrom i j part l` is `l` with `part` copied
over its slice.  Copies one behind the other append, and nothing behind the
last one changes.
-/

namespace Slices

variable {α : Type*} {i j k n : ℕ} {l before part part' after : List α}

def slice (i j : ℕ) (l : List α) : List α :=
  (l.drop i).take (j - i)

def copyFrom (i j : ℕ) (part l : List α) : List α :=
  l.take i ++ (part ++ l.drop j)

theorem length_slice (hj : j ≤ l.length) : (slice i j l).length = j - i := by
  simp only [slice, List.length_take, List.length_drop]
  omega

theorem length_copyFrom (hi : i ≤ j) (hj : j ≤ l.length)
    (hpart : part.length = j - i) :
    (copyFrom i j part l).length = l.length := by
  simp only [copyFrom, List.length_append, List.length_take, List.length_drop]
  omega

@[simp] theorem slice_zero : slice 0 j l = l.take j := by
  simp [slice]

theorem slice_append (hi : i ≤ j) (hj : j ≤ k) :
    slice i j l ++ slice j k l = slice i k l := by
  unfold slice
  have hdrop : l.drop j = (l.drop i).drop (j - i) := by
    rw [List.drop_drop, Nat.add_sub_cancel' hi]
  have hwidth : k - i = (j - i) + (k - j) := by omega
  rw [hdrop, hwidth, List.take_add]

theorem take_copyFrom (hi : i ≤ j) (hj : j ≤ l.length)
    (hpart : part.length = j - i) :
    (copyFrom i j part l).take j = l.take i ++ part := by
  unfold copyFrom
  rw [← List.append_assoc]
  apply List.take_left'
  rw [List.length_append, List.length_take]
  omega

theorem drop_copyFrom (hi : i ≤ j) (hj : j ≤ l.length)
    (hpart : part.length = j - i) (hk : j ≤ k) :
    (copyFrom i j part l).drop k = l.drop k := by
  have hlength : (l.take i ++ part).length = j := by
    rw [List.length_append, List.length_take]
    omega
  unfold copyFrom
  rw [← List.append_assoc, List.drop_append,
    List.drop_eq_nil_of_le (by omega), List.nil_append, List.drop_drop, hlength,
    Nat.add_sub_cancel' hk]

theorem slice_append_middle (hi : before.length = i)
    (hpart : part.length = j - i) :
    slice i j (before ++ (part ++ after)) = part := by
  unfold slice
  rw [List.drop_left' hi, List.take_left' hpart]

/-- Lists that differ in a middle part agree before and after it. -/
theorem getElem?_append_middle (hlength : part.length = part'.length)
    (hn : n < before.length ∨ before.length + part.length ≤ n) :
    (before ++ (part ++ after))[n]? = (before ++ (part' ++ after))[n]? := by
  cases hn with
  | inl hlt =>
      rw [List.getElem?_append_left hlt, List.getElem?_append_left hlt]
  | inr hle =>
      rw [List.getElem?_append_right (by omega),
        List.getElem?_append_right (by omega),
        List.getElem?_append_right (by omega),
        List.getElem?_append_right (by omega), hlength]

end Slices
