import Mathlib.Data.List.DropRight
import Mathlib.Data.List.Induction
import Mathlib.Tactic.Common

/-!
# A cell and the journal of its changes

A cell holds a value or nothing.  Inputs fill, change or empty it, and a
journal remembers what to tell a replica: the latest value, a tombstone when
the cell was emptied, and nothing at all when it was filled and emptied again
since the journal was opened.  The results say for every sequence of inputs
when overlaying the journal on a replica gives the cell.
-/

namespace Journal

universe u v

variable {V : Type u} {X : Type v}

/-- How inputs act on a cell.  `vacant` marks the values that stand for an
empty cell. -/
structure Rules (V : Type u) (X : Type v) where
  empties : X → Bool
  vacant : V → Bool
  place : X → V
  merge : V → X → V
  vacant_place : ∀ x, vacant (place x) = empties x
  vacant_merge : ∀ v x, vacant (merge v x) = empties x

/-- A cell, whether the journal saw it filled from empty, and what the journal
holds for it. -/
@[ext]
structure Cell (V : Type u) where
  current : Option V
  fresh : Bool
  entry : Option V

def Cell.opened (held : Option V) : Cell V :=
  ⟨held, false, none⟩

namespace Rules

variable (R : Rules V X)

/-- What a replica holding `base` holds after it is told `entry`. -/
def overlay (entry base : Option V) : Option V :=
  match entry with
  | some z => if R.vacant z then none else some z
  | none => base

/-! ## Properties of the inputs alone -/

/-- The last input empties the cell. -/
def endsEmpty (xs : List X) : Bool :=
  xs.getLast?.any R.empties

/-- The cell is emptied and filled again later. -/
def refilled (xs : List X) : Bool :=
  (xs.dropWhile fun x => !R.empties x).any fun x => !R.empties x

/-- What the cell holds when the inputs leave nothing in the journal. -/
def rest (held : Option V) (xs : List X) : Option V :=
  if R.endsEmpty xs then none else held

@[simp]
theorem endsEmpty_nil : R.endsEmpty [] = false :=
  rfl

@[simp]
theorem endsEmpty_concat (xs : List X) (x : X) :
    R.endsEmpty (xs ++ [x]) = R.empties x := by
  simp [endsEmpty]

@[simp]
theorem refilled_nil : R.refilled [] = false :=
  rfl

theorem dropWhile_eq_nil_of_never {xs : List X}
    (h : xs.any R.empties = false) :
    xs.dropWhile (fun x => !R.empties x) = [] := by
  rw [List.dropWhile_eq_nil_iff]
  intro y hy
  simpa using List.any_eq_false.mp h y hy

@[simp]
theorem refilled_concat (xs : List X) (x : X) :
    R.refilled (xs ++ [x]) =
      (R.refilled xs || (xs.any R.empties && !R.empties x)) := by
  unfold refilled
  rw [List.dropWhile_append]
  cases hany : xs.any R.empties with
  | false =>
      have hnil := R.dropWhile_eq_nil_of_never hany
      cases hx : R.empties x <;> simp [hnil, hx]
  | true =>
      have hne : (xs.dropWhile fun x => !R.empties x) ≠ [] := by
        rw [Ne, List.dropWhile_eq_nil_iff]
        intro hall
        obtain ⟨y, hy, hempties⟩ := List.any_eq_true.mp hany
        simpa [hempties] using hall y hy
      simp [hne]

/-- A cell that is refilled was emptied. -/
theorem any_empties_of_refilled {xs : List X} (h : R.refilled xs = true) :
    xs.any R.empties = true := by
  cases hany : xs.any R.empties with
  | true => rfl
  | false =>
      have hnil := R.dropWhile_eq_nil_of_never hany
      simp [refilled, hnil] at h

theorem any_empties_of_endsEmpty {xs : List X} (h : R.endsEmpty xs = true) :
    xs.any R.empties = true := by
  unfold endsEmpty at h
  cases hlast : xs.getLast? with
  | none => simp [hlast] at h
  | some x =>
      rw [hlast] at h
      exact List.any_eq_true.mpr ⟨x, List.mem_of_getLast? hlast, h⟩

/-- A cell that is full was refilled exactly when it has been emptied. -/
theorem refilled_eq_of_full {xs : List X} (hends : R.endsEmpty xs = false) :
    R.refilled xs = xs.any R.empties := by
  induction xs using List.reverseRecOn with
  | nil => simp
  | append_singleton xs x _ =>
      rw [endsEmpty_concat] at hends
      rw [refilled_concat, List.any_append]
      simp only [hends, Bool.not_false, Bool.and_true, List.any_cons,
        List.any_nil, Bool.or_false]
      cases hrefilled : R.refilled xs with
      | false => simp
      | true => simp [R.any_empties_of_refilled hrefilled]

variable [DecidableEq V]

/-- The input would change a cell holding `v`. -/
def stirs (v : V) (x : X) : Bool :=
  R.empties x || decide (R.merge v x ≠ v)

/-- The inputs leave something in the journal of a cell that held `held`. -/
def recorded (held : Option V) (xs : List X) : Bool :=
  match held with
  | none => !xs.isEmpty && !R.endsEmpty xs
  | some v => xs.any (R.stirs v) && !(R.endsEmpty xs && R.refilled xs)

theorem recorded_concat_of_fills (held : Option V) {xs : List X} {x : X}
    (hx : R.empties x = false) :
    R.recorded held (xs ++ [x]) =
      match held with
      | none => true
      | some v => xs.any (R.stirs v) || decide (R.merge v x ≠ v) := by
  cases held with
  | none => simp [recorded, hx]
  | some v => simp [recorded, stirs, hx]

theorem recorded_concat_of_empties (held : Option V) {xs : List X} {x : X}
    (hx : R.empties x = true) :
    R.recorded held (xs ++ [x]) =
      match held with
      | none => false
      | some _ => !R.refilled xs := by
  cases held with
  | none => simp [recorded, hx]
  | some v => simp [recorded, stirs, hx]

/-- An input that empties the cell stirs it. -/
theorem any_stirs_of_any_empties {xs : List X} (v : V)
    (h : xs.any R.empties = true) : xs.any (R.stirs v) = true := by
  obtain ⟨y, hy, hempties⟩ := List.any_eq_true.mp h
  exact List.any_eq_true.mpr ⟨y, hy, by simp [stirs, hempties]⟩

/-! ## One input, and a sequence of them -/

def step (cell : Cell V) (x : X) : Cell V :=
  match cell.current with
  | none =>
      if R.empties x then
        cell
      else
        ⟨some (R.place x), true, some (R.place x)⟩
  | some v =>
      if R.empties x then
        if cell.fresh then ⟨none, false, none⟩
        else ⟨none, false, some (R.merge v x)⟩
      else if R.merge v x = v then
        ⟨some v, cell.fresh, cell.entry.map fun _ => v⟩
      else
        ⟨some (R.merge v x), cell.fresh, some (R.merge v x)⟩

def run (held : Option V) (xs : List X) : Cell V :=
  xs.foldl R.step (Cell.opened held)

@[simp]
theorem run_nil (held : Option V) : R.run held [] = Cell.opened held :=
  rfl

@[simp]
theorem run_concat (held : Option V) (xs : List X) (x : X) :
    R.run held (xs ++ [x]) = R.step (R.run held xs) x := by
  simp [run]

/-! ## What the cell and the journal hold after the inputs -/

/-- The state of a cell after a sequence of inputs, in terms of the inputs. -/
structure Spec (held : Option V) (xs : List X) (cell : Cell V) : Prop where
  empty_iff : cell.current = none ↔
    (xs = [] ∧ held = none) ∨ R.endsEmpty xs = true
  fresh_iff : cell.fresh = true ↔
    cell.current ≠ none ∧ (held = none ∨ xs.any R.empties = true)
  entry_exact : ∀ z, cell.entry = some z →
    R.overlay (some z) none = cell.current
  recorded_iff : cell.entry.isSome = R.recorded held xs
  still : ∀ v, held = some v → xs.any (R.stirs v) = false →
    cell.current = some v

theorem spec_nil (held : Option V) : R.Spec held [] (Cell.opened held) := by
  constructor
  · simp [Cell.opened]
  · cases held <;> simp [Cell.opened]
  · simp [Cell.opened]
  · cases held <;> simp [Cell.opened, recorded]
  · intro v hv _
    exact hv

theorem spec_step {held : Option V} {xs : List X} {cell : Cell V} (x : X)
    (h : R.Spec held xs cell) : R.Spec held (xs ++ [x]) (R.step cell x) := by
  cases hcurrent : cell.current with
  | none =>
      have hnotFresh : cell.fresh = false := by
        cases hfresh : cell.fresh with
        | false => rfl
        | true => exact absurd hcurrent (h.fresh_iff.mp hfresh).1
      cases hx : R.empties x with
      | true =>
          have hstep : R.step cell x = cell := by
            simp [step, hcurrent, hx]
          rw [hstep]
          constructor
          · simp [hcurrent, hx]
          · simp [hcurrent, hnotFresh]
          · exact h.entry_exact
          · rw [h.recorded_iff, R.recorded_concat_of_empties held hx]
            -- an empty cell was never filled, or its last input emptied it
            rcases h.empty_iff.mp hcurrent with ⟨rfl, rfl⟩ | hends
            · rfl
            · cases held with
              | none => simp [recorded, hends]
              | some v =>
                  have hstirs := R.any_stirs_of_any_empties v
                    (R.any_empties_of_endsEmpty hends)
                  simp [recorded, hends, hstirs]
          · intro v _ hstill
            simp [stirs, hx] at hstill
      | false =>
          have hstep : R.step cell x =
              ⟨some (R.place x), true, some (R.place x)⟩ := by
            simp [step, hcurrent, hx]
          have hwas : held = none ∨ xs.any R.empties = true := by
            rcases h.empty_iff.mp hcurrent with ⟨-, hnone⟩ | hends
            · exact .inl hnone
            · exact .inr (R.any_empties_of_endsEmpty hends)
          rw [hstep]
          constructor
          · simp [hx]
          · simp only [List.any_append, List.any_cons, List.any_nil, hx,
              Bool.or_false, ne_eq, reduceCtorEq, not_false_eq_true, true_and,
              true_iff]
            exact hwas
          · intro z hz
            obtain rfl := Option.some.inj hz
            simp [overlay, R.vacant_place, hx]
          · rw [R.recorded_concat_of_fills held hx]
            cases held with
            | none => rfl
            | some v =>
                obtain hnone | hany := hwas
                · cases hnone
                · have hstirs := R.any_stirs_of_any_empties v hany
                  simp [hstirs]
          · intro v hv hstill
            -- nothing stirred, so the cell still holds `v`: it is not empty
            rw [List.any_append, Bool.or_eq_false_iff] at hstill
            rw [h.still v hv hstill.1] at hcurrent
            cases hcurrent
  | some v =>
      have hfull : R.endsEmpty xs = false := by
        cases hends : R.endsEmpty xs with
        | false => rfl
        | true =>
            rw [h.empty_iff.mpr (.inr hends)] at hcurrent
            cases hcurrent
      cases hx : R.empties x with
      | true =>
          cases hfresh : cell.fresh with
          | true =>
              have hstep : R.step cell x = ⟨none, false, none⟩ := by
                simp [step, hcurrent, hx, hfresh]
              rw [hstep]
              constructor
              · simp [hx]
              · simp
              · simp
              · rw [R.recorded_concat_of_empties held hx]
                obtain hnone | hany := (h.fresh_iff.mp hfresh).2
                · simp [hnone]
                · rw [R.refilled_eq_of_full hfull, hany]
                  cases held <;> rfl
              · intro w _ hstill
                simp [stirs, hx] at hstill
          | false =>
              have hstep : R.step cell x =
                  ⟨none, false, some (R.merge v x)⟩ := by
                simp [step, hcurrent, hx, hfresh]
              have hnever : held ≠ none ∧ xs.any R.empties = false := by
                have hnot : ¬ (held = none ∨ xs.any R.empties = true) := by
                  intro hor
                  have htrue := h.fresh_iff.mpr ⟨by simp [hcurrent], hor⟩
                  rw [hfresh] at htrue
                  cases htrue
                rw [not_or] at hnot
                exact ⟨hnot.1, by simpa using hnot.2⟩
              rw [hstep]
              constructor
              · simp [hx]
              · simp
              · intro z hz
                obtain rfl := Option.some.inj hz
                simp [overlay, R.vacant_merge, hx]
              · rw [R.recorded_concat_of_empties held hx]
                cases held with
                | none => exact absurd rfl hnever.1
                | some w =>
                    simp [R.refilled_eq_of_full hfull, hnever.2]
              · intro w _ hstill
                simp [stirs, hx] at hstill
      | false =>
          have hwas : (cell.fresh = true ↔
              held = none ∨ (xs ++ [x]).any R.empties = true) := by
            rw [h.fresh_iff]
            simp [hcurrent, hx]
          by_cases hsame : R.merge v x = v
          · have hstep : R.step cell x =
                ⟨some v, cell.fresh, cell.entry.map fun _ => v⟩ := by
              simp [step, hcurrent, hx, hsame]
            rw [hstep]
            constructor
            · simp [hx]
            · rw [hwas]
              simp
            · intro z hz
              obtain ⟨w, -, rfl⟩ := Option.map_eq_some_iff.mp hz
              have hvacant : R.vacant v = false := by
                rw [← hsame, R.vacant_merge, hx]
              simp [overlay, hvacant]
            · rw [Option.isSome_map, h.recorded_iff,
                R.recorded_concat_of_fills held hx]
              cases held with
              | none =>
                  have hnonempty : xs ≠ [] := by
                    rintro rfl
                    rw [h.empty_iff.mpr (.inl ⟨rfl, rfl⟩)] at hcurrent
                    cases hcurrent
                  simp [recorded, hfull, hnonempty]
              | some w =>
                  cases hstirs : xs.any (R.stirs w) with
                  | true => simp [recorded, hfull, hstirs]
                  | false =>
                      have hw := h.still w rfl hstirs
                      rw [hcurrent] at hw
                      obtain rfl := Option.some.inj hw
                      simp [recorded, hstirs, hsame]
            · intro w hw hstill
              rw [List.any_append, Bool.or_eq_false_iff] at hstill
              rw [← hcurrent]
              exact h.still w hw hstill.1
          · have hstep : R.step cell x =
                ⟨some (R.merge v x), cell.fresh, some (R.merge v x)⟩ := by
              simp [step, hcurrent, hx, hsame]
            rw [hstep]
            constructor
            · simp [hx]
            · rw [hwas]
              simp
            · intro z hz
              obtain rfl := Option.some.inj hz
              simp [overlay, R.vacant_merge, hx]
            · rw [R.recorded_concat_of_fills held hx]
              cases held with
              | none => rfl
              | some w =>
                  cases hstirs : xs.any (R.stirs w) with
                  | true => simp [hstirs]
                  | false =>
                      have hw := h.still w rfl hstirs
                      rw [hcurrent] at hw
                      obtain rfl := Option.some.inj hw
                      simp [hsame]
            · intro w hw hstill
              rw [List.any_append, Bool.or_eq_false_iff] at hstill
              have hcell := h.still w hw hstill.1
              rw [hcurrent] at hcell
              obtain rfl := Option.some.inj hcell
              simp [stirs, hx, hsame] at hstill

theorem spec_run (held : Option V) (xs : List X) :
    R.Spec held xs (R.run held xs) := by
  induction xs using List.reverseRecOn with
  | nil => exact R.spec_nil held
  | append_singleton xs x ih =>
      rw [run_concat]
      exact R.spec_step x ih

/-- What the journal saw filled holds something that is not a tombstone. -/
theorem Spec.not_vacant_of_fresh {R : Rules V X} {held : Option V}
    {xs : List X} {cell : Cell V} (h : R.Spec held xs cell)
    (hfresh : cell.fresh = true) {v : V} (hv : cell.current = some v) :
    R.vacant v = false := by
  obtain ⟨hfull, hwas⟩ := h.fresh_iff.mp hfresh
  have hends : R.endsEmpty xs = false := by
    cases hends : R.endsEmpty xs with
    | false => rfl
    | true => exact absurd (h.empty_iff.mpr (.inr hends)) hfull
  have hrecorded : R.recorded held xs = true := by
    cases held with
    | none =>
        have hne : xs ≠ [] := by
          rintro rfl
          exact hfull (h.empty_iff.mpr (.inl ⟨rfl, rfl⟩))
        simp [recorded, hends, hne]
    | some w =>
        obtain hnone | hany := hwas
        · cases hnone
        · simp [recorded, hends, R.any_stirs_of_any_empties w hany]
  rw [← h.recorded_iff] at hrecorded
  obtain ⟨z, hz⟩ := Option.isSome_iff_exists.mp hrecorded
  have hexact := h.entry_exact z hz
  simp only [hv, overlay] at hexact
  split at hexact
  · cases hexact
  · rename_i hvacant
    rw [← Option.some.inj hexact]
    simpa using hvacant

/-- A replica that is told the journal holds what the cell holds, exactly when
the inputs left something in the journal or the replica held it already. -/
theorem overlay_run_eq_iff (held base : Option V) (xs : List X) :
    R.overlay (R.run held xs).entry base = (R.run held xs).current ↔
      R.recorded held xs = true ∨ base = R.rest held xs := by
  have hspec := R.spec_run held xs
  have hrecorded := hspec.recorded_iff
  cases hentry : (R.run held xs).entry with
  | some z =>
      rw [hentry, Option.isSome_some] at hrecorded
      have hexact := hspec.entry_exact z hentry
      rw [← hrecorded]
      exact iff_of_true hexact (.inl rfl)
  | none =>
      rw [hentry, Option.isSome_none] at hrecorded
      have hrest : (R.run held xs).current = R.rest held xs := by
        unfold rest
        cases hends : R.endsEmpty xs with
        | true => exact hspec.empty_iff.mpr (.inr hends)
        | false =>
            cases held with
            | none =>
                have hnil : xs = [] := by
                  simpa [recorded, hends] using hrecorded.symm
                exact hspec.empty_iff.mpr (.inl ⟨hnil, rfl⟩)
            | some v =>
                have hstill : xs.any (R.stirs v) = false := by
                  simpa [recorded, hends] using hrecorded.symm
                exact hspec.still v rfl hstill
      rw [hrest, ← hrecorded]
      simp [overlay]

/-- The journal is exact over the value it was opened at, except for a cell
that was held, emptied, refilled and emptied again. -/
theorem overlay_run_self_iff (held : Option V) (xs : List X) :
    R.overlay (R.run held xs).entry held = (R.run held xs).current ↔
      ¬ (held ≠ none ∧ R.endsEmpty xs = true ∧ R.refilled xs = true) := by
  rw [R.overlay_run_eq_iff]
  cases held with
  | none =>
      simp [rest]
  | some v =>
      cases hends : R.endsEmpty xs with
      | false => simp [rest, hends]
      | true =>
          have hstirs := R.any_stirs_of_any_empties v
            (R.any_empties_of_endsEmpty hends)
          simp [rest, recorded, hends, hstirs]

/-! ## Where the values come from -/

/-- Of what the cell holds, and of what its journal holds. -/
def Holds (p : V → Prop) (cell : Cell V) : Prop :=
  (∀ v, cell.current = some v → p v) ∧ ∀ v, cell.entry = some v → p v

section Origins

variable {R} {p : V → Prop} {cell : Cell V}

/-- What an input leaves was there, or was made from the input. -/
theorem Holds.step {x : X} (hplace : p (R.place x))
    (hmerge : ∀ v, p (R.merge v x)) (h : Holds p cell) :
    Holds p (R.step cell x) := by
  obtain ⟨hcurrent, hentry⟩ := h
  unfold Rules.step
  split
  · split
    · exact ⟨hcurrent, hentry⟩
    · exact ⟨by simpa using hplace, by simpa using hplace⟩
  · rename_i v hv
    have hold := hcurrent v hv
    have hnew := hmerge v
    split
    · split
      · exact ⟨by simp, by simp⟩
      · exact ⟨by simp, by simpa using hnew⟩
    · split
      · refine ⟨by simpa using hold, ?_⟩
        intro w hw
        obtain ⟨-, -, rfl⟩ := Option.map_eq_some_iff.mp hw
        exact hold
      · exact ⟨by simpa using hnew, by simpa using hnew⟩

theorem Holds.foldl {xs : List X}
    (hmade : ∀ x ∈ xs, p (R.place x) ∧ ∀ v, p (R.merge v x))
    (h : Holds p cell) : Holds p (xs.foldl R.step cell) := by
  induction xs generalizing cell with
  | nil => exact h
  | cons x xs ih =>
      obtain ⟨hplace, hmerge⟩ := hmade x List.mem_cons_self
      exact ih (fun x hx => hmade x (List.mem_cons_of_mem _ hx))
        (h.step hplace hmerge)

end Origins

end Rules

end Journal
