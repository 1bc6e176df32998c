import Mathlib.Logic.Function.Basic
import Mathlib.Tactic.Common

/-!
# A disk with names and files

A directory maps names to files, and a file keeps its content under whatever
name it has.  Creating truncates the file that has the name, renaming moves a
file over another, and a crash keeps what has been synced.
-/

namespace Storage

universe u

/-- Names, contents and what has been synced.  Two names never share a file. -/
structure Disk (N : Type u) where
  names : N → Option ℕ
  contents : ℕ → List UInt8
  durable : ℕ → Bool
  fresh : ℕ
  names_lt : ∀ {p i}, names p = some i → i < fresh
  injective : ∀ {p q i}, names p = some i → names q = some i → p = q

namespace Disk

variable {N : Type u}

def empty : Disk N where
  names _ := none
  contents _ := []
  durable _ := false
  fresh := 0
  names_lt h := nomatch h
  injective h := nomatch h

/-- What is read under a name. -/
def read (d : Disk N) (p : N) : Option (List UInt8) :=
  (d.names p).map d.contents

/-- The file under this name, if there is one, has been synced. -/
def Durable (d : Disk N) (p : N) : Prop :=
  ∀ i, d.names p = some i → d.durable i = true

/-- A crash loses what has not been synced, or leaves any of it.  The names are
those of the last rename: a power loss that undoes renames is `Disk.Lost`. -/
structure Crashed (d d' : Disk N) : Prop where
  names : d'.names = d.names
  contents : ∀ i, d.durable i = true → d'.contents i = d.contents i
  durable : ∀ i, d.durable i = true → d'.durable i = true

theorem Crashed.durable_path {d d' : Disk N} {p : N} (h : d.Crashed d')
    (hdurable : d.Durable p) : d'.Durable p := by
  intro i hi
  rw [h.names] at hi
  exact h.durable i (hdurable i hi)

/-- What was durable under a name is read after a crash. -/
theorem Crashed.read {d d' : Disk N} {p : N} (h : d.Crashed d')
    (hdurable : d.Durable p) :
    d'.read p = d.read p := by
  unfold Disk.read
  rw [h.names]
  cases hp : d.names p with
  | none => rfl
  | some i =>
      rw [Option.map_some, Option.map_some, h.contents i (hdurable i hp)]

def truncate (d : Disk N) (i : ℕ) : Disk N :=
  { d with
    contents := Function.update d.contents i []
    durable := Function.update d.durable i false }

def append (d : Disk N) (i : ℕ) (bytes : List UInt8) : Disk N :=
  { d with
    contents := Function.update d.contents i (d.contents i ++ bytes)
    durable := Function.update d.durable i false }

def sync (d : Disk N) (i : ℕ) : Disk N :=
  { d with durable := Function.update d.durable i true }

variable [DecidableEq N]

/-- A new file under a name that is free. -/
def allocate (d : Disk N) (p : N) : Disk N where
  names := Function.update d.names p (some d.fresh)
  contents := Function.update d.contents d.fresh []
  durable := Function.update d.durable d.fresh false
  fresh := d.fresh + 1
  names_lt := by
    intro q i hq
    by_cases heq : q = p
    · subst heq
      rw [Function.update_self, Option.some.injEq] at hq
      omega
    · rw [Function.update_of_ne heq] at hq
      have hlt := d.names_lt hq
      omega
  injective := by
    intro q r i hq hr
    by_cases hqp : q = p
    · subst hqp
      rw [Function.update_self, Option.some.injEq] at hq
      by_cases hrp : r = q
      · exact hrp.symm
      · rw [Function.update_of_ne hrp] at hr
        have hlt := d.names_lt hr
        omega
    · rw [Function.update_of_ne hqp] at hq
      by_cases hrp : r = p
      · subst hrp
        rw [Function.update_self, Option.some.injEq] at hr
        have hlt := d.names_lt hq
        omega
      · rw [Function.update_of_ne hrp] at hr
        exact d.injective hq hr

/-- Open a file for writing, empty. -/
def create (d : Disk N) (p : N) : Disk N × ℕ :=
  match d.names p with
  | some i => (d.truncate i, i)
  | none => (d.allocate p, d.fresh)

/-- Move the file that has one name over another. -/
def move (d : Disk N) (p q : N) (i : ℕ) (hp : d.names p = some i)
    (hne : p ≠ q) : Disk N :=
  { d with
    names := Function.update (Function.update d.names p none) q (some i)
    names_lt := by
      intro r j hr
      by_cases hrq : r = q
      · subst hrq
        rw [Function.update_self, Option.some.injEq] at hr
        rw [← hr]
        exact d.names_lt hp
      · rw [Function.update_of_ne hrq] at hr
        by_cases hrp : r = p
        · subst hrp
          rw [Function.update_self] at hr
          cases hr
        · rw [Function.update_of_ne hrp] at hr
          exact d.names_lt hr
    injective := by
      have hkey : ∀ {r : N} {j : ℕ}, r ≠ q →
          Function.update (Function.update d.names p none) q (some i) r =
            some j → r ≠ p ∧ d.names r = some j := by
        intro r j hrq hr
        rw [Function.update_of_ne hrq] at hr
        by_cases hrp : r = p
        · subst hrp
          rw [Function.update_self] at hr
          cases hr
        · rw [Function.update_of_ne hrp] at hr
          exact ⟨hrp, hr⟩
      intro r t j hr ht
      by_cases hrq : r = q
      · by_cases htq : t = q
        · rw [hrq, htq]
        · rcases hkey htq ht with ⟨htp, hname⟩
          rw [hrq, Function.update_self] at hr
          rw [← hr] at hname
          exact absurd (d.injective hname hp) htp
      · rcases hkey hrq hr with ⟨hrp, hname⟩
        by_cases htq : t = q
        · rw [htq, Function.update_self] at ht
          rw [← ht] at hname
          exact absurd (d.injective hname hp) hrp
        · exact d.injective hname (hkey htq ht).2 }

/-- `rename`: nothing to rename is an error, a name onto itself stays. -/
def rename (d : Disk N) (p q : N) : Option (Disk N) :=
  match hp : d.names p with
  | none => none
  | some i => if hne : p = q then some d else some (d.move p q i hp hne)

/-! ## What the operations leave alone -/

section Frame

variable {d d' : Disk N} {p q r : N} {i j : ℕ} {bytes : List UInt8}

theorem names_create_self : (d.create p).1.names p = some (d.create p).2 := by
  unfold create
  cases hp : d.names p with
  | some i => exact hp
  | none => exact Function.update_self p (some d.fresh) d.names

theorem names_create_of_ne (h : q ≠ p) :
    (d.create p).1.names q = d.names q := by
  unfold create
  cases hp : d.names p with
  | some i => rfl
  | none => exact Function.update_of_ne h (some d.fresh) d.names

theorem contents_create : (d.create p).1.contents (d.create p).2 = [] := by
  unfold create
  cases hp : d.names p with
  | some i => exact Function.update_self i [] d.contents
  | none => exact Function.update_self d.fresh [] d.contents

theorem contents_create_of_ne (h : i ≠ (d.create p).2) :
    (d.create p).1.contents i = d.contents i := by
  unfold create at h ⊢
  cases hp : d.names p with
  | some j =>
      rw [hp] at h
      exact Function.update_of_ne h [] d.contents
  | none =>
      rw [hp] at h
      exact Function.update_of_ne h [] d.contents

theorem durable_create_of_ne (h : i ≠ (d.create p).2) :
    (d.create p).1.durable i = d.durable i := by
  unfold create at h ⊢
  cases hp : d.names p with
  | some j =>
      rw [hp] at h
      exact Function.update_of_ne h false d.durable
  | none =>
      rw [hp] at h
      exact Function.update_of_ne h false d.durable

theorem create_ne (h : d.names q = some i) (hne : q ≠ p) :
    i ≠ (d.create p).2 := by
  intro heq
  have hq : (d.create p).1.names q = some (d.create p).2 := by
    rw [names_create_of_ne hne, h, heq]
  exact hne ((d.create p).1.injective hq names_create_self)

/-- Everything a rename does. -/
theorem rename_eq_some (h : d.rename p q = some d') :
    ∃ i, d.names p = some i ∧ d'.names q = some i ∧
      (∀ r, r ≠ q → r ≠ p → d'.names r = d.names r) ∧
      (p ≠ q → d'.names p = none) ∧ d'.contents = d.contents ∧
      d'.durable = d.durable ∧ d'.fresh = d.fresh := by
  unfold rename at h
  split at h
  · cases h
  · rename_i i hp
    by_cases hne : p = q
    · rw [dif_pos hne, Option.some.injEq] at h
      subst h
      subst hne
      exact ⟨i, hp, hp, fun _ _ _ => rfl, fun habs => absurd rfl habs, rfl,
        rfl, rfl⟩
    · rw [dif_neg hne, Option.some.injEq] at h
      subst h
      refine ⟨i, hp, ?_, ?_, ?_, rfl, rfl, rfl⟩
      · change Function.update (Function.update d.names p none) q (some i) q = _
        rw [Function.update_self]
      · intro r hrq hrp
        change Function.update (Function.update d.names p none) q (some i) r = _
        rw [Function.update_of_ne hrq, Function.update_of_ne hrp]
      · intro _
        change Function.update (Function.update d.names p none) q (some i) p = _
        rw [Function.update_of_ne hne, Function.update_self]

theorem rename_isSome (h : d.names p = some i) :
    ∃ d', d.rename p q = some d' := by
  unfold rename
  split
  · rename_i hp
    rw [hp] at h
    cases h
  · split
    · exact ⟨_, rfl⟩
    · exact ⟨_, rfl⟩

end Frame

end Disk

end Storage
