import Mathlib.Data.List.Basic
import Mathlib.Tactic.Common

/-!
# File names, stems and extensions

The parts of a path as the standard library cuts them: the extension is what
follows the last dot of the file name, unless that dot is its first character,
and the stem is what stands before it.  Replacing the extension keeps the stem,
so two names with one stem meet; appending to the name never does that.
-/

namespace Paths

/-- A file name: not empty, not one of the two special directories, and
without a separator. -/
@[ext]
structure FileName where
  chars : List Char
  ne_nil : chars ≠ []
  ne_dot : chars ≠ ['.']
  ne_dots : chars ≠ ['.', '.']
  no_slash : '/' ∉ chars
  deriving DecidableEq

/-- An extension that can be set. -/
structure Extension where
  chars : List Char
  ne_nil : chars ≠ []
  no_dot : '.' ∉ chars
  no_slash : '/' ∉ chars
  deriving DecidableEq

/-- A path that names a file: the components before the name, and the name. -/
@[ext]
structure Path where
  parent : List (List Char)
  name : FileName
  deriving DecidableEq

/-- What stands before and after the last dot. -/
def rsplitAtDot : List Char → Option (List Char × List Char)
  | [] => none
  | c :: rest =>
      match rsplitAtDot rest with
      | some (before, after) => some (c :: before, after)
      | none => if c = '.' then some ([], rest) else none

def FileName.stem (name : FileName) : List Char :=
  match rsplitAtDot name.chars with
  | some (before, _) => if before = [] then name.chars else before
  | none => name.chars

def FileName.extension (name : FileName) : Option (List Char) :=
  match rsplitAtDot name.chars with
  | some (before, after) => if before = [] then none else some after
  | none => none

section Names

variable {chars before after : List Char} {name name' : FileName}
    {ext ext' : Extension}

theorem rsplitAtDot_eq_none (h : '.' ∉ chars) : rsplitAtDot chars = none := by
  induction chars with
  | nil => rfl
  | cons c rest ih =>
      rw [List.mem_cons, not_or] at h
      rw [rsplitAtDot, ih h.2]
      exact if_neg (Ne.symm h.1)

theorem rsplitAtDot_append (h : '.' ∉ after) :
    rsplitAtDot (before ++ '.' :: after) = some (before, after) := by
  induction before with
  | nil => rw [List.nil_append, rsplitAtDot, rsplitAtDot_eq_none h]; rfl
  | cons c before ih => rw [List.cons_append, rsplitAtDot, ih]

theorem eq_of_rsplitAtDot (h : rsplitAtDot chars = some (before, after)) :
    chars = before ++ '.' :: after := by
  induction chars generalizing before with
  | nil => cases h
  | cons c rest ih =>
      rw [rsplitAtDot] at h
      cases hrest : rsplitAtDot rest with
      | none =>
          simp only [hrest] at h
          split at h
          · rename_i hdot
            cases h
            rw [hdot]
            rfl
          · cases h
      | some parts =>
          simp only [hrest, Option.some.injEq, Prod.mk.injEq] at h
          rcases h with ⟨rfl, rfl⟩
          rw [List.cons_append, ← ih hrest]

theorem FileName.stem_ne_nil (name : FileName) : name.stem ≠ [] := by
  unfold stem
  cases hsplit : rsplitAtDot name.chars with
  | none => exact name.ne_nil
  | some parts =>
      dsimp only
      split
      · exact name.ne_nil
      · rename_i hbefore
        exact hbefore

theorem FileName.slash_not_mem_stem (name : FileName) : '/' ∉ name.stem := by
  unfold stem
  cases hsplit : rsplitAtDot name.chars with
  | none => exact name.no_slash
  | some parts =>
      dsimp only
      split
      · exact name.no_slash
      · intro hmem
        apply name.no_slash
        rw [eq_of_rsplitAtDot hsplit]
        exact List.mem_append_left _ hmem

/-- `with_extension`. -/
def FileName.withExtension (name : FileName) (ext : Extension) : FileName where
  chars := name.stem ++ '.' :: ext.chars
  ne_nil := by simp
  ne_dot := by
    intro h
    have hlength := congrArg List.length h
    have hstem := List.length_pos_iff.mpr name.stem_ne_nil
    simp only [List.length_append, List.length_cons, List.length_nil] at hlength
    omega
  ne_dots := by
    intro h
    have hlength := congrArg List.length h
    have hstem := List.length_pos_iff.mpr name.stem_ne_nil
    have hext := List.length_pos_iff.mpr ext.ne_nil
    simp only [List.length_append, List.length_cons, List.length_nil] at hlength
    omega
  no_slash := by
    rw [List.mem_append, List.mem_cons, not_or, not_or]
    exact ⟨name.slash_not_mem_stem, by decide, ext.no_slash⟩

theorem FileName.rsplitAtDot_withExtension :
    rsplitAtDot (name.withExtension ext).chars =
      some (name.stem, ext.chars) :=
  rsplitAtDot_append ext.no_dot

@[simp]
theorem FileName.stem_withExtension :
    (name.withExtension ext).stem = name.stem := by
  have hsplit : rsplitAtDot (name.withExtension ext).chars =
      some (name.stem, ext.chars) := rsplitAtDot_withExtension
  rw [stem, hsplit]
  exact if_neg name.stem_ne_nil

@[simp]
theorem FileName.extension_withExtension :
    (name.withExtension ext).extension = some ext.chars := by
  have hsplit : rsplitAtDot (name.withExtension ext).chars =
      some (name.stem, ext.chars) := rsplitAtDot_withExtension
  rw [extension, hsplit]
  exact if_neg name.stem_ne_nil

theorem FileName.chars_of_extension {after : List Char}
    (h : name.extension = some after) : name.chars = name.stem ++ '.' :: after := by
  unfold extension at h
  unfold stem
  cases hsplit : rsplitAtDot name.chars with
  | none =>
      rw [hsplit] at h
      cases h
  | some parts =>
      simp only [hsplit] at h ⊢
      split at h
      · cases h
      · rename_i hbefore
        rw [if_neg hbefore, ← Option.some.inj h]
        exact eq_of_rsplitAtDot hsplit

theorem FileName.withExtension_eq_self_iff :
    name.withExtension ext = name ↔ name.extension = some ext.chars := by
  constructor
  · intro h
    rw [← h]
    exact extension_withExtension
  · intro h
    apply FileName.ext
    exact (chars_of_extension h).symm

theorem FileName.withExtension_inj :
    name.withExtension ext = name'.withExtension ext ↔
      name.stem = name'.stem := by
  constructor
  · intro h
    calc name.stem
      _ = (name.withExtension ext).stem := stem_withExtension.symm
      _ = (name'.withExtension ext).stem := by rw [h]
      _ = name'.stem := stem_withExtension
  · intro h
    apply FileName.ext
    change name.stem ++ '.' :: ext.chars = name'.stem ++ '.' :: ext.chars
    rw [h]

end Names

/-! ## Paths -/

def Path.withExtension (path : Path) (ext : Extension) : Path :=
  { path with name := path.name.withExtension ext }

/-- Two files side by side whose names have one stem. -/
def Path.SharesStem (path path' : Path) : Prop :=
  path.parent = path'.parent ∧ path.name.stem = path'.name.stem

section Paths

variable {path path' : Path} {ext ext' : Extension}

theorem Path.withExtension_eq_self_iff :
    path.withExtension ext = path ↔
      path.name.extension = some ext.chars := by
  rw [Path.ext_iff, ← FileName.withExtension_eq_self_iff]
  exact and_iff_right rfl

theorem Path.withExtension_inj :
    path.withExtension ext = path'.withExtension ext ↔
      path.SharesStem path' := by
  rw [Path.ext_iff]
  exact and_congr_right fun _ => FileName.withExtension_inj

theorem Path.sharesStem_withExtension :
    (path.withExtension ext).SharesStem path' ↔ path.SharesStem path' := by
  unfold SharesStem withExtension
  rw [FileName.stem_withExtension]

theorem Path.SharesStem.symm (h : path.SharesStem path') :
    path'.SharesStem path :=
  ⟨h.1.symm, h.2.symm⟩

theorem Path.SharesStem.of_eq (h : path = path') : path.SharesStem path' := by
  rw [h]
  exact ⟨rfl, rfl⟩

end Paths

end Paths
