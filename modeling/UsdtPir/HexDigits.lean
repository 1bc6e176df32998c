import Mathlib.Data.List.Basic
import Mathlib.Data.Char
import Mathlib.Tactic.Common

/-!
# Hexadecimal digits

Two digits spell a byte, the high half first, and either case will do.  A text
is stored as UTF-8, where the bytes below 128 are the ASCII characters and no
part of any other.
-/

namespace HexDigits

def value (c : Char) : Option ℕ :=
  if '0'.toNat ≤ c.toNat ∧ c.toNat ≤ '9'.toNat then
    some (c.toNat - '0'.toNat)
  else if 'a'.toNat ≤ c.toNat ∧ c.toNat ≤ 'f'.toNat then
    some (c.toNat - 'a'.toNat + 10)
  else if 'A'.toNat ≤ c.toNat ∧ c.toNat ≤ 'F'.toNat then
    some (c.toNat - 'A'.toNat + 10)
  else none

def halves (bytes : List UInt8) : List ℕ :=
  bytes.flatMap fun b => [b.toNat / 16, b.toNat % 16]

def Spells (digits : List Char) (bytes : List UInt8) : Prop :=
  digits.map value = (halves bytes).map some

instance (digits : List Char) (bytes : List UInt8) :
    Decidable (Spells digits bytes) :=
  inferInstanceAs (Decidable (_ = _))

def lower (n : ℕ) : Char :=
  if n < 10 then Char.ofNat ('0'.toNat + n) else Char.ofNat ('a'.toNat + n - 10)

def upper (n : ℕ) : Char :=
  if n < 10 then Char.ofNat ('0'.toNat + n) else Char.ofNat ('A'.toNat + n - 10)

/-- The bytes with the digits of one case. -/
def spell (digit : ℕ → Char) (bytes : List UInt8) : List Char :=
  (halves bytes).map digit

/-- The bytes that the digits spell. -/
def readDigits : List Char → Option (List UInt8)
  | [] => some []
  | [_] => none
  | high :: low :: rest =>
      match value high, value low, readDigits rest with
      | some h, some l, some bytes => some (UInt8.ofNat (16 * h + l) :: bytes)
      | _, _, _ => none

section Spelling

variable {digits : List Char} {bytes : List UInt8} {c : Char} {n : ℕ}
    {digit : ℕ → Char}

@[simp] theorem length_halves : (halves bytes).length = 2 * bytes.length := by
  induction bytes with
  | nil => rfl
  | cons b rest ih =>
      simp only [halves, List.flatMap_cons, List.length_append,
        List.length_cons, List.length_nil] at ih ⊢
      omega

theorem lt_of_mem_halves (h : n ∈ halves bytes) : n < 16 := by
  unfold halves at h
  obtain ⟨b, -, hn⟩ := List.mem_flatMap.mp h
  have hlt : b.toNat < 256 := b.toNat_lt
  simp only [List.mem_cons, List.not_mem_nil, or_false] at hn
  omega

theorem Spells.length (h : Spells digits bytes) :
    digits.length = 2 * bytes.length := by
  have hlength : (digits.map value).length = ((halves bytes).map some).length :=
    congrArg List.length h
  simpa using hlength

theorem Spells.isSome (h : Spells digits bytes) (hc : c ∈ digits) :
    (value c).isSome := by
  have hmem : value c ∈ (halves bytes).map some := by
    rw [← h]
    exact List.mem_map_of_mem hc
  obtain ⟨n, -, hn⟩ := List.mem_map.mp hmem
  simp [← hn]

theorem spells_spell (h : ∀ n < 16, value (digit n) = some n) :
    Spells (spell digit bytes) bytes := by
  unfold Spells spell
  rw [List.map_map]
  apply List.map_congr_left
  intro n hn
  exact h n (lt_of_mem_halves hn)

theorem value_lower : ∀ n < 16, value (lower n) = some n := by
  decide

theorem value_upper : ∀ n < 16, value (upper n) = some n := by
  decide

theorem lower_not_upper : ∀ n < 16, (lower n).isUpper = false := by
  decide

theorem upper_not_lower : ∀ n < 16, (upper n).isLower = false := by
  decide

theorem mem_spell (h : c ∈ spell digit bytes) : ∃ n < 16, c = digit n := by
  obtain ⟨n, hn, rfl⟩ := List.mem_map.mp h
  exact ⟨n, lt_of_mem_halves hn, rfl⟩

theorem value_lt (h : value c = some n) : n < 16 := by
  unfold value at h
  simp only [Char.reduceToNat] at h
  split_ifs at h with h1 h2 h3
  · cases h
    omega
  · cases h
    omega
  · cases h
    omega

theorem spells_cons_cons {high low : Char} {rest : List Char} {b : UInt8} :
    Spells (high :: low :: rest) (b :: bytes) ↔
      value high = some (b.toNat / 16) ∧ value low = some (b.toNat % 16) ∧
        Spells rest bytes := by
  simp [Spells, halves]

theorem readDigits_eq_some_iff : readDigits digits = some bytes ↔ Spells digits bytes := by
  induction digits using readDigits.induct generalizing bytes with
  | case1 =>
      cases bytes with
      | nil => simp [readDigits, Spells, halves]
      | cons b rest => simp [readDigits, Spells, halves]
  | case2 c =>
      constructor
      · intro h
        cases h
      · intro h
        have hlength : [c].length = 2 * bytes.length := h.length
        rw [List.length_singleton] at hlength
        omega
  | case3 high low rest h l held hrest hlow hhigh ih =>
      have hh : h < 16 := value_lt hhigh
      have hl : l < 16 := value_lt hlow
      simp only [readDigits, hhigh, hlow, hrest]
      cases bytes with
      | nil => simp [Spells, halves]
      | cons b bytes =>
          rw [spells_cons_cons, hhigh, hlow, ← ih, hrest]
          simp only [Option.some.injEq, List.cons.injEq]
          constructor
          · intro hread
            obtain ⟨rfl, rfl⟩ := hread
            simp only [UInt8.toNat_ofNat', and_true]
            omega
          · intro hspelled
            obtain ⟨hhalf, hrem, rfl⟩ := hspelled
            have hbyte : 16 * h + l = b.toNat := by omega
            rw [hbyte, UInt8.ofNat_toNat]
            exact ⟨rfl, rfl⟩
  | case4 high low rest hnone ih =>
      constructor
      · intro hread
        rw [readDigits] at hread
        split at hread
        · exact absurd ‹_› (hnone _ _ _ ‹_› ‹_›)
        · cases hread
      · intro hspelled
        cases bytes with
        | nil => cases hspelled.length
        | cons b bytes =>
            obtain ⟨hhigh, hlow, hrest⟩ := spells_cons_cons.mp hspelled
            exact absurd (ih.mpr hrest) (hnone _ _ _ hhigh hlow)

theorem toNat_lt_of_value (h : (value c).isSome) : c.toNat < 128 := by
  unfold value at h
  simp only [Char.reduceToNat] at h
  split_ifs at h
  · omega
  · omega
  · omega
  · cases h

end Spelling

/-! ## UTF-8 -/

section Utf8

variable {c : Char}

theorem utf8EncodeChar_of_ascii (h : c.toNat < 128) :
    String.utf8EncodeChar c = [UInt8.ofNat c.toNat] := by
  have hle : c.val.toNat ≤ 127 := by
    change c.toNat ≤ 127
    omega
  unfold String.utf8EncodeChar
  simp only [hle, if_true]
  rfl

theorem toNat_lt_of_utf8
    (h : ∀ b ∈ String.utf8EncodeChar c, b.toNat < 128) : c.toNat < 128 := by
  have hval : c.val.toNat = c.toNat := rfl
  unfold String.utf8EncodeChar at h
  simp only [hval] at h
  split_ifs at h with h1 h2 h3
  · omega
  · have hlead := h _ List.mem_cons_self
    simp only [UInt8.toNat_ofNat'] at hlead
    omega
  · have hlead := h _ List.mem_cons_self
    simp only [UInt8.toNat_ofNat'] at hlead
    omega
  · have hlead := h _ List.mem_cons_self
    simp only [UInt8.toNat_ofNat'] at hlead
    omega

end Utf8

end HexDigits
