import Mathlib.Data.List.Basic
import Mathlib.Data.Int.Log
import Mathlib.Data.Rat.Defs
import Mathlib.Data.Rat.Floor
import Mathlib.Algebra.Field.Rat
import Mathlib.Data.List.TakeDrop
import Mathlib.Data.List.Forall2
import Mathlib.Tactic.Common
import Mathlib.Tactic.IntervalCases
import UsdtPir.HexDigits

/-!
# JSON

What a JSON text means, and texts that mean a given value: plain strings,
natural numbers, literals, and objects of them.
-/

namespace JsonText

inductive Json
  | null
  | bool (b : Bool)
  | number (q : ℚ)
  | string (s : List Char)
  | array (items : List Json)
  | object (members : List (List Char × Json))

/-! ## Reading -/

def isSpace (c : Char) : Bool :=
  c = ' ' || c = '\n' || c = '\r' || c = '\t'

def skip (text : List Char) : List Char :=
  text.dropWhile isSpace

/-- The characters that stand for themselves in a string. -/
def isPlain (c : Char) : Bool :=
  c ≠ '\x22' && c ≠ '\x5c' && 32 ≤ c.toNat

def hexCode (a b c d : Char) : Option ℕ := do
  let a ← HexDigits.value a
  let b ← HexDigits.value b
  let c ← HexDigits.value c
  let d ← HexDigits.value d
  some (((a * 16 + b) * 16 + c) * 16 + d)

/-- The escapes of one letter. -/
def escaped : Char → Option Char
  | '\x22' => some '\x22'
  | '\x5c' => some '\x5c'
  | '/' => some '/'
  | 'b' => some '\x08'
  | 'f' => some '\x0c'
  | 'n' => some '\n'
  | 'r' => some '\r'
  | 't' => some '\t'
  | _ => none

/-- The rest of a string and what follows its closing quote.  A surrogate is not
a character, and counts as an error here. -/
def readString : List Char → Option (List Char × List Char)
  | [] => none
  | '\x22' :: rest => some ([], rest)
  | '\x5c' :: 'u' :: a :: b :: c :: d :: rest => do
      let code ← hexCode a b c d
      if code.isValidChar then
        let (s, rest) ← readString rest
        some (Char.ofNat code :: s, rest)
      else none
  | '\x5c' :: c :: rest => do
      let c ← escaped c
      let (s, rest) ← readString rest
      some (c :: s, rest)
  | c :: rest =>
      if isPlain c then do
        let (s, rest) ← readString rest
        some (c :: s, rest)
      else none

/-- The digits before the point: no zero stands before another digit. -/
def readWhole : List Char → Option (List Char × List Char)
  | '0' :: rest => some (['0'], rest)
  | text =>
      match text.span Char.isDigit with
      | ([], _) => none
      | (digits, rest) => some (digits, rest)

def readFraction : List Char → Option (List Char × List Char)
  | '.' :: rest =>
      match rest.span Char.isDigit with
      | ([], _) => none
      | (digits, rest) => some (digits, rest)
  | text => some ([], text)

def readExponent : List Char → Option (ℤ × List Char)
  | c :: rest =>
      if c = 'e' ∨ c = 'E' then
        let (negative, rest) :=
          match rest with
          | '-' :: rest => (true, rest)
          | '+' :: rest => (false, rest)
          | rest => (false, rest)
        match rest.span Char.isDigit with
        | ([], _) => none
        | (digits, rest) =>
            let power : ℤ := Nat.ofDigitChars 10 digits 0
            some (if negative then -power else power, rest)
      else some (0, c :: rest)
  | [] => some (0, [])

def readUnsigned (text : List Char) : Option (ℚ × List Char) := do
  let (whole, text) ← readWhole text
  let (fraction, text) ← readFraction text
  let (power, text) ← readExponent text
  let mantissa : ℚ := Nat.ofDigitChars 10 (whole ++ fraction) 0
  some (mantissa * 10 ^ (power - fraction.length), text)

def readNumber : List Char → Option (ℚ × List Char)
  | '-' :: rest => do
      let (q, rest) ← readUnsigned rest
      some (-q, rest)
  | text => readUnsigned text

/-- The distance of the doubles at a number. -/
def quantum (q : ℚ) : ℚ :=
  2 ^ (max (Int.log 2 |q|) (-1022) - 52)

/-- The double next to a number below `2 ^ 1024`; of two, the even one. -/
def toDouble (q : ℚ) : ℚ :=
  let below := ⌊q / quantum q⌋
  let rest := q / quantum q - below
  if rest < 1 / 2 ∨ rest = 1 / 2 ∧ Even below then below * quantum q
  else (below + 1) * quantum q

def readWord (word : List Char) (v : Json) (text : List Char) :
    Option (Json × List Char) :=
  if word.isPrefixOf text then some (v, text.drop word.length) else none

mutual

def readValue : ℕ → List Char → Option (Json × List Char)
  | 0, _ => none
  | fuel + 1, text =>
      match skip text with
      | '\x7b' :: rest =>
          match skip rest with
          | '\x7d' :: rest => some (.object [], rest)
          | rest => do
              let (members, rest) ← readMembers fuel rest
              some (.object members, rest)
      | '[' :: rest =>
          match skip rest with
          | ']' :: rest => some (.array [], rest)
          | rest => do
              let (items, rest) ← readItems fuel rest
              some (.array items, rest)
      | '\x22' :: rest => do
          let (s, rest) ← readString rest
          some (.string s, rest)
      | 'n' :: rest => readWord "ull".toList .null rest
      | 't' :: rest => readWord "rue".toList (.bool true) rest
      | 'f' :: rest => readWord "alse".toList (.bool false) rest
      | text => do
          let (q, rest) ← readNumber text
          some (.number (toDouble q), rest)

def readMembers : ℕ → List Char → Option (List (List Char × Json) × List Char)
  | 0, _ => none
  | fuel + 1, text =>
      match skip text with
      | '\x22' :: rest => do
          let (key, rest) ← readString rest
          match skip rest with
          | ':' :: rest => do
              let (v, rest) ← readValue fuel rest
              match skip rest with
              | ',' :: rest => do
                  let (members, rest) ← readMembers fuel rest
                  some ((key, v) :: members, rest)
              | '\x7d' :: rest => some ([(key, v)], rest)
              | _ => none
          | _ => none
      | _ => none

def readItems : ℕ → List Char → Option (List Json × List Char)
  | 0, _ => none
  | fuel + 1, text => do
      let (v, rest) ← readValue fuel text
      match skip rest with
      | ',' :: rest => do
          let (items, rest) ← readItems fuel rest
          some (v :: items, rest)
      | ']' :: rest => some ([v], rest)
      | _ => none

end

/-- `JSON.parse`. -/
def parse (text : List Char) : Option Json :=
  match readValue (text.length + 1) text with
  | some (v, rest) => if skip rest = [] then some v else none
  | none => none

/-- A key that is there twice means what it means last. -/
def Json.field (key : String) : Json → Option Json
  | .object members => (members.reverse.find? (·.1 = key.toList)).map Prod.snd
  | _ => none

/-- A double that is an integer and that no other number was rounded to. -/
def Json.safeInteger : Json → Option ℕ
  | .number q =>
      if q.den = 1 ∧ 0 ≤ q.num ∧ q.num < 2 ^ 53 then some q.num.toNat else none
  | _ => none

/-! ## Spelling -/

/-- A text that ends a value. -/
def Closes (rest : List Char) : Prop :=
  ∀ c ∈ rest.head?, c = ',' ∨ c = '\x7d' ∨ c = ']'

def Spells (text : List Char) (v : Json) : Prop :=
  ∀ fuel rest, text.length ≤ fuel → Closes rest →
    readValue fuel (text ++ rest) = some (v, rest)

theorem skip_cons {c : Char} {rest : List Char} (h : isSpace c = false) :
    skip (c :: rest) = c :: rest :=
  List.dropWhile_cons_of_neg (by simp [h])

theorem readString_plain {s rest : List Char} (h : ∀ c ∈ s, isPlain c = true) :
    readString (s ++ '\x22' :: rest) = some (s, rest) := by
  induction s with
  | nil => rfl
  | cons c s ih =>
      have hc := h c List.mem_cons_self
      have hne : c ≠ '\x22' ∧ c ≠ '\x5c' := by
        simp only [isPlain, ne_eq, decide_not, Bool.and_eq_true,
          Bool.not_eq_true', decide_eq_false_iff_not] at hc
        exact hc.1
      have hrest := ih fun c hc => h c (List.mem_cons_of_mem _ hc)
      rw [List.cons_append, readString]
      · simp [hc, hrest]
      · exact hne.1
      · intro a b c' d rest' hsame
        exact absurd hsame hne.2
      · intro c' rest' hsame
        exact absurd hsame hne.2

def quoted (s : List Char) : List Char :=
  '\x22' :: s ++ ['\x22']

theorem spells_string {s : List Char} (h : ∀ c ∈ s, isPlain c = true) :
    Spells (quoted s) (.string s) := by
  intro fuel rest hfuel _
  cases fuel with
  | zero => simp [quoted] at hfuel
  | succ fuel =>
      have hskip : skip ('\x22' :: (s ++ '\x22' :: rest)) =
          '\x22' :: (s ++ '\x22' :: rest) := skip_cons rfl
      have htext : quoted s ++ rest = '\x22' :: (s ++ '\x22' :: rest) := by
        simp [quoted]
      rw [htext, readValue, hskip]
      simp [readString_plain h]

theorem spells_null : Spells "null".toList .null := by
  intro fuel rest hfuel _
  cases fuel with
  | zero => simp at hfuel
  | succ fuel => rfl

theorem spells_bool (b : Bool) : Spells (toString b).toList (.bool b) := by
  intro fuel rest hfuel _
  cases fuel with
  | zero => cases b <;> exact absurd hfuel (by decide)
  | succ fuel => cases b <;> rfl

theorem ne_of_isDigit {c d : Char} (h : c.isDigit = true)
    (hd : d.isDigit = false) : c ≠ d := by
  intro heq
  rw [← heq, h] at hd
  cases hd

theorem isPlain_of_isDigit {c : Char} (h : c.isDigit = true) :
    isPlain c = true := by
  have hbound : 48 ≤ c.toNat := by
    simp only [Char.isDigit, Bool.and_eq_true, decide_eq_true_eq] at h
    exact h.1
  have hquote : c ≠ '\x22' := ne_of_isDigit h rfl
  have hslash : c ≠ '\x5c' := ne_of_isDigit h rfl
  unfold isPlain
  simp [hquote, hslash]
  omega

theorem isDigit_toDigits {n : ℕ} : ∀ c ∈ Nat.toDigits 10 n, c.isDigit = true := by
  intro c hc
  exact Nat.isDigit_of_mem_toDigits (by decide) (by decide) hc

theorem isSpace_of_isDigit {c : Char} (h : c.isDigit = true) :
    isSpace c = false := by
  unfold isSpace
  simp [ne_of_isDigit h (d := ' ') rfl, ne_of_isDigit h (d := '\n') rfl,
    ne_of_isDigit h (d := '\r') rfl, ne_of_isDigit h (d := '\t') rfl]

theorem readNumber_digit {c : Char} {rest : List Char} (h : c.isDigit = true) :
    readNumber (c :: rest) = readUnsigned (c :: rest) := by
  unfold readNumber
  split
  · rename_i heq
    exact absurd (List.cons.inj heq).1 (ne_of_isDigit h rfl)
  · rfl

theorem readValue_digit {fuel : ℕ} {c : Char} {rest : List Char}
    (h : c.isDigit = true) : readValue (fuel + 1) (c :: rest) =
      (readUnsigned (c :: rest)).map fun read =>
        (.number (toDouble read.1), read.2) := by
  rw [readValue, skip_cons (isSpace_of_isDigit h)]
  split
  case h_7 =>
    rw [readNumber_digit h]
    cases readUnsigned (c :: rest) <;> rfl
  all_goals
    rename_i heq
    exact absurd (List.cons.inj heq).1 (ne_of_isDigit h rfl)

/-- No zero stands before another digit of a number. -/
theorem head_toDigits {n : ℕ} (h : 0 < n) :
    (Nat.toDigits 10 n).head? ≠ some '0' := by
  induction n using Nat.strongRecOn with
  | _ n ih =>
      rw [Nat.toDigits_eq_if (by decide)]
      split
      · rename_i hlt
        interval_cases n <;> decide
      · rename_i hle
        have hpos : 0 < n / 10 := by omega
        rw [List.head?_append_of_ne_nil _ Nat.toDigits_ne_nil]
        exact ih (n / 10) (by omega) hpos

theorem span_digits {digits rest : List Char}
    (hdigits : ∀ c ∈ digits, c.isDigit = true)
    (hrest : ∀ c ∈ rest.head?, c.isDigit = false) :
    (digits ++ rest).span Char.isDigit = (digits, rest) := by
  rw [List.span_eq_takeWhile_dropWhile]
  have hnone : rest.takeWhile Char.isDigit = [] ∧
      rest.dropWhile Char.isDigit = rest := by
    cases rest with
    | nil => exact ⟨rfl, rfl⟩
    | cons c rest =>
        have hc := hrest c rfl
        simp [hc]
  rw [List.takeWhile_append_of_pos hdigits, List.dropWhile_append_of_pos hdigits,
    hnone.1, hnone.2, List.append_nil]

theorem readWhole_toDigits {n : ℕ} {rest : List Char}
    (hrest : ∀ c ∈ rest.head?, c.isDigit = false) :
    readWhole (Nat.toDigits 10 n ++ rest) =
      some (Nat.toDigits 10 n, rest) := by
  obtain hzero | hpos := Nat.eq_zero_or_pos n
  · rw [hzero, Nat.toDigits_zero]
    rfl
  · unfold readWhole
    split
    · rename_i heq
      have hhead := congrArg List.head? heq
      rw [List.head?_append_of_ne_nil _ Nat.toDigits_ne_nil] at hhead
      exact absurd hhead (head_toDigits hpos)
    · rw [span_digits isDigit_toDigits hrest]
      obtain ⟨c, digits, hcons⟩ :=
        List.exists_cons_of_ne_nil (Nat.toDigits_ne_nil (n := n) (b := 10))
      rw [hcons]

theorem spells_nat (n : ℕ) :
    Spells (Nat.toDigits 10 n) (.number (toDouble n)) := by
  intro fuel rest hfuel hcloses
  have hends : ∀ c ∈ rest.head?, c.isDigit = false ∧ c ≠ '.' ∧ c ≠ 'e' ∧
      c ≠ 'E' := by
    intro c hc
    obtain rfl | rfl | rfl := hcloses c hc <;> decide
  obtain ⟨c, digits, hcons⟩ :=
    List.exists_cons_of_ne_nil (Nat.toDigits_ne_nil (n := n) (b := 10))
  have hc : c.isDigit = true := by
    apply isDigit_toDigits (n := n)
    rw [hcons]
    exact List.mem_cons_self
  cases fuel with
  | zero =>
      rw [hcons] at hfuel
      simp at hfuel
  | succ fuel =>
      have hread : readUnsigned (Nat.toDigits 10 n ++ rest) =
          some ((n : ℚ), rest) := by
        unfold readUnsigned
        rw [readWhole_toDigits fun c hc => (hends c hc).1]
        have hfraction : readFraction rest = some ([], rest) := by
          unfold readFraction
          split
          · exact absurd rfl (hends '.' rfl).2.1
          · rfl
        have hexponent : readExponent rest = some (0, rest) := by
          cases rest with
          | nil => rfl
          | cons d rest =>
              have hd := hends d rfl
              exact if_neg (not_or.mpr ⟨hd.2.2.1, hd.2.2.2⟩)
        simp [hfraction, hexponent, Nat.ofDigitChars_ten_toDigits]
      rw [hcons, List.cons_append, readValue_digit hc, ← List.cons_append,
        ← hcons, hread]
      rfl

/-- Every integer below `2 ^ 53` is a double. -/
theorem toDouble_nat {n : ℕ} (h : n < 2 ^ 53) : toDouble n = n := by
  have hlog : Int.log 2 |(n : ℚ)| = Nat.log 2 n := by
    rw [Nat.abs_cast, Int.log_natCast]
  have hle : Nat.log 2 n ≤ 52 :=
    Nat.le_of_lt_succ (Nat.log_lt_of_lt_pow' (by decide) h)
  obtain ⟨k, hk⟩ := Nat.exists_eq_add_of_le hle
  have hquantum : quantum n = ((2 ^ k : ℕ) : ℚ)⁻¹ := by
    unfold quantum
    have hexponent : max (Int.log 2 |(n : ℚ)|) (-1022) - 52 = -(k : ℤ) := by
      rw [hlog]
      omega
    rw [hexponent, zpow_neg, zpow_natCast]
    norm_cast
  have hscaled : (n : ℚ) / quantum n = ((n * 2 ^ k : ℕ) : ℚ) := by
    rw [hquantum, div_inv_eq_mul]
    norm_cast
  have hpos : ((2 ^ k : ℕ) : ℚ) ≠ 0 := by
    norm_cast
    exact (Nat.two_pow_pos k).ne'
  unfold toDouble
  dsimp only
  rw [hscaled, Int.floor_natCast, Int.cast_natCast, sub_self,
    if_pos (.inl one_half_pos), hquantum, Nat.cast_mul, mul_assoc,
    mul_inv_cancel₀ hpos, mul_one]

theorem spells_small {n : ℕ} (h : n < 2 ^ 53) :
    Spells (Nat.toDigits 10 n) (.number n) := by
  have hspells := spells_nat n
  rw [toDouble_nat h] at hspells
  exact hspells

/-! ## Objects -/

def membersText : List (List Char × List Char) → List Char
  | [] => []
  | [(key, text)] => '\x22' :: (key ++ '\x22' :: ':' :: text)
  | (key, text) :: field :: fields =>
      '\x22' :: (key ++ '\x22' :: ':' :: (text ++ ',' ::
        membersText (field :: fields)))

def objectText (fields : List (List Char × List Char)) : List Char :=
  '\x7b' :: (membersText fields ++ ['\x7d'])

/-- A key and the text of a value. -/
def SpellsMember (field : List Char × List Char) (member : List Char × Json) :
    Prop :=
  (∀ c ∈ field.1, isPlain c = true) ∧ member.1 = field.1 ∧
    Spells field.2 member.2

theorem SpellsMember.of {key : String} {text : List Char} {v : Json}
    (hkey : key.toList.all isPlain = true) (h : Spells text v) :
    SpellsMember (key.toList, text) (key.toList, v) :=
  ⟨List.all_eq_true.mp hkey, rfl, h⟩

theorem readMembers_cons {fuel : ℕ} {key text rest : List Char} {v : Json}
    (hkey : ∀ c ∈ key, isPlain c = true) (hvalue : Spells text v)
    (hfuel : text.length ≤ fuel) (hcloses : Closes rest) :
    readMembers (fuel + 1) ('\x22' :: (key ++ '\x22' :: ':' :: (text ++ rest))) =
      match skip rest with
      | ',' :: rest => do
          let (members, rest) ← readMembers fuel rest
          some ((key, v) :: members, rest)
      | '\x7d' :: rest => some ([(key, v)], rest)
      | _ => none := by
  rw [readMembers, skip_cons rfl]
  simp only [readString_plain hkey, Option.bind_eq_bind, Option.bind_some]
  rw [skip_cons rfl]
  simp only [hvalue fuel rest hfuel hcloses, Option.bind_some]

theorem readMembers_spells {fields : List (List Char × List Char)}
    {members : List (List Char × Json)}
    (h : List.Forall₂ SpellsMember fields members) (hsome : fields ≠ []) :
    ∀ fuel rest, (membersText fields).length ≤ fuel →
      readMembers fuel (membersText fields ++ '\x7d' :: rest) =
        some (members, rest) := by
  induction h with
  | nil => exact absurd rfl hsome
  | @cons field member fields members hfield hfields ih =>
      intro fuel rest hfuel
      obtain ⟨key, text⟩ := field
      obtain ⟨name, v⟩ := member
      obtain ⟨hkey, hname, hvalue⟩ := hfield
      dsimp only at hkey hname hvalue
      obtain rfl : key = name := hname.symm
      cases fuel with
      | zero => cases hfields <;> simp [membersText] at hfuel
      | succ fuel =>
          cases hfields with
          | nil =>
              simp only [membersText, List.length_cons, List.length_append]
                at hfuel
              have htext : membersText [(key, text)] ++ '\x7d' :: rest =
                  '\x22' :: (key ++ '\x22' :: ':' :: (text ++ '\x7d' :: rest)) := by
                simp [membersText]
              rw [htext, readMembers_cons hkey hvalue (by omega)
                (by simp [Closes]), skip_cons rfl]
              rfl
          | @cons field' member' fields' members' hfield' hfields' =>
              simp only [membersText, List.length_cons, List.length_append]
                at hfuel
              have htext : membersText ((key, text) :: field' :: fields') ++
                  '\x7d' :: rest =
                  '\x22' :: (key ++ '\x22' :: ':' :: (text ++ ',' ::
                    (membersText (field' :: fields') ++ '\x7d' :: rest))) := by
                simp [membersText]
              rw [htext, readMembers_cons hkey hvalue (by omega)
                (by simp [Closes]), skip_cons rfl]
              simp only
              rw [ih (by simp) fuel rest (by omega)]
              rfl

theorem spells_object {fields : List (List Char × List Char)}
    {members : List (List Char × Json)}
    (h : List.Forall₂ SpellsMember fields members) (hsome : fields ≠ []) :
    Spells (objectText fields) (.object members) := by
  intro fuel rest hfuel _
  cases fuel with
  | zero => simp [objectText] at hfuel
  | succ fuel =>
      simp only [objectText, List.length_cons, List.length_append,
        List.length_nil] at hfuel
      have htext : objectText fields ++ rest =
          '\x7b' :: (membersText fields ++ '\x7d' :: rest) := by
        simp [objectText]
      have hquote : ∃ more, membersText fields ++ '\x7d' :: rest =
          '\x22' :: more := by
        obtain ⟨field, fields, rfl⟩ := List.exists_cons_of_ne_nil hsome
        cases fields <;> exact ⟨_, rfl⟩
      obtain ⟨more, hmore⟩ := hquote
      have hmembers := readMembers_spells h hsome fuel rest (by omega)
      rw [hmore] at hmembers
      rw [htext, hmore, readValue, skip_cons rfl]
      simp only
      rw [skip_cons rfl]
      simp [hmembers]

theorem Json.safeInteger_nat {n : ℕ} (h : n < 2 ^ 53) :
    Json.safeInteger (.number n) = some n := by
  unfold Json.safeInteger
  simpa using h

/-- A text that spells a value means that value, and no other. -/
theorem parse_of_spells {text : List Char} {v : Json} (h : Spells text v) :
    parse text = some v := by
  have hread := h (text.length + 1) [] (by omega) (by simp [Closes])
  rw [List.append_nil] at hread
  unfold parse
  rw [hread]
  rfl

end JsonText
