import UsdtPir.HexDigits
import UsdtPir.Records

/-!
# Addresses as a user writes them

`parse_address` counts and classifies the bytes of the text itself and leaves
the digits to the address library: a body in one case goes to the lenient
parser, a body in both to the one that checks EIP-55.
-/

namespace UsdtPir

open HexDigits

/-- The parts of the address library that are called here. -/
structure AddressLibrary where
  /-- `str::parse::<Address>`. -/
  parse : String → Option Address
  /-- `Address::parse_checksummed`, with no chain id. -/
  parseChecksummed : String → Option Address
  /-- `Address::to_checksum`, with no chain id. -/
  toChecksum : Address → String

/-- Either parser reads forty digits behind `0x`; the strict one wants them to
be spelled as `to_checksum` spells them. -/
structure AddressLibrary.Documented (lib : AddressLibrary) : Prop where
  parse : ∀ body a,
    lib.parse ("0x" ++ body) = some a ↔ Spells body.toList a.bytes
  parseChecksummed : ∀ s a,
    lib.parseChecksummed s = some a ↔ lib.parse s = some a ∧ s = lib.toChecksum a
  toChecksum : ∀ a, ∃ body,
    lib.toChecksum a = "0x" ++ body ∧ Spells body.toList a.bytes

/-- `ClientError::BadAddress`, with what it shows. -/
structure BadAddress where
  shown : String
  deriving DecidableEq

/-- `str::bytes`. -/
def utf8Bytes (s : String) : List UInt8 :=
  s.toList.flatMap String.utf8EncodeChar

def isAsciiUppercase (b : UInt8) : Bool :=
  'A'.toUInt8 ≤ b && b ≤ 'Z'.toUInt8

def isAsciiLowercase (b : UInt8) : Bool :=
  'a'.toUInt8 ≤ b && b ≤ 'z'.toUInt8

def isAsciiHexdigit (b : UInt8) : Bool :=
  ('0'.toUInt8 ≤ b && b ≤ '9'.toUInt8) ||
    ('a'.toUInt8 ≤ b && b ≤ 'f'.toUInt8) ||
    ('A'.toUInt8 ≤ b && b ≤ 'F'.toUInt8)

/-- `str::strip_prefix`. -/
def stripPrefix (start s : String) : Option String :=
  if start.toList <+: s.toList then
    some (String.ofList (s.toList.drop start.toList.length))
  else none

/-- The text without its `0x`. -/
def addressBody (s : String) : String :=
  ((stripPrefix "0x" s).or (stripPrefix "0X" s)).getD s

def parseAddress (lib : AddressLibrary) (s : String) :
    Except BadAddress Address :=
  let body := addressBody s
  if (utf8Bytes body).length ≠ 40 ∨ ¬ (utf8Bytes body).all isAsciiHexdigit then
    .error ⟨s⟩
  else
    let mixed := (utf8Bytes body).any isAsciiUppercase &&
      (utf8Bytes body).any isAsciiLowercase
    let prefixed := "0x" ++ body
    if mixed then
      match lib.parseChecksummed prefixed with
      | some a => .ok a
      | none => .error ⟨s ++ " (EIP-55 checksum mismatch)"⟩
    else
      match lib.parse prefixed with
      | some a => .ok a
      | none => .error ⟨s⟩

/-! ## The documented forms -/

/-- Forty digits that spell the address, in one case or as EIP-55 has them. -/
structure AddressDigits (lib : AddressLibrary) (body : String) (a : Address) :
    Prop where
  spells : Spells body.toList a.bytes
  cased : (∀ c ∈ body.toList, c.isUpper = false) ∨
    (∀ c ∈ body.toList, c.isLower = false) ∨
    "0x" ++ body = lib.toChecksum a

/-- What may stand before the digits. -/
def addressPrefixes : List String :=
  ["", "0x", "0X"]

def AddressForm (lib : AddressLibrary) (s : String) (a : Address) : Prop :=
  ∃ start ∈ addressPrefixes, ∃ body,
    s = start ++ body ∧ AddressDigits lib body a

section Bytes

variable {s body : String} {c : Char}

theorem isAsciiHexdigit_of_lt : ∀ n < 128,
    isAsciiHexdigit (UInt8.ofNat n) = (value (Char.ofNat n)).isSome := by
  decide

theorem isAsciiUppercase_of_lt : ∀ n < 128,
    isAsciiUppercase (UInt8.ofNat n) = (Char.ofNat n).isUpper := by
  decide

theorem isAsciiLowercase_of_lt : ∀ n < 128,
    isAsciiLowercase (UInt8.ofNat n) = (Char.ofNat n).isLower := by
  decide

theorem toNat_lt_of_isAsciiHexdigit {b : UInt8} (h : isAsciiHexdigit b = true) :
    b.toNat < 128 := by
  simp only [isAsciiHexdigit, Bool.or_eq_true, Bool.and_eq_true,
    decide_eq_true_eq, UInt8.le_iff_toNat_le] at h
  have hnine : 'f'.toUInt8.toNat < 128 := by decide
  have hf : '9'.toUInt8.toNat < 128 := by decide
  have hF : 'F'.toUInt8.toNat < 128 := by decide
  omega

/-- A text of hexadecimal digits has one byte for each of them. -/
theorem utf8Bytes_of_digits (h : ∀ c ∈ s.toList, (value c).isSome) :
    utf8Bytes s = s.toList.map fun c => UInt8.ofNat c.toNat := by
  unfold utf8Bytes
  rw [List.map_eq_flatMap]
  apply List.flatMap_congr
  intro c hc
  exact utf8EncodeChar_of_ascii (toNat_lt_of_value (h c hc))

theorem all_isAsciiHexdigit_iff :
    (utf8Bytes s).all isAsciiHexdigit = true ↔
      ∀ c ∈ s.toList, (value c).isSome := by
  constructor
  · intro h c hc
    have hbytes : ∀ b ∈ String.utf8EncodeChar c, isAsciiHexdigit b = true := by
      intro b hb
      exact List.all_eq_true.mp h b (List.mem_flatMap.mpr ⟨c, hc, hb⟩)
    have hlt : c.toNat < 128 :=
      toNat_lt_of_utf8 fun b hb => toNat_lt_of_isAsciiHexdigit (hbytes b hb)
    have hdigit : isAsciiHexdigit (UInt8.ofNat c.toNat) = true := by
      apply hbytes
      rw [utf8EncodeChar_of_ascii hlt]
      exact List.mem_cons_self
    rw [isAsciiHexdigit_of_lt c.toNat hlt, Char.ofNat_toNat] at hdigit
    exact hdigit
  · intro h
    rw [utf8Bytes_of_digits h, List.all_map, List.all_eq_true]
    intro c hc
    have hlt : c.toNat < 128 := toNat_lt_of_value (h c hc)
    simp only [Function.comp_apply]
    rw [isAsciiHexdigit_of_lt c.toNat hlt, Char.ofNat_toNat]
    exact h c hc

/-- A test of bytes and a test of characters that agree on ASCII. -/
theorem any_utf8Bytes {p : UInt8 → Bool} {q : Char → Bool}
    (hpq : ∀ n < 128, p (UInt8.ofNat n) = q (Char.ofNat n))
    (h : ∀ c ∈ s.toList, (value c).isSome) :
    (utf8Bytes s).any p = s.toList.any q := by
  have hagree : ∀ c ∈ s.toList, p (UInt8.ofNat c.toNat) = q c := by
    intro c hc
    rw [hpq c.toNat (toNat_lt_of_value (h c hc)), Char.ofNat_toNat]
  rw [utf8Bytes_of_digits h, List.any_map]
  rw [Bool.eq_iff_iff, List.any_eq_true, List.any_eq_true]
  constructor
  · intro hany
    obtain ⟨c, hc, hp⟩ := hany
    exact ⟨c, hc, (hagree c hc).symm.trans hp⟩
  · intro hany
    obtain ⟨c, hc, hq⟩ := hany
    exact ⟨c, hc, (hagree c hc).trans hq⟩

end Bytes

section Prefixes

variable {lib : AddressLibrary} {s start body : String} {a : Address}

theorem stripPrefix_append : stripPrefix start (start ++ body) = some body := by
  unfold stripPrefix
  rw [String.toList_append, if_pos (List.prefix_append _ _), List.drop_left,
    String.ofList_toList]

theorem eq_of_stripPrefix (h : stripPrefix start s = some body) :
    s = start ++ body := by
  unfold stripPrefix at h
  split at h
  case isTrue hprefix =>
      cases h
      apply String.toList_inj.mp
      rw [String.toList_append, String.toList_ofList]
      exact (List.prefix_iff_eq_append.mp hprefix).symm
  case isFalse => cases h

/-- Digits do not begin with `0x`: the second character is none. -/
theorem stripPrefix_of_digits {x : Char} (hx : value x = none)
    (h : ∀ c ∈ body.toList, (value c).isSome) :
    stripPrefix (String.ofList ['0', x]) body = none := by
  unfold stripPrefix
  rw [if_neg]
  intro hprefix
  have hmem : x ∈ body.toList := by
    apply hprefix.subset
    simp
  have hsome : (value x).isSome := h x hmem
  rw [hx] at hsome
  cases hsome

theorem addressBody_prefixed (hstart : start ∈ addressPrefixes)
    (h : ∀ c ∈ body.toList, (value c).isSome) :
    addressBody (start ++ body) = body := by
  have hx : stripPrefix "0x" body = none :=
    stripPrefix_of_digits (x := 'x') (by decide) h
  have hX : stripPrefix "0X" body = none :=
    stripPrefix_of_digits (x := 'X') (by decide) h
  unfold addressBody
  simp only [addressPrefixes, List.mem_cons, List.not_mem_nil, or_false]
    at hstart
  obtain rfl | rfl | rfl := hstart
  · simp [hx, hX]
  · rw [stripPrefix_append]
    rfl
  · have hother : stripPrefix "0x" ("0X" ++ body) = none := by
      unfold stripPrefix
      rw [String.toList_append, if_neg]
      intro hprefix
      simp at hprefix
    rw [hother, stripPrefix_append]
    rfl

theorem eq_prefix_append_addressBody :
    ∃ start ∈ addressPrefixes, s = start ++ addressBody s := by
  unfold addressBody
  cases hx : stripPrefix "0x" s with
  | some body =>
      exact ⟨"0x", by simp [addressPrefixes], eq_of_stripPrefix hx⟩
  | none =>
      cases hX : stripPrefix "0X" s with
      | some body =>
          exact ⟨"0X", by simp [addressPrefixes], eq_of_stripPrefix hX⟩
      | none =>
          refine ⟨"", by simp [addressPrefixes], ?_⟩
          simp

end Prefixes

/-! ## What is accepted -/

section Accepted

variable {lib : AddressLibrary} {s body : String} {a : Address}

theorem parseAddress_malformed
    (h : (utf8Bytes (addressBody s)).length ≠ 40 ∨
      ¬ (utf8Bytes (addressBody s)).all isAsciiHexdigit) :
    parseAddress lib s = .error ⟨s⟩ := by
  unfold parseAddress
  simp only [h, if_true]

theorem AddressDigits.isSome (h : AddressDigits lib body a) :
    ∀ c ∈ body.toList, (value c).isSome := by
  intro c hc
  exact h.spells.isSome hc

theorem AddressDigits.wellFormed (h : AddressDigits lib body a) :
    (utf8Bytes body).length = 40 ∧
      (utf8Bytes body).all isAsciiHexdigit = true := by
  constructor
  · rw [utf8Bytes_of_digits h.isSome, List.length_map, h.spells.length,
      a.length_eq]
  · exact all_isAsciiHexdigit_iff.mpr h.isSome

theorem parseAddress_eq_ok_iff (hlib : lib.Documented) :
    parseAddress lib s = .ok a ↔ AddressDigits lib (addressBody s) a := by
  by_cases hwell : (utf8Bytes (addressBody s)).length = 40 ∧
      (utf8Bytes (addressBody s)).all isAsciiHexdigit = true
  · have hdigits : ∀ c ∈ (addressBody s).toList, (value c).isSome :=
      all_isAsciiHexdigit_iff.mp hwell.2
    have hchecked : ¬ ((utf8Bytes (addressBody s)).length ≠ 40 ∨
        ¬ (utf8Bytes (addressBody s)).all isAsciiHexdigit) := by
      simp [hwell]
    unfold parseAddress
    simp only [hchecked, if_false]
    rw [any_utf8Bytes isAsciiUppercase_of_lt hdigits,
      any_utf8Bytes isAsciiLowercase_of_lt hdigits]
    by_cases hmixed : ((addressBody s).toList.any Char.isUpper &&
        (addressBody s).toList.any Char.isLower) = true
    · rw [if_pos hmixed]
      rw [Bool.and_eq_true, List.any_eq_true, List.any_eq_true] at hmixed
      obtain ⟨⟨c, hc, hupper⟩, d, hd, hlower⟩ := hmixed
      have hstrict : lib.parseChecksummed ("0x" ++ addressBody s) = some a ↔
          Spells (addressBody s).toList a.bytes ∧
            "0x" ++ addressBody s = lib.toChecksum a := by
        rw [hlib.parseChecksummed, hlib.parse]
      constructor
      · intro h
        have hparsed : lib.parseChecksummed ("0x" ++ addressBody s) =
            some a := by
          split at h
          case h_1 a' ha' =>
              cases h
              exact ha'
          case h_2 => cases h
        exact ⟨(hstrict.mp hparsed).1, .inr (.inr (hstrict.mp hparsed).2)⟩
      · intro h
        have hsame : "0x" ++ addressBody s = lib.toChecksum a := by
          obtain hnone | hnone | hsame := h.cased
          · rw [hnone c hc] at hupper
            cases hupper
          · rw [hnone d hd] at hlower
            cases hlower
          · exact hsame
        simp only [hstrict.mpr ⟨h.spells, hsame⟩]
    · rw [if_neg hmixed]
      have hcased : (∀ c ∈ (addressBody s).toList, c.isUpper = false) ∨
          ∀ c ∈ (addressBody s).toList, c.isLower = false := by
        rw [Bool.and_eq_true, not_and_or] at hmixed
        simpa using hmixed
      constructor
      · intro h
        have hparsed : lib.parse ("0x" ++ addressBody s) = some a := by
          split at h
          case h_1 a' ha' =>
              cases h
              exact ha'
          case h_2 => cases h
        refine ⟨(hlib.parse _ _).mp hparsed, ?_⟩
        exact hcased.imp_right Or.inl
      · intro h
        simp only [(hlib.parse _ _).mpr h.spells]
  · constructor
    · intro h
      have hmalformed : (utf8Bytes (addressBody s)).length ≠ 40 ∨
          ¬ (utf8Bytes (addressBody s)).all isAsciiHexdigit :=
        not_and_or.mp hwell
      rw [parseAddress_malformed hmalformed] at h
      cases h
    · intro h
      exact absurd h.wellFormed hwell

theorem addressForm_iff :
    AddressForm lib s a ↔ AddressDigits lib (addressBody s) a := by
  constructor
  · intro h
    obtain ⟨start, hstart, body, rfl, hbody⟩ := h
    rwa [addressBody_prefixed hstart hbody.isSome]
  · intro h
    obtain ⟨start, hstart, hs⟩ := eq_prefix_append_addressBody (s := s)
    exact ⟨start, hstart, addressBody s, hs, h⟩

end Accepted

/-- The digits of an address in one case. -/
def hexForm (digit : ℕ → Char) (a : Address) : String :=
  String.ofList (spell digit a.bytes)

theorem addressDigits_lower (lib : AddressLibrary) (a : Address) :
    AddressDigits lib (hexForm lower a) a := by
  constructor
  · rw [hexForm, String.toList_ofList]
    exact spells_spell value_lower
  · left
    intro c hc
    rw [hexForm, String.toList_ofList] at hc
    obtain ⟨n, hn, rfl⟩ := mem_spell hc
    exact lower_not_upper n hn

theorem addressDigits_upper (lib : AddressLibrary) (a : Address) :
    AddressDigits lib (hexForm upper a) a := by
  constructor
  · rw [hexForm, String.toList_ofList]
    exact spells_spell value_upper
  · right
    left
    intro c hc
    rw [hexForm, String.toList_ofList] at hc
    obtain ⟨n, hn, rfl⟩ := mem_spell hc
    exact upper_not_lower n hn

/-- A text is read as an address exactly if it has one of the documented forms;
any other is an error; and an address can be written in all of them. -/
theorem parseAddress_accepts_documented_forms (lib : AddressLibrary)
    (hlib : lib.Documented) :
    (∀ s a, parseAddress lib s = .ok a ↔ AddressForm lib s a) ∧
    (∀ s, (∀ a, ¬ AddressForm lib s a) → ∃ e, parseAddress lib s = .error e) ∧
    ∀ a, ∀ start ∈ addressPrefixes,
      parseAddress lib (start ++ hexForm lower a) = .ok a ∧
      parseAddress lib (start ++ hexForm upper a) = .ok a ∧
      ∃ body, lib.toChecksum a = "0x" ++ body ∧
        parseAddress lib (start ++ body) = .ok a := by
  have hiff : ∀ s a, parseAddress lib s = .ok a ↔ AddressForm lib s a := by
    intro s a
    rw [parseAddress_eq_ok_iff hlib, addressForm_iff]
  constructor
  · exact hiff
  constructor
  · intro s hnone
    cases hresult : parseAddress lib s with
    | error e => exact ⟨e, rfl⟩
    | ok a => exact absurd ((hiff s a).mp hresult) (hnone a)
  · intro a start hstart
    constructor
    · exact (hiff _ a).mpr ⟨start, hstart, _, rfl, addressDigits_lower lib a⟩
    constructor
    · exact (hiff _ a).mpr ⟨start, hstart, _, rfl, addressDigits_upper lib a⟩
    · obtain ⟨body, hbody, hspells⟩ := hlib.toChecksum a
      refine ⟨body, hbody, (hiff _ a).mpr ⟨start, hstart, body, rfl, ?_⟩⟩
      exact ⟨hspells, .inr (.inr hbody.symm)⟩

/-! ## A library by its documentation -/

section Sample

/-- `0xd8dA6BF26964aF9D7eEd9e03E53415D37aA96045`. -/
def sampleAddress : Address :=
  ⟨[0xd8, 0xda, 0x6b, 0xf2, 0x69, 0x64, 0xaf, 0x9d, 0x7e, 0xed,
    0x9e, 0x03, 0xe5, 0x34, 0x15, 0xd3, 0x7a, 0xa9, 0x60, 0x45], rfl⟩

/-- EIP-55 on one address. -/
def sampleChecksum (a : Address) : String :=
  if a = sampleAddress then "0xd8dA6BF26964aF9D7eEd9e03E53415D37aA96045"
  else "0x" ++ hexForm lower a

def readAddress (s : String) : Option Address :=
  match readDigits ((stripPrefix "0x" s).getD s).toList with
  | some bytes => if h : bytes.length = 20 then some ⟨bytes, h⟩ else none
  | none => none

def sampleLibrary : AddressLibrary where
  parse := readAddress
  parseChecksummed := fun s =>
    (readAddress s).filter fun a => s = sampleChecksum a
  toChecksum := sampleChecksum

theorem readAddress_prefixed (body : String) (a : Address) :
    readAddress ("0x" ++ body) = some a ↔ Spells body.toList a.bytes := by
  unfold readAddress
  rw [stripPrefix_append, Option.getD_some]
  constructor
  · intro h
    split at h
    case h_1 bytes hread =>
        split at h
        case isTrue hlength =>
            cases h
            exact readDigits_eq_some_iff.mp hread
        case isFalse => cases h
    case h_2 => cases h
  · intro h
    rw [readDigits_eq_some_iff.mpr h]
    simp [a.length_eq]

theorem sampleLibrary_documented : sampleLibrary.Documented where
  parse := readAddress_prefixed
  parseChecksummed := by
    intro s a
    simp [sampleLibrary, Option.filter_eq_some_iff]
  toChecksum := by
    intro a
    unfold sampleLibrary sampleChecksum
    by_cases ha : a = sampleAddress
    · refine ⟨"d8dA6BF26964aF9D7eEd9e03E53415D37aA96045", ?_, ?_⟩
      · simp only [ha, if_true]
        decide
      · rw [ha]
        decide
    · refine ⟨hexForm lower a, ?_, (addressDigits_lower sampleLibrary a).spells⟩
      simp only [ha, if_false]

/-- One letter in the other case is enough to be refused. -/
theorem parseAddress_accepts_sample :
    parseAddress sampleLibrary "0Xd8dA6BF26964aF9D7eEd9e03E53415D37aA96045" =
        .ok sampleAddress ∧
      ∃ e, parseAddress sampleLibrary
        "0xD8dA6BF26964aF9D7eEd9e03E53415D37aA96045" = .error e := by
  obtain ⟨hok, herror, -⟩ :=
    parseAddress_accepts_documented_forms sampleLibrary sampleLibrary_documented
  have hspells : Spells "d8dA6BF26964aF9D7eEd9e03E53415D37aA96045".toList
      sampleAddress.bytes := by
    decide
  constructor
  · apply (hok _ _).mpr
    refine ⟨"0X", by decide, "d8dA6BF26964aF9D7eEd9e03E53415D37aA96045", rfl,
      hspells, .inr (.inr ?_)⟩
    decide
  · apply herror
    intro a hform
    have hdigits := addressForm_iff.mp hform
    have hbody : addressBody "0xD8dA6BF26964aF9D7eEd9e03E53415D37aA96045" =
        "D8dA6BF26964aF9D7eEd9e03E53415D37aA96045" := by
      decide
    rw [hbody] at hdigits
    have hread : readDigits "D8dA6BF26964aF9D7eEd9e03E53415D37aA96045".toList =
        some sampleAddress.bytes := by
      decide
    have ha : a = sampleAddress := by
      apply FixedBytes.ext
      rw [readDigits_eq_some_iff.mpr hdigits.spells] at hread
      exact Option.some.inj hread
    subst ha
    obtain hnone | hnone | hsame := hdigits.cased
    · exact absurd (hnone 'D' (by decide)) (by decide)
    · exact absurd (hnone 'd' (by decide)) (by decide)
    · exact absurd hsame (by decide)

end Sample

end UsdtPir
