import UsdtPir.AddressForms
import UsdtPir.JsonText
import UsdtPir.PirClient

/-!
# The text of a report

`to_json` writes a report by hand, as one format string.  The page reads it with
`JSON.parse`.
-/

namespace UsdtPir

open JsonText

def DECIMALS : ℕ := 6

/-- `{:06}`. -/
def sixPlaces (n : ℕ) : String :=
  String.ofList ((Nat.toDigits 10 n).leftpad 6 '0')

def formatUnits (v : U128) : String :=
  let scale := 10 ^ DECIMALS
  toString (v.toNat / scale) ++ "." ++ sixPlaces (v.toNat % scale)

namespace Report

/-- The most recent block at which either balance was re-read. -/
def asOfBlock (report : Report) : U32 :=
  if report.usdt.lastChangeBlock ≤ report.usdc.lastChangeBlock then
    report.usdc.lastChangeBlock
  else report.usdt.lastChangeBlock

/-- The object of one token, which the format string spells twice. -/
def tokenJson (symbol : String) (token : TokenBalance) : String :=
  "\x7b\"symbol\":\"" ++ symbol ++ "\",\"amount\":\"" ++
    formatUnits token.raw ++ "\",\"raw\":\"" ++ toString token.raw.toNat ++
    "\",\"lastChangeBlock\":" ++ toString token.lastChangeBlock.toNat ++ "\x7d"

def toJson (lib : AddressLibrary) (report : Report) : String :=
  "\x7b\"address\":\"" ++ lib.toChecksum report.address ++
    "\",\"held\":" ++ toString report.held ++
    ",\"asOfBlock\":" ++ toString report.asOfBlock.toNat ++
    ",\"usdt\":" ++ tokenJson "USDT" report.usdt ++
    ",\"usdc\":" ++ tokenJson "USDC" report.usdc ++ "\x7d"

end Report

/-- A token's part of the page's report. -/
def tokenObject (symbol : String) (token : TokenBalance) : Json :=
  .object
    [("symbol".toList, .string symbol.toList),
      ("amount".toList, .string (formatUnits token.raw).toList),
      ("raw".toList, .string (Nat.toDigits 10 token.raw.toNat)),
      ("lastChangeBlock".toList, .number token.lastChangeBlock.toNat)]

/-- The report as the page has it. -/
def Report.toObject (lib : AddressLibrary) (report : Report) : Json :=
  .object
    [("address".toList, .string (lib.toChecksum report.address).toList),
      ("held".toList, .bool report.held),
      ("asOfBlock".toList, .number (max report.usdt.lastChangeBlock.toNat
        report.usdc.lastChangeBlock.toNat : ℕ)),
      ("usdt".toList, tokenObject "USDT" report.usdt),
      ("usdc".toList, tokenObject "USDC" report.usdc)]

def tokenFields (symbol : String) (token : TokenBalance) :
    List (List Char × List Char) :=
  [("symbol".toList, quoted symbol.toList),
    ("amount".toList, quoted (formatUnits token.raw).toList),
    ("raw".toList, quoted (Nat.toDigits 10 token.raw.toNat)),
    ("lastChangeBlock".toList, Nat.toDigits 10 token.lastChangeBlock.toNat)]

theorem Report.tokenJson_toList (symbol : String) (token : TokenBalance) :
    (tokenJson symbol token).toList = objectText (tokenFields symbol token) := by
  unfold tokenJson
  simp [objectText, membersText, tokenFields, quoted]

theorem Report.toJson_toList (lib : AddressLibrary) (report : Report) :
    (report.toJson lib).toList = objectText
      [("address".toList, quoted (lib.toChecksum report.address).toList),
        ("held".toList, (toString report.held).toList),
        ("asOfBlock".toList, Nat.toDigits 10 report.asOfBlock.toNat),
        ("usdt".toList, objectText (tokenFields "USDT" report.usdt)),
        ("usdc".toList, objectText (tokenFields "USDC" report.usdc))] := by
  unfold Report.toJson
  simp [objectText, membersText, quoted, Report.tokenJson_toList]

/-! ## What the texts mean -/

theorem isDigit_sixPlaces {n : ℕ} :
    ∀ c ∈ (sixPlaces n).toList, c.isDigit = true := by
  intro c hc
  unfold sixPlaces at hc
  rw [String.toList_ofList, List.leftpad, List.mem_append] at hc
  cases hc with
  | inl hzero =>
      rw [List.eq_of_mem_replicate hzero]
      rfl
  | inr hdigit => exact isDigit_toDigits c hdigit

theorem length_sixPlaces {n : ℕ} (h : n < 10 ^ DECIMALS) :
    (sixPlaces n).toList.length = DECIMALS := by
  have hlength : (Nat.toDigits 10 n).length ≤ 6 := by
    rw [Nat.length_toDigits_le_iff (by decide) (by decide)]
    exact h
  unfold sixPlaces
  rw [String.toList_ofList, List.length_leftpad]
  exact max_eq_left hlength

theorem ofDigitChars_sixPlaces (n : ℕ) :
    Nat.ofDigitChars 10 (sixPlaces n).toList 0 = n := by
  unfold sixPlaces
  rw [String.toList_ofList, List.leftpad, Nat.ofDigitChars_append,
    Nat.ofDigitChars_replicate_zero, Nat.mul_zero,
    Nat.ofDigitChars_ten_toDigits]

theorem formatUnits_toList (v : U128) :
    (formatUnits v).toList = Nat.toDigits 10 (v.toNat / 10 ^ DECIMALS) ++
      '.' :: (sixPlaces (v.toNat % 10 ^ DECIMALS)).toList := by
  simp [formatUnits]

theorem isPlain_formatUnits {v : U128} :
    ∀ c ∈ (formatUnits v).toList, isPlain c = true := by
  intro c hc
  rw [formatUnits_toList, List.mem_append, List.mem_cons] at hc
  obtain hwhole | rfl | hplaces := hc
  · exact isPlain_of_isDigit (isDigit_toDigits c hwhole)
  · rfl
  · exact isPlain_of_isDigit (isDigit_sixPlaces c hplaces)

/-- The amount is the balance in whole tokens, to the last unit. -/
theorem readNumber_formatUnits (v : U128) :
    readNumber (formatUnits v).toList =
      some ((v.toNat : ℚ) / 10 ^ DECIMALS, []) := by
  have hlt : v.toNat % 10 ^ DECIMALS < 10 ^ DECIMALS :=
    Nat.mod_lt _ (by decide)
  have hfraction : readFraction
      ('.' :: (sixPlaces (v.toNat % 10 ^ DECIMALS)).toList) =
        some ((sixPlaces (v.toNat % 10 ^ DECIMALS)).toList, []) := by
    have hspan : ((sixPlaces (v.toNat % 10 ^ DECIMALS)).toList ++ []).span
        Char.isDigit = ((sixPlaces (v.toNat % 10 ^ DECIMALS)).toList, []) :=
      span_digits isDigit_sixPlaces nofun
    have hlength := length_sixPlaces hlt
    rw [List.append_nil] at hspan
    unfold readFraction
    simp only [hspan]
    split
    · rename_i heq
      rw [(Prod.mk.inj heq).1] at hlength
      cases hlength
    · rename_i heq
      rw [← heq]
  have hmantissa : Nat.ofDigitChars 10
      (Nat.toDigits 10 (v.toNat / 10 ^ DECIMALS) ++
        (sixPlaces (v.toNat % 10 ^ DECIMALS)).toList) 0 = v.toNat := by
    rw [Nat.ofDigitChars_append, Nat.ofDigitChars_ten_toDigits,
      Nat.ofDigitChars_eq_ofDigitChars_zero, ofDigitChars_sixPlaces,
      length_sixPlaces hlt]
    exact Nat.div_add_mod _ _
  have hread : readUnsigned (formatUnits v).toList =
      some ((v.toNat : ℚ) / 10 ^ DECIMALS, []) := by
    unfold readUnsigned
    rw [formatUnits_toList, readWhole_toDigits]
    · simp only [Option.bind_eq_bind, Option.bind_some, hfraction,
        readExponent, hmantissa, length_sixPlaces hlt]
      rw [zero_sub, zpow_neg, div_eq_mul_inv]
      rfl
    · intro c hc
      cases hc
      rfl
  rw [formatUnits_toList] at hread ⊢
  obtain ⟨c, digits, hcons⟩ := List.exists_cons_of_ne_nil
    (Nat.toDigits_ne_nil (n := v.toNat / 10 ^ DECIMALS) (b := 10))
  have hc : c.isDigit = true := by
    apply isDigit_toDigits (n := v.toNat / 10 ^ DECIMALS)
    rw [hcons]
    exact List.mem_cons_self
  rw [hcons] at hread ⊢
  rw [List.cons_append] at hread ⊢
  rw [readNumber_digit hc, hread]

theorem Report.toNat_asOfBlock (report : Report) :
    report.asOfBlock.toNat = max report.usdt.lastChangeBlock.toNat
      report.usdc.lastChangeBlock.toNat := by
  unfold asOfBlock
  split
  · rename_i hle
    exact (max_eq_right hle).symm
  · rename_i hlt
    exact (max_eq_left (Nat.le_of_not_le hlt)).symm

theorem isPlain_of_lt : ∀ n < 128, (HexDigits.value (Char.ofNat n)).isSome →
    isPlain (Char.ofNat n) = true := by
  decide

/-- A block is a double. -/
theorem TokenBalance.block_lt (token : TokenBalance) :
    token.lastChangeBlock.toNat < 2 ^ 53 := by
  have hlt := token.lastChangeBlock.isLt
  omega

theorem spells_token {symbol : String}
    (h : symbol.toList.all isPlain = true) (token : TokenBalance) :
    Spells (objectText (tokenFields symbol token)) (tokenObject symbol token) := by
  apply spells_object
  · apply List.Forall₂.cons
    · exact .of rfl (spells_string (List.all_eq_true.mp h))
    apply List.Forall₂.cons
    · exact .of rfl (spells_string isPlain_formatUnits)
    apply List.Forall₂.cons
    · refine .of rfl (spells_string ?_)
      intro c hc
      exact isPlain_of_isDigit (isDigit_toDigits c hc)
    apply List.Forall₂.cons
    · exact .of rfl (spells_small token.block_lt)
    · exact .nil
  · simp [tokenFields]

section Reading

variable {lib : AddressLibrary}

theorem AddressLibrary.Documented.isPlain (hlib : lib.Documented) (a : Address) :
    ∀ c ∈ (lib.toChecksum a).toList, isPlain c = true := by
  obtain ⟨body, hbody, hspells⟩ := hlib.toChecksum a
  intro c hc
  rw [hbody, String.toList_append, List.mem_append] at hc
  cases hc with
  | inl hstart =>
      have hcases : c = '0' ∨ c = 'x' := by
        simpa using hstart
      obtain rfl | rfl := hcases <;> rfl
  | inr hdigit =>
      have hsome := hspells.isSome hdigit
      have hplain := isPlain_of_lt c.toNat (HexDigits.toNat_lt_of_value hsome)
      rw [Char.ofNat_toNat] at hplain
      exact hplain hsome

theorem parse_toJson (hlib : lib.Documented) (report : Report) :
    parse (report.toJson lib).toList = some (report.toObject lib) := by
  apply parse_of_spells
  rw [Report.toJson_toList]
  apply spells_object
  · apply List.Forall₂.cons
    · exact .of rfl (spells_string (hlib.isPlain report.address))
    apply List.Forall₂.cons
    · exact .of rfl (spells_bool report.held)
    apply List.Forall₂.cons
    · refine .of rfl ?_
      rw [report.toNat_asOfBlock]
      exact spells_small (max_lt report.usdt.block_lt report.usdc.block_lt)
    apply List.Forall₂.cons
    · exact .of rfl (spells_token rfl report.usdt)
    apply List.Forall₂.cons
    · exact .of rfl (spells_token rfl report.usdc)
    · exact .nil
  · simp

theorem parseAddress_toChecksum (hlib : lib.Documented) (a : Address) :
    parseAddress lib (lib.toChecksum a) = .ok a := by
  obtain ⟨body, hbody, hspells⟩ := hlib.toChecksum a
  rw [parseAddress_eq_ok_iff hlib, ← addressForm_iff]
  refine ⟨"0x", by simp [addressPrefixes], body, hbody, hspells, ?_⟩
  exact .inr (.inr hbody.symm)

theorem toDigits_injective {m n : ℕ}
    (h : Nat.toDigits 10 m = Nat.toDigits 10 n) : m = n := by
  have hread := congrArg (Nat.ofDigitChars 10 · 0) h
  simpa only [Nat.ofDigitChars_ten_toDigits] using hread

theorem tokenObject_injective {symbol : String} {token other : TokenBalance}
    (h : tokenObject symbol token = tokenObject symbol other) :
    token.raw = other.raw ∧ token.lastChangeBlock = other.lastChangeBlock := by
  simp only [tokenObject, Json.object.injEq, List.cons.injEq, Prod.mk.injEq,
    Json.string.injEq, Json.number.injEq, true_and, and_true, Nat.cast_inj]
    at h
  obtain ⟨-, hraw, hblock⟩ := h
  exact ⟨BitVec.eq_of_toNat_eq (toDigits_injective hraw),
    BitVec.eq_of_toNat_eq hblock⟩

/-- The page's `JSON.parse` gives back what the client wrote: the address in a
form that is read as that address, the balances to the last unit, and the
blocks.  Different answers have different texts. -/
theorem report_text_reads_back (hlib : lib.Documented) (report : Report) :
    parse (report.toJson lib).toList = some (report.toObject lib) ∧
    parseAddress lib (lib.toChecksum report.address) = .ok report.address ∧
    (∀ v, readNumber (formatUnits v).toList =
      some ((v.toNat : ℚ) / 10 ^ DECIMALS, [])) ∧
    ∀ other : Report, other.toJson lib = report.toJson lib →
      other.address = report.address ∧ other.held = report.held ∧
      other.usdt.raw = report.usdt.raw ∧
      other.usdt.lastChangeBlock = report.usdt.lastChangeBlock ∧
      other.usdc.raw = report.usdc.raw ∧
      other.usdc.lastChangeBlock = report.usdc.lastChangeBlock := by
  constructor
  · exact parse_toJson hlib report
  constructor
  · exact parseAddress_toChecksum hlib report.address
  constructor
  · exact readNumber_formatUnits
  · intro other htext
    have hother := parse_toJson hlib other
    rw [htext, parse_toJson hlib report] at hother
    have hobject := (Option.some.inj hother).symm
    simp only [Report.toObject, Json.object.injEq, List.cons.injEq,
      Prod.mk.injEq, Json.string.injEq, Json.bool.injEq, true_and, and_true,
      String.toList_inj] at hobject
    obtain ⟨haddress, hheld, -, husdt, husdc⟩ := hobject
    have hsame := parseAddress_toChecksum hlib other.address
    rw [haddress, parseAddress_toChecksum hlib] at hsame
    obtain ⟨hraw, hblock⟩ := tokenObject_injective husdt
    obtain ⟨hraw', hblock'⟩ := tokenObject_injective husdc
    exact ⟨(Except.ok.inj hsame).symm, hheld, hraw, hblock, hraw', hblock'⟩

end Reading

def sampleReport : Report :=
  .found sampleAddress ⟨1234567, 21000000, 2500000, 20999999⟩

theorem report_text_reads_back_sample :
    parse (sampleReport.toJson sampleLibrary).toList =
        some (sampleReport.toObject sampleLibrary) ∧
      formatUnits sampleReport.usdt.raw = "1.234567" := by
  constructor
  · exact (report_text_reads_back sampleLibrary_documented sampleReport).1
  · decide +kernel

end UsdtPir
