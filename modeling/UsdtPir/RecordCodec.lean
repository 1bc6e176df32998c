import UsdtPir.Slices
import UsdtPir.SnapshotFormat

/-!
# The record codec

A record is the address, which the library lays out, and a payload of
`usdt(16) | usdt_blk(4) | usdc(16) | usdc_blk(4) | spare(4)`, little-endian.
The record crate writes the payload and the snapshot writes its rows by offsets
of their own; the four fields come out as the same forty bytes.
-/

namespace UsdtPir

open Slices

/-- What eth-pir leaves of a 64-byte record. -/
def PAYLOAD_BYTES : ℕ := 44

/-- `buf[i..j].copy_from_slice(part)`, which panics unless the bounds are in
order and the lengths agree. -/
def FixedBytes.copyFrom {n : ℕ} (buf : FixedBytes n) (i j : ℕ)
    (part : List UInt8)
    (h : i ≤ j ∧ j ≤ n ∧ part.length = j - i) : FixedBytes n :=
  ⟨Slices.copyFrom i j part buf.bytes, by
    rw [length_copyFrom h.1 (buf.length_eq.symm ▸ h.2.1) h.2.2, buf.length_eq]⟩

namespace UsdtUsdc

def USDT : ℕ := 0
def USDT_BLOCK : ℕ := USDT + 16
def USDC : ℕ := USDT_BLOCK + 4
def USDC_BLOCK : ℕ := USDC + 16
def SPARE : ℕ := USDC_BLOCK + 4

def encode (e : Entry) : FixedBytes PAYLOAD_BYTES :=
  let p := FixedBytes.filled PAYLOAD_BYTES 0
  let p := p.copyFrom USDT USDT_BLOCK (LittleEndian.encode 16 e.usdt.toNat)
    ⟨by decide, by decide, LittleEndian.length_encode 16 _⟩
  let p := p.copyFrom USDT_BLOCK USDC
    (LittleEndian.encode 4 e.usdtBlock.toNat)
    ⟨by decide, by decide, LittleEndian.length_encode 4 _⟩
  let p := p.copyFrom USDC USDC_BLOCK (LittleEndian.encode 16 e.usdc.toNat)
    ⟨by decide, by decide, LittleEndian.length_encode 16 _⟩
  p.copyFrom USDC_BLOCK SPARE (LittleEndian.encode 4 e.usdcBlock.toNat)
    ⟨by decide, by decide, LittleEndian.length_encode 4 _⟩

def decode (p : FixedBytes PAYLOAD_BYTES) : Entry where
  usdt := .ofNat 128 (LittleEndian.decode (slice USDT USDT_BLOCK p.bytes))
  usdtBlock := .ofNat 32 (LittleEndian.decode (slice USDT_BLOCK USDC p.bytes))
  usdc := .ofNat 128 (LittleEndian.decode (slice USDC USDC_BLOCK p.bytes))
  usdcBlock := .ofNat 32 (LittleEndian.decode (slice USDC_BLOCK SPARE p.bytes))

end UsdtUsdc

/-- The array that `write_row` fills. -/
def writeRow (addr : Address) (e : Entry) : FixedBytes ROW :=
  let row := FixedBytes.filled ROW 0
  let row := row.copyFrom 0 20 addr.bytes
    ⟨by decide, by decide, addr.length_eq⟩
  let row := row.copyFrom 20 36 (LittleEndian.encode 16 e.usdt.toNat)
    ⟨by decide, by decide, LittleEndian.length_encode 16 _⟩
  let row := row.copyFrom 36 40 (LittleEndian.encode 4 e.usdtBlock.toNat)
    ⟨by decide, by decide, LittleEndian.length_encode 4 _⟩
  let row := row.copyFrom 40 56 (LittleEndian.encode 16 e.usdc.toNat)
    ⟨by decide, by decide, LittleEndian.length_encode 16 _⟩
  row.copyFrom 56 60 (LittleEndian.encode 4 e.usdcBlock.toNat)
    ⟨by decide, by decide, LittleEndian.length_encode 4 _⟩

/-! ## The fields -/

inductive Field
  | usdt
  | usdtBlock
  | usdc
  | usdcBlock
  deriving DecidableEq

namespace Field

def value : Field → Entry → ℕ
  | .usdt, e => e.usdt.toNat
  | .usdtBlock, e => e.usdtBlock.toNat
  | .usdc, e => e.usdc.toNat
  | .usdcBlock, e => e.usdcBlock.toNat

def width : Field → ℕ
  | .usdt | .usdc => 16
  | .usdtBlock | .usdcBlock => 4

/-- Where the bytes of a field begin, after what precedes the fields. -/
def start : Field → ℕ
  | .usdt => 0
  | .usdtBlock => 16
  | .usdc => 20
  | .usdcBlock => 36

def bytes (f : Field) (e : Entry) : List UInt8 :=
  LittleEndian.encode f.width (f.value e)

@[simp] theorem length_bytes (f : Field) (e : Entry) :
    (f.bytes e).length = f.width :=
  LittleEndian.length_encode f.width (f.value e)

/-- The fields before a field. -/
def before : Field → Entry → List UInt8
  | .usdt, _ => []
  | .usdtBlock, e => usdt.bytes e
  | .usdc, e => usdt.bytes e ++ usdtBlock.bytes e
  | .usdcBlock, e => usdt.bytes e ++ (usdtBlock.bytes e ++ usdc.bytes e)

def after : Field → Entry → List UInt8
  | .usdt, e => usdtBlock.bytes e ++ (usdc.bytes e ++ usdcBlock.bytes e)
  | .usdtBlock, e => usdc.bytes e ++ usdcBlock.bytes e
  | .usdc, e => usdcBlock.bytes e
  | .usdcBlock, _ => []

@[simp] theorem length_before (f : Field) (e : Entry) :
    (f.before e).length = f.start := by
  cases f <;> simp [before, start, width]

end Field

/-- The entries differ in one field at most. -/
def Entry.SameBut (f : Field) (e e' : Entry) : Prop :=
  ∀ g : Field, g ≠ f → g.value e = g.value e'

/-- The fields in the order of both layouts. -/
def fieldBytes (e : Entry) : List UInt8 :=
  Field.usdt.bytes e ++ (Field.usdtBlock.bytes e ++
    (Field.usdc.bytes e ++ Field.usdcBlock.bytes e))

section Layout

variable {e e' : Entry} {addr : Address} {f : Field} {n i j k m : ℕ}
    {buf : FixedBytes n} {part : List UInt8}

theorem Entry.SameBut.bytes_eq (h : e.SameBut f e') {g : Field} (hg : g ≠ f) :
    g.bytes e = g.bytes e' := by
  unfold Field.bytes
  rw [h g hg]

theorem fieldBytes_eq (f : Field) (e : Entry) :
    fieldBytes e = f.before e ++ (f.bytes e ++ f.after e) := by
  cases f <;> simp [fieldBytes, Field.before, Field.after]

theorem Entry.SameBut.before_eq (h : e.SameBut f e') :
    f.before e = f.before e' := by
  cases f with
  | usdt => rfl
  | usdtBlock =>
      simp only [Field.before]
      rw [h.bytes_eq (g := .usdt) (by decide)]
  | usdc =>
      simp only [Field.before]
      rw [h.bytes_eq (g := .usdt) (by decide),
        h.bytes_eq (g := .usdtBlock) (by decide)]
  | usdcBlock =>
      simp only [Field.before]
      rw [h.bytes_eq (g := .usdt) (by decide),
        h.bytes_eq (g := .usdtBlock) (by decide),
        h.bytes_eq (g := .usdc) (by decide)]

theorem Entry.SameBut.after_eq (h : e.SameBut f e') :
    f.after e = f.after e' := by
  cases f with
  | usdt =>
      simp only [Field.after]
      rw [h.bytes_eq (g := .usdtBlock) (by decide),
        h.bytes_eq (g := .usdc) (by decide),
        h.bytes_eq (g := .usdcBlock) (by decide)]
  | usdtBlock =>
      simp only [Field.after]
      rw [h.bytes_eq (g := .usdc) (by decide),
        h.bytes_eq (g := .usdcBlock) (by decide)]
  | usdc =>
      simp only [Field.after]
      rw [h.bytes_eq (g := .usdcBlock) (by decide)]
  | usdcBlock => rfl

theorem fields_split (before after : List UInt8) (f : Field) (e : Entry) :
    before ++ (fieldBytes e ++ after) =
      (before ++ f.before e) ++ (f.bytes e ++ (f.after e ++ after)) := by
  rw [fieldBytes_eq f e]
  simp only [List.append_assoc]

/-- Where the fields begin at `m`, a byte outside the field is the same. -/
theorem Entry.SameBut.getElem?_eq (h : e.SameBut f e')
    {before after : List UInt8} (hm : before.length = m)
    (hi : i < m + f.start ∨ m + f.start + f.width ≤ i) :
    (before ++ (fieldBytes e ++ after))[i]? =
      (before ++ (fieldBytes e' ++ after))[i]? := by
  rw [fields_split before after f e, fields_split before after f e',
    h.before_eq, h.after_eq]
  apply getElem?_append_middle
  · simp
  · simpa [hm] using hi

/-! ## Both layouts -/

theorem FixedBytes.take_copyFrom
    (h : i ≤ j ∧ j ≤ n ∧ part.length = j - i) :
    (buf.copyFrom i j part h).bytes.take j = buf.bytes.take i ++ part :=
  Slices.take_copyFrom h.1 (buf.length_eq.symm ▸ h.2.1) h.2.2

theorem FixedBytes.drop_copyFrom
    (h : i ≤ j ∧ j ≤ n ∧ part.length = j - i) (hk : j ≤ k) :
    (buf.copyFrom i j part h).bytes.drop k = buf.bytes.drop k :=
  Slices.drop_copyFrom h.1 (buf.length_eq.symm ▸ h.2.1) h.2.2 hk

theorem encode_take (e : Entry) :
    (UsdtUsdc.encode e).bytes.take UsdtUsdc.SPARE = fieldBytes e := by
  dsimp only [UsdtUsdc.encode]
  rw [FixedBytes.take_copyFrom, FixedBytes.take_copyFrom,
    FixedBytes.take_copyFrom, FixedBytes.take_copyFrom]
  simp [fieldBytes, Field.bytes, Field.width, Field.value, UsdtUsdc.USDT]

theorem encode_drop (e : Entry) :
    (UsdtUsdc.encode e).bytes.drop UsdtUsdc.SPARE = List.replicate 4 0 := by
  dsimp only [UsdtUsdc.encode]
  rw [FixedBytes.drop_copyFrom _ (by decide),
    FixedBytes.drop_copyFrom _ (by decide),
    FixedBytes.drop_copyFrom _ (by decide),
    FixedBytes.drop_copyFrom _ (by decide)]
  rfl

theorem encode_bytes (e : Entry) :
    (UsdtUsdc.encode e).bytes = fieldBytes e ++ List.replicate 4 0 := by
  rw [← encode_take e, ← encode_drop e]
  exact (List.take_append_drop UsdtUsdc.SPARE _).symm

theorem writeRow_bytes (addr : Address) (e : Entry) :
    (writeRow addr e).bytes = addr.bytes ++ fieldBytes e := by
  have htake : (writeRow addr e).bytes.take 60 =
      addr.bytes ++ fieldBytes e := by
    dsimp only [writeRow]
    rw [FixedBytes.take_copyFrom, FixedBytes.take_copyFrom,
      FixedBytes.take_copyFrom, FixedBytes.take_copyFrom,
      FixedBytes.take_copyFrom]
    simp [fieldBytes, Field.bytes, Field.width, Field.value]
  rw [← htake]
  exact (List.take_of_length_le (writeRow addr e).length_eq.le).symm

/-- The pieces a snapshot is written in are these rows. -/
theorem writeRow_rowBytes (addr : Address) (e : Entry) :
    (writeRow addr e).bytes = rowBytes addr e := by
  rw [writeRow_bytes]
  simp [rowBytes, fieldBytes, Field.bytes, Field.width, Field.value]

/-- A field of a buffer that holds the fields from `m` on. -/
theorem slice_fields {before after : List UInt8} (f : Field) (e : Entry)
    (hm : before.length = m) :
    slice (m + f.start) (m + f.start + f.width)
      (before ++ (fieldBytes e ++ after)) = f.bytes e := by
  rw [fields_split before after f e]
  apply slice_append_middle
  · simp [hm]
  · simp

theorem slice_encode (f : Field) (e : Entry) :
    slice f.start (f.start + f.width) (UsdtUsdc.encode e).bytes = f.bytes e := by
  have hslice : slice (0 + f.start) (0 + f.start + f.width)
      ([] ++ (fieldBytes e ++ List.replicate 4 0)) = f.bytes e :=
    slice_fields f e rfl
  simpa [encode_bytes] using hslice

theorem slice_writeRow (f : Field) (addr : Address) (e : Entry) :
    slice (20 + f.start) (20 + f.start + f.width) (writeRow addr e).bytes =
      f.bytes e := by
  have hslice : slice (20 + f.start) (20 + f.start + f.width)
      (addr.bytes ++ (fieldBytes e ++ [])) = f.bytes e :=
    slice_fields f e addr.length_eq
  simpa [writeRow_bytes] using hslice

/-! ## Round trips -/

theorem decode_encode (e : Entry) :
    UsdtUsdc.decode (UsdtUsdc.encode e) = e := by
  have husdt : slice UsdtUsdc.USDT UsdtUsdc.USDT_BLOCK
      (UsdtUsdc.encode e).bytes = Field.usdt.bytes e :=
    slice_encode .usdt e
  have husdtBlock : slice UsdtUsdc.USDT_BLOCK UsdtUsdc.USDC
      (UsdtUsdc.encode e).bytes = Field.usdtBlock.bytes e :=
    slice_encode .usdtBlock e
  have husdc : slice UsdtUsdc.USDC UsdtUsdc.USDC_BLOCK
      (UsdtUsdc.encode e).bytes = Field.usdc.bytes e :=
    slice_encode .usdc e
  have husdcBlock : slice UsdtUsdc.USDC_BLOCK UsdtUsdc.SPARE
      (UsdtUsdc.encode e).bytes = Field.usdcBlock.bytes e :=
    slice_encode .usdcBlock e
  unfold UsdtUsdc.decode
  rw [husdt, husdtBlock, husdc, husdcBlock]
  apply Entry.ext
  · exact LittleEndian.ofNat_decode_encode e.usdt (by decide)
  · exact LittleEndian.ofNat_decode_encode e.usdtBlock (by decide)
  · exact LittleEndian.ofNat_decode_encode e.usdc (by decide)
  · exact LittleEndian.ofNat_decode_encode e.usdcBlock (by decide)

theorem entryFromRow_writeRow (addr : Address) (e : Entry) :
    entryFromRow (writeRow addr e) = e := by
  have husdt : ((writeRow addr e).bytes.drop 20).take 16 =
      Field.usdt.bytes e :=
    slice_writeRow .usdt addr e
  have husdtBlock : ((writeRow addr e).bytes.drop 36).take 4 =
      Field.usdtBlock.bytes e :=
    slice_writeRow .usdtBlock addr e
  have husdc : ((writeRow addr e).bytes.drop 40).take 16 =
      Field.usdc.bytes e :=
    slice_writeRow .usdc addr e
  have husdcBlock : ((writeRow addr e).bytes.drop 56).take 4 =
      Field.usdcBlock.bytes e :=
    slice_writeRow .usdcBlock addr e
  unfold entryFromRow
  rw [husdt, husdtBlock, husdc, husdcBlock]
  apply Entry.ext
  · exact LittleEndian.ofNat_decode_encode e.usdt (by decide)
  · exact LittleEndian.ofNat_decode_encode e.usdtBlock (by decide)
  · exact LittleEndian.ofNat_decode_encode e.usdc (by decide)
  · exact LittleEndian.ofNat_decode_encode e.usdcBlock (by decide)

/-- A slice as wide as the machine integer is read without loss. -/
theorem encode_slice {w : ℕ} {bytes : List UInt8} (hj : j ≤ bytes.length)
    (hw : 8 * (j - i) ≤ w) :
    LittleEndian.encode (j - i)
        (BitVec.ofNat w (LittleEndian.decode (slice i j bytes))).toNat =
      slice i j bytes := by
  have hlength : (slice i j bytes).length = j - i := length_slice hj
  have hencode : LittleEndian.encode (slice i j bytes).length
      (BitVec.ofNat w (LittleEndian.decode (slice i j bytes))).toNat =
      slice i j bytes :=
    LittleEndian.encode_toNat_ofNat (by rw [hlength]; exact hw)
  rwa [hlength] at hencode

theorem fieldBytes_decode (p : FixedBytes PAYLOAD_BYTES) :
    fieldBytes (UsdtUsdc.decode p) = p.bytes.take UsdtUsdc.SPARE := by
  have hlength : p.bytes.length = 44 := p.length_eq
  have husdt : Field.usdt.bytes (UsdtUsdc.decode p) = slice 0 16 p.bytes :=
    encode_slice (i := 0) (j := 16) (w := 128) (by omega) (by decide)
  have husdtBlock : Field.usdtBlock.bytes (UsdtUsdc.decode p) =
      slice 16 20 p.bytes :=
    encode_slice (i := 16) (j := 20) (w := 32) (by omega) (by decide)
  have husdc : Field.usdc.bytes (UsdtUsdc.decode p) = slice 20 36 p.bytes :=
    encode_slice (i := 20) (j := 36) (w := 128) (by omega) (by decide)
  have husdcBlock : Field.usdcBlock.bytes (UsdtUsdc.decode p) =
      slice 36 40 p.bytes :=
    encode_slice (i := 36) (j := 40) (w := 32) (by omega) (by decide)
  unfold fieldBytes
  rw [husdt, husdtBlock, husdc, husdcBlock,
    slice_append (by decide) (by decide),
    slice_append (by decide) (by decide),
    slice_append (by decide) (by decide), slice_zero]
  rfl

theorem encode_decode_iff (p : FixedBytes PAYLOAD_BYTES) :
    UsdtUsdc.encode (UsdtUsdc.decode p) = p ↔
      p.bytes.drop UsdtUsdc.SPARE = List.replicate 4 0 := by
  constructor
  · intro h
    rw [← h]
    exact encode_drop (UsdtUsdc.decode p)
  · intro h
    apply FixedBytes.ext
    calc
      (UsdtUsdc.encode (UsdtUsdc.decode p)).bytes =
          p.bytes.take UsdtUsdc.SPARE ++ List.replicate 4 0 := by
        rw [encode_bytes, fieldBytes_decode]
      _ = p.bytes := by
        rw [← h]
        exact List.take_append_drop UsdtUsdc.SPARE p.bytes

end Layout

/-- The codec reads what it writes and writes what it reads, up to the spare
bytes; a snapshot row is the address and the same forty bytes; and in both
layouts a field has bytes of its own. -/
theorem record_and_row_one_layout :
    (∀ e, UsdtUsdc.decode (UsdtUsdc.encode e) = e) ∧
    (∀ p, UsdtUsdc.encode (UsdtUsdc.decode p) = p ↔
      p.bytes.drop UsdtUsdc.SPARE = List.replicate 4 0) ∧
    (∀ addr e, (writeRow addr e).bytes =
        addr.bytes ++ (UsdtUsdc.encode e).bytes.take UsdtUsdc.SPARE ∧
      entryFromRow (writeRow addr e) = e) ∧
    ∀ (f : Field) (e e' : Entry), e.SameBut f e' →
      (∀ i, i < f.start ∨ f.start + f.width ≤ i →
        (UsdtUsdc.encode e).bytes[i]? = (UsdtUsdc.encode e').bytes[i]?) ∧
      ∀ addr i, i < 20 + f.start ∨ 20 + f.start + f.width ≤ i →
        (writeRow addr e).bytes[i]? = (writeRow addr e').bytes[i]? := by
  constructor
  · exact decode_encode
  constructor
  · exact encode_decode_iff
  constructor
  · intro addr e
    constructor
    · rw [writeRow_bytes, encode_take]
    · exact entryFromRow_writeRow addr e
  · intro f e e' hsame
    constructor
    · intro i hi
      have hbytes : ([] ++ (fieldBytes e ++ List.replicate 4 0))[i]? =
          ([] ++ (fieldBytes e' ++ List.replicate 4 0))[i]? :=
        hsame.getElem?_eq rfl (by simpa using hi)
      simpa [encode_bytes] using hbytes
    · intro addr i hi
      have hbytes : (addr.bytes ++ (fieldBytes e ++ []))[i]? =
          (addr.bytes ++ (fieldBytes e' ++ []))[i]? :=
        hsame.getElem?_eq addr.length_eq hi
      simpa [writeRow_bytes] using hbytes

end UsdtPir
