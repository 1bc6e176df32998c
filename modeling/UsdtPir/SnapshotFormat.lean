import UsdtPir.BalanceMap
import UsdtPir.LittleEndian
import UsdtPir.SyncProcess

/-!
# The snapshot format

`magic(8) | cursor(8) | count(8) | rows(60 each) | checksum(8)`, all integers
little-endian.  The checksum folds every row, then the cursor and the count.
Files of the older format have another magic and no checksum.  A map is read
back from what is written for it, in whatever order its rows come.
-/

namespace UsdtPir

/-- `USDTPIR3`. -/
def SNAPSHOT_MAGIC : List UInt8 :=
  [0x55, 0x53, 0x44, 0x54, 0x50, 0x49, 0x52, 0x33]

/-- `USDTPIR2`. -/
def LEGACY_MAGIC : List UInt8 :=
  [0x55, 0x53, 0x44, 0x54, 0x50, 0x49, 0x52, 0x32]

def ROW : ℕ := 60

/-! ## The checksum -/

/-- FNV-1a. -/
abbrev Digest := UInt64

def Digest.new : Digest :=
  0xcbf29ce484222325

def Digest.eat (digest : Digest) (bytes : List UInt8) : Digest :=
  bytes.foldl (fun h b => (h ^^^ b.toUInt64) * 0x100000001b3) digest

def Digest.seal (digest : Digest) (cursor count : ℕ) : Digest :=
  (digest.eat (LittleEndian.encode 8 cursor)).eat (LittleEndian.encode 8 count)

/-! ## Writing -/

def rowBytes (addr : Address) (e : Entry) : List UInt8 :=
  addr.bytes ++ LittleEndian.encode 16 e.usdt.toNat ++
    LittleEndian.encode 4 e.usdtBlock.toNat ++
    LittleEndian.encode 16 e.usdc.toNat ++
    LittleEndian.encode 4 e.usdcBlock.toNat

/-- The digest after the rows. -/
def rowsDigest (rows : List (Address × Entry)) : Digest :=
  rows.foldl (fun digest row => digest.eat (rowBytes row.1 row.2)) Digest.new

/-- What `write_snapshot_file` writes, piece by piece. -/
def snapshotPieces (cursor : ℕ) (rows : List (Address × Entry)) :
    List (List UInt8) :=
  [SNAPSHOT_MAGIC, LittleEndian.encode 8 cursor,
    LittleEndian.encode 8 rows.length] ++
    rows.map (fun row => rowBytes row.1 row.2) ++
    [LittleEndian.encode 8 ((rowsDigest rows).seal cursor rows.length).toNat]

/-! ## Reading -/

/-- Why a snapshot cannot be loaded, with what the message shows. -/
inductive LoadError
  | notFound
  | unexpectedEof
  | wrongMagic (magic : List UInt8)
  | noFooter
  | badChecksum (got want : Digest)
  deriving DecidableEq

/-- `read_exact` into an array, with what is left to read. -/
def readExact (n : ℕ) (f : List UInt8) :
    Except LoadError (FixedBytes n × List UInt8) :=
  if h : n ≤ f.length then
    .ok (⟨f.take n, List.length_take_of_le h⟩, f.drop n)
  else
    .error .unexpectedEof

/-- Whether the file carries a checksum footer. -/
def readMagic (f : List UInt8) : Except LoadError (Bool × List UInt8) := do
  let (magic, f) ← readExact 8 f
  if magic.bytes = SNAPSHOT_MAGIC then
    pure (true, f)
  else if magic.bytes = LEGACY_MAGIC then
    pure (false, f)
  else
    .error (.wrongMagic magic.bytes)

def readU64 (f : List UInt8) : Except LoadError (ℕ × List UInt8) := do
  let (buf, f) ← readExact 8 f
  pure (LittleEndian.decode buf.bytes, f)

def entryFromRow (row : FixedBytes ROW) : Entry where
  usdt := .ofNat 128 (LittleEndian.decode ((row.bytes.drop 20).take 16))
  usdtBlock := .ofNat 32 (LittleEndian.decode ((row.bytes.drop 36).take 4))
  usdc := .ofNat 128 (LittleEndian.decode ((row.bytes.drop 40).take 16))
  usdcBlock := .ofNat 32 (LittleEndian.decode ((row.bytes.drop 56).take 4))

/-- `Address::from_slice(&row[..20])`. -/
def addressFromRow (row : FixedBytes ROW) : Address :=
  ⟨row.bytes.take 20, by rw [List.length_take, row.length_eq]; rfl⟩

def readRow (f : List UInt8) (digest : Digest) :
    Except LoadError ((Address × Entry) × Digest × List UInt8) := do
  let (row, f) ← readExact ROW f
  pure ((addressFromRow row, entryFromRow row), digest.eat row.bytes, f)

/-- `read_rows`, from the rows read so far on. -/
def readRows : ℕ → HashMap Address Entry → Digest → List UInt8 →
    Except LoadError (HashMap Address Entry × Digest × List UInt8)
  | 0, inner, digest, f => .ok (inner, digest, f)
  | count + 1, inner, digest, f => do
      let ((addr, entry), digest, f) ← readRow f digest
      readRows count (inner.insert addr entry) digest f

def verifyChecksum (f : List UInt8) (cursor count : ℕ) (digest : Digest) :
    Except LoadError Unit :=
  match readExact 8 f with
  | .error _ => .error .noFooter
  | .ok (footer, _) =>
      let want := UInt64.ofNat (LittleEndian.decode footer.bytes)
      let got := digest.seal cursor count
      if want ≠ got then .error (.badChecksum got want) else .ok ()

/-- `BalanceMap::load` on the bytes of the file; what follows the footer is not
read. -/
def loadBytes (f : List UInt8) : Except LoadError BalanceMap := do
  let (checksummed, f) ← readMagic f
  let (cursor, f) ← readU64 f
  let (count, f) ← readU64 f
  let (inner, digest, f) ← readRows count ∅ Digest.new f
  if checksummed then
    verifyChecksum f cursor count digest
  pure ⟨inner, cursor⟩

/-! ## Reading what was written -/

/-- Two maps a reader cannot tell apart. -/
structure BalanceMap.Same (map map' : BalanceMap) : Prop where
  cursor : map.cursor = map'.cursor
  get : ∀ addr, map.get addr = map'.get addr

/-- The cursor and the number of entries are `u64`. -/
structure BalanceMap.Fits (map : BalanceMap) : Prop where
  cursor_lt : map.cursor < 2 ^ 64
  len_lt : map.len < 2 ^ 64

section RoundTrip

variable {cursor count : ℕ} {rows : List (Address × Entry)}
    {rest : List UInt8} {digest : Digest} {inner : HashMap Address Entry}

theorem readExact_append {n : ℕ} (bytes : FixedBytes n) :
    readExact n (bytes.bytes ++ rest) = .ok (bytes, rest) := by
  have hle : n ≤ (bytes.bytes ++ rest).length := by
    rw [List.length_append, bytes.length_eq]
    exact Nat.le_add_right n rest.length
  have htake : (bytes.bytes ++ rest).take n = bytes.bytes :=
    List.take_left' bytes.length_eq
  have hdrop : (bytes.bytes ++ rest).drop n = rest :=
    List.drop_left' bytes.length_eq
  unfold readExact
  rw [dif_pos hle]
  simp only [htake, hdrop]

theorem bind_ok {ε α β : Type} {x : Except ε α} {a : α} {f : α → Except ε β}
    (h : x = .ok a) : (x >>= f) = f a := by
  rw [h]
  rfl

theorem readMagic_snapshot :
    readMagic (SNAPSHOT_MAGIC ++ rest) = .ok (true, rest) := by
  have hmagic : readExact 8 (SNAPSHOT_MAGIC ++ rest) =
      .ok (⟨SNAPSHOT_MAGIC, rfl⟩, rest) :=
    readExact_append ⟨SNAPSHOT_MAGIC, rfl⟩
  unfold readMagic
  rw [hmagic]
  rfl

theorem readU64_encode {n : ℕ} (h : n < 2 ^ 64) :
    readU64 (LittleEndian.encode 8 n ++ rest) = .ok (n, rest) := by
  have hbytes : readExact 8 (LittleEndian.encode 8 n ++ rest) =
      .ok (⟨LittleEndian.encode 8 n, LittleEndian.length_encode 8 n⟩, rest) :=
    readExact_append ⟨LittleEndian.encode 8 n, LittleEndian.length_encode 8 n⟩
  have hdecode : LittleEndian.decode (LittleEndian.encode 8 n) = n :=
    LittleEndian.decode_encode h
  unfold readU64
  rw [hbytes]
  change Except.ok (LittleEndian.decode (LittleEndian.encode 8 n), rest) = _
  rw [hdecode]

theorem length_rowBytes (addr : Address) (e : Entry) :
    (rowBytes addr e).length = ROW := by
  simp [rowBytes, addr.length_eq, ROW]

theorem take_drop_field {row : List UInt8} {i n : ℕ}
    (before field after : List UInt8) (hrow : row = before ++ (field ++ after))
    (hi : before.length = i) (hn : field.length = n) :
    (row.drop i).take n = field := by
  rw [hrow, List.drop_left' hi, List.take_left' hn]

theorem readRow_rowBytes (addr : Address) (e : Entry) :
    readRow (rowBytes addr e ++ rest) digest =
      .ok ((addr, e), digest.eat (rowBytes addr e), rest) := by
  have hbytes : readExact ROW (rowBytes addr e ++ rest) =
      .ok (⟨rowBytes addr e, length_rowBytes addr e⟩, rest) :=
    readExact_append ⟨rowBytes addr e, length_rowBytes addr e⟩
  have haddr : addressFromRow ⟨rowBytes addr e, length_rowBytes addr e⟩ =
      addr := by
    apply FixedBytes.ext
    unfold addressFromRow rowBytes
    simp only [List.append_assoc]
    exact List.take_left' addr.length_eq
  have hentry : entryFromRow ⟨rowBytes addr e, length_rowBytes addr e⟩ = e := by
    let usdt := LittleEndian.encode 16 e.usdt.toNat
    let usdtBlock := LittleEndian.encode 4 e.usdtBlock.toNat
    let usdc := LittleEndian.encode 16 e.usdc.toNat
    let usdcBlock := LittleEndian.encode 4 e.usdcBlock.toNat
    have husdt : ((rowBytes addr e).drop 20).take 16 = usdt :=
      take_drop_field addr.bytes usdt (usdtBlock ++ (usdc ++ usdcBlock))
        (by simp [rowBytes, usdt, usdtBlock, usdc, usdcBlock])
        addr.length_eq (LittleEndian.length_encode _ _)
    have husdtBlock : ((rowBytes addr e).drop 36).take 4 = usdtBlock :=
      take_drop_field (addr.bytes ++ usdt) usdtBlock (usdc ++ usdcBlock)
        (by simp [rowBytes, usdt, usdtBlock, usdc, usdcBlock])
        (by simp [addr.length_eq, usdt]) (LittleEndian.length_encode _ _)
    have husdc : ((rowBytes addr e).drop 40).take 16 = usdc :=
      take_drop_field (addr.bytes ++ (usdt ++ usdtBlock)) usdc usdcBlock
        (by simp [rowBytes, usdt, usdtBlock, usdc, usdcBlock])
        (by simp [addr.length_eq, usdt, usdtBlock])
        (LittleEndian.length_encode _ _)
    have husdcBlock : ((rowBytes addr e).drop 56).take 4 = usdcBlock :=
      take_drop_field (addr.bytes ++ (usdt ++ (usdtBlock ++ usdc))) usdcBlock []
        (by simp [rowBytes, usdt, usdtBlock, usdc, usdcBlock])
        (by simp [addr.length_eq, usdt, usdtBlock, usdc])
        (LittleEndian.length_encode _ _)
    unfold entryFromRow
    simp only [husdt, husdtBlock, husdc, husdcBlock]
    apply Entry.ext
    · exact LittleEndian.ofNat_decode_encode e.usdt (by decide)
    · exact LittleEndian.ofNat_decode_encode e.usdtBlock (by decide)
    · exact LittleEndian.ofNat_decode_encode e.usdc (by decide)
    · exact LittleEndian.ofNat_decode_encode e.usdcBlock (by decide)
  unfold readRow
  rw [hbytes]
  change Except.ok ((addressFromRow _, entryFromRow _), _, rest) = _
  rw [haddr, hentry]

/-- The rows are read into the map one after the other, and folded into the
same digest that was written. -/
theorem readRows_append :
    readRows rows.length inner digest
        ((rows.map fun row => rowBytes row.1 row.2).flatten ++ rest) =
      .ok (rows.foldl (fun inner row => inner.insert row.1 row.2) inner,
        rows.foldl (fun digest row => digest.eat (rowBytes row.1 row.2)) digest,
        rest) := by
  induction rows generalizing inner digest with
  | nil => rfl
  | cons row rows ih =>
      rw [List.length_cons, readRows, List.map_cons, List.flatten_cons,
        List.append_assoc, readRow_rowBytes]
      exact ih

theorem verifyChecksum_seal :
    verifyChecksum (LittleEndian.encode 8 (digest.seal cursor count).toNat)
      cursor count digest = .ok () := by
  have hbytes : readExact 8
      (LittleEndian.encode 8 (digest.seal cursor count).toNat ++ []) =
      .ok (⟨LittleEndian.encode 8 (digest.seal cursor count).toNat,
        LittleEndian.length_encode 8 _⟩, []) :=
    readExact_append ⟨_, LittleEndian.length_encode 8 _⟩
  have hdecode : LittleEndian.decode
      (LittleEndian.encode 8 (digest.seal cursor count).toNat) =
      (digest.seal cursor count).toNat :=
    LittleEndian.decode_encode (digest.seal cursor count).toNat_lt
  rw [List.append_nil] at hbytes
  unfold verifyChecksum
  rw [hbytes]
  simp only [hdecode, UInt64.ofNat_toNat, ne_eq, not_true_eq_false, if_false]

theorem loadBytes_snapshotPieces (hcursor : cursor < 2 ^ 64)
    (hrows : rows.length < 2 ^ 64) :
    loadBytes (snapshotPieces cursor rows).flatten =
      .ok ⟨rows.foldl (fun inner row => inner.insert row.1 row.2) ∅, cursor⟩ := by
  have hfile : (snapshotPieces cursor rows).flatten =
      SNAPSHOT_MAGIC ++ (LittleEndian.encode 8 cursor ++
        (LittleEndian.encode 8 rows.length ++
          ((rows.map fun row => rowBytes row.1 row.2).flatten ++
            LittleEndian.encode 8
              ((rowsDigest rows).seal cursor rows.length).toNat))) := by
    simp [snapshotPieces]
  have hread : readRows rows.length ∅ Digest.new
      ((rows.map fun row => rowBytes row.1 row.2).flatten ++
        LittleEndian.encode 8
          ((rowsDigest rows).seal cursor rows.length).toNat) =
      .ok (rows.foldl (fun inner row => inner.insert row.1 row.2) ∅,
        rowsDigest rows, LittleEndian.encode 8
          ((rowsDigest rows).seal cursor rows.length).toNat) :=
    readRows_append
  have hverify : verifyChecksum (LittleEndian.encode 8
      ((rowsDigest rows).seal cursor rows.length).toNat) cursor rows.length
      (rowsDigest rows) = .ok () :=
    verifyChecksum_seal
  rw [hfile]
  unfold loadBytes
  refine (bind_ok readMagic_snapshot).trans ?_
  refine (bind_ok (readU64_encode hcursor)).trans ?_
  refine (bind_ok (readU64_encode hrows)).trans ?_
  refine (bind_ok hread).trans ?_
  exact bind_ok hverify

theorem lookup_foldl_insert_of_not_mem {addr : Address}
    (h : addr ∉ rows.map Prod.fst) :
    (rows.foldl (fun inner row => inner.insert row.1 row.2) inner).lookup addr =
      inner.lookup addr := by
  induction rows generalizing inner with
  | nil => rfl
  | cons row rows ih =>
      rw [List.map_cons, List.mem_cons, not_or] at h
      rw [List.foldl_cons, ih h.2]
      exact AList.lookup_insert_ne h.1

theorem lookup_foldl_insert_of_mem {addr : Address} {e : Entry}
    (hnodup : (rows.map Prod.fst).Nodup) (h : (addr, e) ∈ rows) :
    (rows.foldl (fun inner row => inner.insert row.1 row.2) inner).lookup addr =
      some e := by
  induction rows generalizing inner with
  | nil => cases h
  | cons row rows ih =>
      rw [List.map_cons, List.nodup_cons] at hnodup
      rw [List.foldl_cons]
      rcases List.mem_cons.mp h with heq | hrest
      · subst heq
        rw [lookup_foldl_insert_of_not_mem hnodup.1]
        exact AList.lookup_insert inner
      · exact ih hnodup.2 hrest

/-- Rows that list a map rebuild it. -/
theorem Listing.lookup_foldl_insert {m : HashMap Address Entry}
    (h : Listing m rows) (addr : Address) :
    (rows.foldl (fun inner row => inner.insert row.1 row.2)
      (∅ : HashMap Address Entry)).lookup addr = m.lookup addr := by
  cases hlookup : m.lookup addr with
  | none =>
      rw [lookup_foldl_insert_of_not_mem]
      · exact AList.lookup_empty addr
      · intro hmem
        rcases List.mem_map.mp hmem with ⟨row, hrow, rfl⟩
        rw [(h.mem_iff row.1 row.2).mp hrow] at hlookup
        cases hlookup
  | some e =>
      exact lookup_foldl_insert_of_mem h.nodup ((h.mem_iff addr e).mpr hlookup)

theorem Listing.length_eq {m : HashMap Address Entry} (h : Listing m rows) :
    rows.length = m.entries.length := by
  have hperm : (rows.map Prod.fst).Perm m.keys := by
    rw [List.perm_ext_iff_of_nodup h.nodup m.keys_nodup]
    intro addr
    exact (h.mem_keys addr).trans AList.mem_keys
  have hlength := hperm.length_eq
  rw [List.length_map] at hlength
  rw [hlength]
  simp [AList.keys, List.keys]

/-- A map is read back from its own snapshot. -/
theorem loadBytes_same {map : BalanceMap} (h : Listing map.inner rows)
    (hfits : map.Fits) :
    ∃ loaded, loadBytes (snapshotPieces map.cursor rows).flatten = .ok loaded ∧
      loaded.Same map := by
  have hrows : rows.length < 2 ^ 64 := by
    rw [h.length_eq]
    exact hfits.len_lt
  exact ⟨_, loadBytes_snapshotPieces hfits.cursor_lt hrows, rfl,
    h.lookup_foldl_insert⟩

end RoundTrip

end UsdtPir
