import UsdtPir.SnapshotFormat

/-!
# Snapshots that were torn or altered

A file is read piece by piece, so one that ends early misses a piece.  Every
step of the checksum is injective in the digest and in the byte, so one byte
that differs changes the digest, however many follow it.
-/

/-! ## Folds that one element decides -/

namespace InjectiveFold

universe u v

variable {α : Type u} {β : Type v} {step : α → β → α}

theorem foldl_injective (hstate : ∀ b, Function.Injective (step · b))
    (l : List β) : Function.Injective fun a => l.foldl step a := by
  induction l with
  | nil => exact fun _ _ h => h
  | cons b rest ih =>
      intro a a' h
      exact hstate b (ih h)

/-- A fold tells lists apart that differ in one element. -/
theorem foldl_set_ne (hstate : ∀ b, Function.Injective (step · b))
    (helement : ∀ a, Function.Injective (step a)) {l : List β} {i : ℕ}
    {old b : β} (a : α) (hold : l[i]? = some old) (hne : old ≠ b) :
    (l.set i b).foldl step a ≠ l.foldl step a := by
  induction l generalizing i a with
  | nil => cases hold
  | cons first rest ih =>
      cases i with
      | zero =>
          intro h
          have hstep : step a b = step a first := foldl_injective hstate rest h
          cases hold
          exact hne (helement a hstep).symm
      | succ i =>
          exact ih (step a first) hold

end InjectiveFold

namespace UsdtPir

/-! ## The digest -/

namespace Digest

/-- The multiplier is odd. -/
theorem mul_injective :
    Function.Injective fun h : UInt64 => h * 0x100000001b3 := by
  have hinverse : (0x100000001b3 : UInt64) * 0xce965057aff6957b = 1 := by
    decide
  intro a b h
  have hcancel := congrArg (· * (0xce965057aff6957b : UInt64)) h
  simpa only [UInt64.mul_assoc, hinverse, UInt64.mul_one] using hcancel

theorem step_injective (b : UInt8) :
    Function.Injective fun h : Digest => (h ^^^ b.toUInt64) * 0x100000001b3 := by
  intro a a' h
  exact (UInt64.xor_left_inj _).mp (mul_injective h)

theorem byte_injective (h : Digest) :
    Function.Injective fun b : UInt8 => (h ^^^ b.toUInt64) * 0x100000001b3 := by
  intro b b' heq
  exact UInt8.toUInt64_inj.mp ((UInt64.xor_right_inj _).mp (mul_injective heq))

theorem eat_append (digest : Digest) (bytes bytes' : List UInt8) :
    digest.eat (bytes ++ bytes') = (digest.eat bytes).eat bytes' :=
  List.foldl_append

theorem eat_set_ne (digest : Digest) {bytes : List UInt8} {i : ℕ}
    {old b : UInt8} (hold : bytes[i]? = some old) (hne : old ≠ b) :
    digest.eat (bytes.set i b) ≠ digest.eat bytes :=
  InjectiveFold.foldl_set_ne step_injective byte_injective digest hold hne

end Digest

/-! ## Reading any bytes -/

section Reading

variable {f rest body cursor count footer : List UInt8} {n : ℕ}
    {digest : Digest} {inner : HashMap Address Entry}

theorem readExact_short (h : f.length < n) :
    readExact n f = .error .unexpectedEof := by
  unfold readExact
  rw [dif_neg (Nat.not_le_of_lt h)]

theorem bind_error {ε α β : Type} {x : Except ε α} {e : ε} {g : α → Except ε β}
    (h : x = .error e) : (x >>= g) = .error e := by
  rw [h]
  rfl

theorem readU64_append (h : f.length = 8) :
    readU64 (f ++ rest) = .ok (LittleEndian.decode f, rest) := by
  have hbytes : readExact 8 (f ++ rest) = .ok (⟨f, h⟩, rest) :=
    readExact_append ⟨f, h⟩
  unfold readU64
  rw [hbytes]
  rfl

theorem readU64_short (h : f.length < 8) :
    readU64 f = .error .unexpectedEof := by
  unfold readU64
  exact bind_error (readExact_short h)

theorem readMagic_short (h : f.length < 8) :
    readMagic f = .error .unexpectedEof := by
  unfold readMagic
  exact bind_error (readExact_short h)

/-- Any rows are read, and folded into the digest byte by byte. -/
theorem readRows_body (h : body.length = ROW * n) :
    ∃ inner', readRows n inner digest (body ++ rest) =
      .ok (inner', digest.eat body, rest) := by
  induction n generalizing body inner digest with
  | zero =>
      have hnil : body = [] := List.length_eq_zero_iff.mp (by omega)
      subst hnil
      exact ⟨inner, rfl⟩
  | succ n ih =>
      have hle : ROW ≤ body.length := by
        rw [h, Nat.mul_succ]
        exact Nat.le_add_left _ _
      have hrow : (body.take ROW).length = ROW := List.length_take_of_le hle
      have hlater : (body.drop ROW).length = ROW * n := by
        rw [List.length_drop, h, Nat.mul_succ, Nat.add_sub_cancel]
      have hread : readExact ROW (body.take ROW ++ (body.drop ROW ++ rest)) =
          .ok (⟨body.take ROW, hrow⟩, body.drop ROW ++ rest) :=
        readExact_append ⟨body.take ROW, hrow⟩
      rw [← List.append_assoc, List.take_append_drop] at hread
      have heat : digest.eat body =
          (digest.eat (body.take ROW)).eat (body.drop ROW) := by
        rw [← Digest.eat_append, List.take_append_drop]
      rw [heat, readRows]
      unfold readRow
      rw [hread]
      exact ih hlater

theorem readRows_short (h : f.length < ROW * n) :
    readRows n inner digest f = .error .unexpectedEof := by
  induction n generalizing f inner digest with
  | zero => exact absurd h (Nat.not_lt_zero _)
  | succ n ih =>
      rw [readRows]
      by_cases hle : ROW ≤ f.length
      · have hread : readExact ROW f =
            .ok (⟨f.take ROW, List.length_take_of_le hle⟩, f.drop ROW) := by
          unfold readExact
          rw [dif_pos hle]
        have hlater : (f.drop ROW).length < ROW * n := by
          rw [List.length_drop]
          rw [Nat.mul_succ] at h
          omega
        unfold readRow
        rw [hread]
        exact ih hlater
      · have hrow : readRow f digest = .error .unexpectedEof := by
          unfold readRow
          exact bind_error (readExact_short (Nat.lt_of_not_le hle))
        exact bind_error hrow

/-- The seal folds the bytes of the header. -/
theorem Digest.seal_decode (hcursor : cursor.length = 8)
    (hcount : count.length = 8) :
    digest.seal (LittleEndian.decode cursor) (LittleEndian.decode count) =
      digest.eat (cursor ++ count) := by
  have hcursor' := LittleEndian.encode_decode cursor
  have hcount' := LittleEndian.encode_decode count
  rw [hcursor] at hcursor'
  rw [hcount] at hcount'
  rw [Digest.seal, hcursor', hcount', Digest.eat_append]

/-- A file of the current format, in its parts. -/
def snapshotOf (cursor count body footer : List UInt8) : List UInt8 :=
  SNAPSHOT_MAGIC ++ (cursor ++ (count ++ (body ++ footer)))

/-- The footer is compared with the digest of the rows and the header. -/
theorem loadBytes_mismatch (hcursor : cursor.length = 8)
    (hcount : count.length = 8)
    (hbody : body.length = ROW * LittleEndian.decode count)
    (hfooter : footer.length = 8)
    (hne : UInt64.ofNat (LittleEndian.decode footer) ≠
      Digest.new.eat (body ++ (cursor ++ count))) :
    ∃ e, loadBytes (snapshotOf cursor count body footer) = .error e := by
  have hrows : ∃ inner, readRows (LittleEndian.decode count) ∅ Digest.new
      (body ++ footer) = .ok (inner, Digest.new.eat body, footer) :=
    readRows_body hbody
  rcases hrows with ⟨inner, hrows⟩
  have hread : readExact 8 (footer ++ []) = .ok (⟨footer, hfooter⟩, []) :=
    readExact_append ⟨footer, hfooter⟩
  rw [List.append_nil] at hread
  have hverify : verifyChecksum footer (LittleEndian.decode cursor)
      (LittleEndian.decode count) (Digest.new.eat body) =
        .error (.badChecksum (Digest.new.eat (body ++ (cursor ++ count)))
          (UInt64.ofNat (LittleEndian.decode footer))) := by
    unfold verifyChecksum
    rw [hread]
    simp only
    rw [Digest.seal_decode hcursor hcount, ← Digest.eat_append, if_pos hne]
  refine ⟨.badChecksum (Digest.new.eat (body ++ (cursor ++ count)))
    (UInt64.ofNat (LittleEndian.decode footer)), ?_⟩
  unfold loadBytes snapshotOf
  refine (bind_ok readMagic_snapshot).trans ?_
  refine (bind_ok (readU64_append hcursor)).trans ?_
  refine (bind_ok (readU64_append hcount)).trans ?_
  refine (bind_ok hrows).trans ?_
  exact bind_error hverify

theorem take_append_add {part : List UInt8} (hpart : part.length = n) (m : ℕ) :
    (part ++ rest).take (n + m) = part ++ rest.take m := by
  rw [List.take_append, List.take_of_length_le (by omega), hpart,
    Nat.add_sub_cancel_left]

theorem getElem?_append_add {part : List UInt8} (hpart : part.length = n)
    (m : ℕ) : (part ++ rest)[n + m]? = rest[m]? := by
  rw [List.getElem?_append_right (by omega), hpart, Nat.add_sub_cancel_left]

theorem set_append_add {part : List UInt8} (hpart : part.length = n) (m : ℕ)
    (b : UInt8) : (part ++ rest).set (n + m) b = part ++ rest.set m b := by
  rw [List.set_append_right _ _ (by omega), hpart, Nat.add_sub_cancel_left]

/-- A file cut inside its next part. -/
theorem length_take_lt {m : ℕ} (hm : m < n) : (f.take m).length < n :=
  Nat.lt_of_le_of_lt (List.length_take_le m f) hm

theorem verifyChecksum_short {c k : ℕ} (h : f.length < 8) :
    verifyChecksum f c k digest = .error .noFooter := by
  unfold verifyChecksum
  rw [readExact_short h]

/-- A file that ends before its footer does is missing a part. -/
theorem loadBytes_short (hcursor : cursor.length = 8)
    (hcount : count.length = 8)
    (hbody : body.length = ROW * LittleEndian.decode count)
    (hfooter : footer.length = 8)
    (hn : n < (snapshotOf cursor count body footer).length) :
    ∃ e, loadBytes ((snapshotOf cursor count body footer).take n) =
      .error e := by
  have hmagic : SNAPSHOT_MAGIC.length = 8 := rfl
  unfold snapshotOf at hn ⊢
  simp only [List.length_append, hmagic, hcursor, hcount, hfooter] at hn
  unfold loadBytes
  rcases Nat.lt_or_ge n 8 with hcut | hle
  · exact ⟨_, bind_error (readMagic_short (length_take_lt hcut))⟩
  rcases Nat.exists_eq_add_of_le hle with ⟨a, rfl⟩
  rw [take_append_add hmagic, bind_ok readMagic_snapshot]
  rcases Nat.lt_or_ge a 8 with hcut | hle
  · exact ⟨_, bind_error (readU64_short (length_take_lt hcut))⟩
  rcases Nat.exists_eq_add_of_le hle with ⟨b, rfl⟩
  rw [take_append_add hcursor]
  dsimp only
  rw [bind_ok (readU64_append hcursor)]
  rcases Nat.lt_or_ge b 8 with hcut | hle
  · exact ⟨_, bind_error (readU64_short (length_take_lt hcut))⟩
  rcases Nat.exists_eq_add_of_le hle with ⟨c, rfl⟩
  rw [take_append_add hcount]
  dsimp only
  rw [bind_ok (readU64_append hcount)]
  rcases Nat.lt_or_ge c (ROW * LittleEndian.decode count) with hcut | hle
  · exact ⟨_, bind_error (readRows_short (length_take_lt hcut))⟩
  rcases Nat.exists_eq_add_of_le hle with ⟨d, rfl⟩
  have hrows : ∃ inner, readRows (LittleEndian.decode count) ∅ Digest.new
      (body ++ footer.take d) =
        .ok (inner, Digest.new.eat body, footer.take d) :=
    readRows_body hbody
  rcases hrows with ⟨inner, hrows⟩
  have hcut : d < 8 := by omega
  rw [take_append_add hbody]
  dsimp only
  rw [bind_ok hrows]
  exact ⟨_, bind_error (verifyChecksum_short (length_take_lt hcut))⟩

/-- Integers of eight bytes are told apart. -/
theorem ofNat_decode_injective {bytes bytes' : List UInt8}
    (hbytes : bytes.length = 8) (hbytes' : bytes'.length = 8)
    (h : UInt64.ofNat (LittleEndian.decode bytes) =
      UInt64.ofNat (LittleEndian.decode bytes')) : bytes = bytes' := by
  have hlt := LittleEndian.decode_lt bytes
  have hlt' := LittleEndian.decode_lt bytes'
  have hencode := LittleEndian.encode_decode bytes
  have hencode' := LittleEndian.encode_decode bytes'
  rw [hbytes] at hlt hencode
  rw [hbytes'] at hlt' hencode'
  have hdecode : LittleEndian.decode bytes = LittleEndian.decode bytes' := by
    have hnat := congrArg UInt64.toNat h
    rwa [UInt64.toNat_ofNat_of_lt' hlt, UInt64.toNat_ofNat_of_lt' hlt'] at hnat
  rw [← hencode, hdecode, hencode']

/-- One byte of the cursor, of a row or of the footer gives a file away. -/
theorem loadBytes_altered {i : ℕ} {old b : UInt8} (hcursor : cursor.length = 8)
    (hcount : count.length = 8)
    (hbody : body.length = ROW * LittleEndian.decode count)
    (hfooter : footer.length = 8)
    (hsealed : UInt64.ofNat (LittleEndian.decode footer) =
      Digest.new.eat (body ++ (cursor ++ count)))
    (hold : (snapshotOf cursor count body footer)[i]? = some old)
    (hne : old ≠ b) (hfield : 8 ≤ i ∧ i < 16 ∨ 24 ≤ i) :
    ∃ e, loadBytes ((snapshotOf cursor count body footer).set i b) =
      .error e := by
  have hmagic : SNAPSHOT_MAGIC.length = 8 := rfl
  unfold snapshotOf at hold ⊢
  have hle : 8 ≤ i := by omega
  rcases Nat.exists_eq_add_of_le hle with ⟨j, rfl⟩
  rw [getElem?_append_add hmagic] at hold
  rw [set_append_add hmagic]
  rcases Nat.lt_or_ge j 8 with hj | hle
  · -- In the cursor, which is folded after the rows.
    rw [List.getElem?_append_left (hcursor ▸ hj)] at hold
    rw [List.set_append_left _ _ (hcursor ▸ hj)]
    apply loadBytes_mismatch ((List.length_set).trans hcursor) hcount hbody
      hfooter
    rw [hsealed]
    intro h
    have hpayload : (body ++ (cursor ++ count))[body.length + j]? = some old := by
      rw [getElem?_append_add rfl, List.getElem?_append_left (hcursor ▸ hj)]
      exact hold
    apply Digest.eat_set_ne Digest.new hpayload hne
    rw [set_append_add rfl, List.set_append_left _ _ (hcursor ▸ hj)]
    exact h.symm
  rcases Nat.exists_eq_add_of_le hle with ⟨k, rfl⟩
  have hle : 8 ≤ k := by omega
  rcases Nat.exists_eq_add_of_le hle with ⟨l, rfl⟩
  rw [getElem?_append_add hcursor, getElem?_append_add hcount] at hold
  rw [set_append_add hcursor, set_append_add hcount]
  rcases Nat.lt_or_ge l body.length with hl | hle
  · -- In a row.
    rw [List.getElem?_append_left hl] at hold
    rw [List.set_append_left _ _ hl]
    apply loadBytes_mismatch hcursor hcount ((List.length_set).trans hbody)
      hfooter
    rw [hsealed]
    intro h
    have hpayload : (body ++ (cursor ++ count))[l]? = some old := by
      rw [List.getElem?_append_left hl]
      exact hold
    apply Digest.eat_set_ne Digest.new hpayload hne
    rw [List.set_append_left _ _ hl]
    exact h.symm
  · -- In the footer itself.
    rcases Nat.exists_eq_add_of_le hle with ⟨m, rfl⟩
    rw [getElem?_append_add rfl] at hold
    rw [set_append_add rfl]
    have hset : (footer.set m b).length = 8 := (List.length_set).trans hfooter
    apply loadBytes_mismatch hcursor hcount hbody hset
    rw [← hsealed]
    intro h
    have hsame := ofNat_decode_injective hset hfooter h
    have hm : m < footer.length := by
      by_contra hge
      rw [List.getElem?_eq_none (Nat.le_of_not_lt hge)] at hold
      cases hold
    have hb : (footer.set m b)[m]? = some b := List.getElem?_set_self hm
    rw [hsame, hold] at hb
    exact hne (Option.some.inj hb)

end Reading

/-! ## The older format -/

/-- What was written before there was a checksum. -/
def legacyPieces (cursor : ℕ) (rows : List (Address × Entry)) :
    List (List UInt8) :=
  [LEGACY_MAGIC, LittleEndian.encode 8 cursor,
    LittleEndian.encode 8 rows.length] ++
    rows.map (fun row => rowBytes row.1 row.2)

section Snapshots

variable {map : BalanceMap} {rows : List (Address × Entry)} {cursor : ℕ}

theorem readMagic_legacy {rest : List UInt8} :
    readMagic (LEGACY_MAGIC ++ rest) = .ok (false, rest) := by
  have hmagic : readExact 8 (LEGACY_MAGIC ++ rest) =
      .ok (⟨LEGACY_MAGIC, rfl⟩, rest) :=
    readExact_append ⟨LEGACY_MAGIC, rfl⟩
  unfold readMagic
  rw [hmagic]
  rfl

theorem loadBytes_legacyPieces (hcursor : cursor < 2 ^ 64)
    (hrows : rows.length < 2 ^ 64) :
    loadBytes (legacyPieces cursor rows).flatten =
      .ok ⟨rows.foldl (fun inner row => inner.insert row.1 row.2) ∅, cursor⟩ := by
  have hfile : (legacyPieces cursor rows).flatten =
      LEGACY_MAGIC ++ (LittleEndian.encode 8 cursor ++
        (LittleEndian.encode 8 rows.length ++
          ((rows.map fun row => rowBytes row.1 row.2).flatten ++ []))) := by
    simp [legacyPieces]
  have hread : readRows rows.length ∅ Digest.new
      ((rows.map fun row => rowBytes row.1 row.2).flatten ++ []) =
      .ok (rows.foldl (fun inner row => inner.insert row.1 row.2) ∅,
        rowsDigest rows, []) :=
    readRows_append
  rw [hfile]
  unfold loadBytes
  refine (bind_ok readMagic_legacy).trans ?_
  refine (bind_ok (readU64_encode hcursor)).trans ?_
  refine (bind_ok (readU64_encode hrows)).trans ?_
  exact bind_ok hread

theorem BalanceMap.Same.len_eq {map' : BalanceMap} (h : map.Same map') :
    map.len = map'.len := by
  have hkeys : ∀ addr, addr ∈ map.inner.keys ↔ addr ∈ map'.inner.keys := by
    intro addr
    rw [← AList.mem_keys, ← AList.mem_keys, ← AList.lookup_isSome,
      ← AList.lookup_isSome]
    exact iff_of_eq (congrArg (·.isSome = true) (h.get addr))
  have hperm : map.inner.keys.Perm map'.inner.keys := by
    rw [List.perm_ext_iff_of_nodup map.inner.keys_nodup map'.inner.keys_nodup]
    exact hkeys
  have hlength := hperm.length_eq
  simpa [AList.keys, List.keys, BalanceMap.len] using hlength

theorem BalanceMap.Same.fits {map' : BalanceMap} (h : map.Same map')
    (hfits : map'.Fits) : map.Fits where
  cursor_lt := h.cursor ▸ hfits.cursor_lt
  len_lt := h.len_eq ▸ hfits.len_lt

/-- Loading undoes saving, whichever order the rows come in, from the older
format too. -/
theorem load_undoes_save (hrows : Listing map.inner rows) (hfits : map.Fits) :
    ∃ loaded,
      loadBytes (snapshotPieces map.cursor rows).flatten = .ok loaded ∧
      loaded.Same map ∧
      loadBytes (legacyPieces map.cursor rows).flatten = .ok loaded ∧
      ∀ rows', Listing loaded.inner rows' → ∃ again,
        loadBytes (snapshotPieces loaded.cursor rows').flatten = .ok again ∧
          again.Same loaded := by
  have hcount : rows.length < 2 ^ 64 := by
    rw [hrows.length_eq]
    exact hfits.len_lt
  rcases loadBytes_same hrows hfits with ⟨loaded, hload, hsame⟩
  refine ⟨loaded, hload, hsame, ?_, ?_⟩
  · rw [loadBytes_legacyPieces hfits.cursor_lt hcount, ← hload,
      loadBytes_snapshotPieces hfits.cursor_lt hcount]
  · intro rows' hrows'
    exact loadBytes_same hrows' (hsame.fits hfits)

theorem flatten_snapshotPieces :
    (snapshotPieces cursor rows).flatten =
      snapshotOf (LittleEndian.encode 8 cursor)
        (LittleEndian.encode 8 rows.length)
        (rows.map fun row => rowBytes row.1 row.2).flatten
        (LittleEndian.encode 8
          ((rowsDigest rows).seal cursor rows.length).toNat) := by
  simp [snapshotPieces, snapshotOf]

theorem length_flatten_rows :
    (rows.map fun row => rowBytes row.1 row.2).flatten.length =
      ROW * rows.length := by
  induction rows with
  | nil => rfl
  | cons row rows ih =>
      rw [List.map_cons, List.flatten_cons, List.length_append, ih,
        length_rowBytes, List.length_cons, Nat.mul_succ, Nat.add_comm]

theorem eat_flatten_rows {digest : Digest} :
    digest.eat (rows.map fun row => rowBytes row.1 row.2).flatten =
      rows.foldl (fun digest row => digest.eat (rowBytes row.1 row.2))
        digest := by
  induction rows generalizing digest with
  | nil => rfl
  | cons row rows ih =>
      rw [List.map_cons, List.flatten_cons, Digest.eat_append, ih,
        List.foldl_cons]

/-- A snapshot that was torn, or altered in one byte other than those of the
magic and the count, is refused. -/
theorem load_refuses_damage (hrows : Listing map.inner rows)
    (hfits : map.Fits) :
    (∀ n < (snapshotPieces map.cursor rows).flatten.length,
      ∃ e, loadBytes ((snapshotPieces map.cursor rows).flatten.take n) =
        .error e) ∧
    ∀ (i : ℕ) (old b : UInt8),
      (snapshotPieces map.cursor rows).flatten[i]? = some old → old ≠ b →
      (8 ≤ i ∧ i < 16 ∨ 24 ≤ i) →
        ∃ e, loadBytes ((snapshotPieces map.cursor rows).flatten.set i b) =
          .error e := by
  have hcount : LittleEndian.decode (LittleEndian.encode 8 rows.length) =
      rows.length := by
    apply LittleEndian.decode_encode
    rw [hrows.length_eq]
    exact hfits.len_lt
  have hbody : (rows.map fun row => rowBytes row.1 row.2).flatten.length =
      ROW * LittleEndian.decode (LittleEndian.encode 8 rows.length) := by
    rw [hcount, length_flatten_rows]
  have hsealed : UInt64.ofNat (LittleEndian.decode (LittleEndian.encode 8
      ((rowsDigest rows).seal map.cursor rows.length).toNat)) =
      Digest.new.eat ((rows.map fun row => rowBytes row.1 row.2).flatten ++
        (LittleEndian.encode 8 map.cursor ++
          LittleEndian.encode 8 rows.length)) := by
    rw [LittleEndian.decode_encode (UInt64.toNat_lt _), UInt64.ofNat_toNat,
      Digest.eat_append, Digest.eat_append, eat_flatten_rows]
    rfl
  rw [flatten_snapshotPieces]
  constructor
  · intro n hn
    exact loadBytes_short (LittleEndian.length_encode 8 _)
      (LittleEndian.length_encode 8 _) hbody (LittleEndian.length_encode 8 _) hn
  · intro i old b hold hne hfield
    exact loadBytes_altered (LittleEndian.length_encode 8 _)
      (LittleEndian.length_encode 8 _) hbody (LittleEndian.length_encode 8 _)
      hsealed hold hne hfield

end Snapshots

/-! ## One holder -/

namespace OneHolder

def entry : Entry :=
  ⟨300, 12, 0, 0⟩

def map : BalanceMap :=
  ⟨(∅ : HashMap Address Entry).insert .zero entry, 25⟩

theorem listing_entry : Listing map.inner [(.zero, entry)] :=
  listing_of_perm (List.Perm.refl map.inner.keys)

theorem load_undoes_save_entry :
    ∃ loaded,
      loadBytes (snapshotPieces map.cursor [(.zero, entry)]).flatten = .ok loaded ∧
      loaded.Same map ∧
      loadBytes (legacyPieces map.cursor [(.zero, entry)]).flatten = .ok loaded ∧
      ∀ rows', Listing loaded.inner rows' → ∃ again,
        loadBytes (snapshotPieces loaded.cursor rows').flatten = .ok again ∧
          again.Same loaded :=
  load_undoes_save listing_entry ⟨by decide, by decide⟩

/-- The last byte of the balance, and the file without its last byte. -/
theorem load_refuses_damage_entry :
    (∃ e, loadBytes ((snapshotPieces map.cursor [(.zero, entry)]).flatten.take 91) =
      .error e) ∧
    ∃ e, loadBytes ((snapshotPieces map.cursor [(.zero, entry)]).flatten.set 59 1) =
      .error e := by
  have hdamage := load_refuses_damage listing_entry ⟨by decide, by decide⟩
  have hlength : 91 < (snapshotPieces map.cursor [(.zero, entry)]).flatten.length := by
    decide +kernel
  have hbyte : (snapshotPieces map.cursor [(.zero, entry)]).flatten[59]? = some 0 := by
    decide +kernel
  constructor
  · exact hdamage.1 91 hlength
  · exact hdamage.2 59 0 1 hbyte (by decide) (by decide)

end OneHolder

end UsdtPir
