import UsdtPir.SnapshotFormat

/-!
# The keyword files as bytes

`.index` is `magic(8) | length(8) | blob`, `.keys` is
`magic(8) | version(8) | count(8) | keys(20 each)`, all integers little-endian.
Both are read before either is looked at, and the version inside the blob
decides whether they belong together.  The buffers are sized by the header
before a byte of the body is read, and the allocator may refuse them.
-/

namespace UsdtPir

/-- `USDTKWI1`. -/
def INDEX_MAGIC : List UInt8 :=
  [0x55, 0x53, 0x44, 0x54, 0x4b, 0x57, 0x49, 0x31]

/-- `USDTKWK1`. -/
def KEYS_MAGIC : List UInt8 :=
  [0x55, 0x53, 0x44, 0x54, 0x4b, 0x57, 0x4b, 0x31]

inductive KeywordHalf
  | index
  | keys
  deriving DecidableEq

/-- Why the keyword files cannot be read, with what the message shows. -/
inductive KeywordError (E : Type)
  | reading (half : KeywordHalf) (e : IoError)
  | emptyOrTruncated (half : KeywordHalf)
  | wrongMagic (half : KeywordHalf) (magic : List UInt8)
  | unexpectedEof
  | truncated (half : KeywordHalf)
  | parsing (e : E)
  deriving DecidableEq

/-- An error is returned, a panic takes the thread with it, and an allocation
that is refused the whole process. -/
inductive Stop (E : Type)
  | err (e : KeywordError E)
  | panic (message : String)
  | abort (bytes : ℕ)
  deriving DecidableEq

/-- Whether the allocator grants so many bytes when a half is read. -/
abbrev Allocator := KeywordHalf → ℕ → Bool

/-- Memory enough for everything. -/
def Allocator.ample : Allocator := fun _ _ => true

namespace KeywordFile

variable {E : Type}

/-! ## Reading -/

/-- `open`: a missing file is no error. -/
abbrev Opened := Except IoError (Option (List UInt8))

/-- `read_exact`, with the error it becomes. -/
def readBytes (n : ℕ) (f : List UInt8) (e : KeywordError E) :
    Except (Stop E) (FixedBytes n × List UInt8) :=
  match readExact n f with
  | .ok read => .ok read
  | .error _ => .error (.err e)

def expectMagic (half : KeywordHalf) (want : List UInt8) (f : List UInt8) :
    Except (Stop E) (List UInt8) := do
  let (magic, f) ← readBytes 8 f (.emptyOrTruncated half)
  if magic.bytes = want then
    pure f
  else
    .error (.err (.wrongMagic half magic.bytes))

def readU64 (f : List UInt8) : Except (Stop E) (ℕ × List UInt8) := do
  let (buf, f) ← readBytes 8 f .unexpectedEof
  pure (LittleEndian.decode buf.bytes, f)

/-- `vec![zero; count]` for elements of `size` bytes.  Nothing is allocated for
an empty vector. -/
def zeroed (grants : ℕ → Bool) (size count : ℕ) : Except (Stop E) Unit :=
  if 2 ^ 63 ≤ size * count then .error (.panic "capacity overflow")
  else if size * count = 0 ∨ grants (size * count) then .ok ()
  else .error (.abort (size * count))

/-- `read_index` of a file that is there. -/
def readIndexFile (grants : ℕ → Bool) (f : List UInt8) :
    Except (Stop E) (List UInt8) := do
  let f ← expectMagic .index INDEX_MAGIC f
  let (len, f) ← readU64 f
  zeroed grants 1 len
  let (blob, _) ← readBytes len f (.truncated .index)
  pure blob.bytes

def readIndex (grants : ℕ → Bool) :
    Opened → Except (Stop E) (Option (List UInt8))
  | .error e => .error (.err (.reading .index e))
  | .ok none => .ok none
  | .ok (some f) => do
      let blob ← readIndexFile grants f
      pure (some blob)

def readKeyRows : ℕ → List UInt8 → Except (Stop E) (List Address)
  | 0, _ => .ok []
  | count + 1, f => do
      let (key, f) ← readBytes 20 f (.truncated .keys)
      let keys ← readKeyRows count f
      pure (key :: keys)

/-- `read_keys` of a file that is there. -/
def readKeysFile (grants : ℕ → Bool) (f : List UInt8) :
    Except (Stop E) (List Address × ℕ) := do
  let f ← expectMagic .keys KEYS_MAGIC f
  let (version, f) ← readU64 f
  let (count, f) ← readU64 f
  zeroed grants 20 count
  let keys ← readKeyRows count f
  pure (keys, version)

def readKeys (grants : ℕ → Bool) :
    Opened → Except (Stop E) (Option (List Address × ℕ))
  | .error e => .error (.err (.reading .keys e))
  | .ok none => .ok none
  | .ok (some f) => do
      let held ← readKeysFile grants f
      pure (some held)

structure Loaded where
  directory : List UInt8
  keys : List Address
  version : ℕ
  deriving DecidableEq

/-- `directory_version`, where `parse` reads the directory and tells its
version. -/
def directoryVersion (parse : List UInt8 → Except E ℕ) (blob : List UInt8) :
    Except (Stop E) ℕ :=
  match parse blob with
  | .ok version => .ok version
  | .error e => .error (.err (.parsing e))

/-- Both halves, or `None` if either is missing or they disagree. -/
def load (allocator : Allocator) (parse : List UInt8 → Except E ℕ)
    (index keys : Opened) : Except (Stop E) (Option Loaded) := do
  let directory ← readIndex (allocator .index) index
  let held ← readKeys (allocator .keys) keys
  match directory, held with
  | some directory, some (keys, keysVersion) => do
      let version ← directoryVersion parse directory
      if version ≠ keysVersion then
        pure none
      else
        pure (some ⟨directory, keys, version⟩)
  | _, _ => pure none

/-! ## What the header asks for -/

/-- The file starts with the magic and holds a header of `n` bytes. -/
def Headed (magic : List UInt8) (n : ℕ) (f : List UInt8) : Prop :=
  f.take 8 = magic ∧ n ≤ f.length

/-- The length in the header of an index file. -/
def indexLen (f : List UInt8) : ℕ :=
  LittleEndian.decode ((f.drop 8).take 8)

/-- The count in the header of a keys file. -/
def keysCount (f : List UInt8) : ℕ :=
  LittleEndian.decode ((f.drop 16).take 8)

/-- A buffer of so many bytes can be had. -/
def Grants (grants : ℕ → Bool) (bytes : ℕ) : Prop :=
  bytes < 2 ^ 63 ∧ (bytes = 0 ∨ grants bytes)

theorem grants_ample {half : KeywordHalf} {bytes : ℕ} (h : bytes < 2 ^ 63) :
    Grants (Allocator.ample half) bytes :=
  ⟨h, .inr rfl⟩

theorem zeroed_of_grants {grants : ℕ → Bool} {size count : ℕ}
    (h : Grants grants (size * count)) :
    zeroed (E := E) grants size count = .ok () := by
  unfold zeroed
  rw [if_neg (Nat.not_le_of_lt h.1)]
  exact if_pos h.2

/-- Without a buffer there is a panic or an abort, and no error. -/
theorem zeroed_of_not_grants {grants : ℕ → Bool} {size count : ℕ}
    (h : ¬ Grants grants (size * count)) :
    ∃ stop, zeroed (E := E) grants size count = .error stop ∧
      ∀ e, stop ≠ .err e := by
  unfold zeroed
  by_cases hlarge : 2 ^ 63 ≤ size * count
  · refine ⟨_, if_pos hlarge, ?_⟩
    intro e heq
    cases heq
  · rw [if_neg hlarge]
    refine ⟨_, if_neg fun hgranted => h ⟨Nat.lt_of_not_le hlarge, hgranted⟩, ?_⟩
    intro e heq
    cases heq

variable {grants : ℕ → Bool}

theorem readBytes_of_le {n : ℕ} {f : List UInt8} (h : n ≤ f.length)
    (e : KeywordError E) :
    readBytes n f e =
      .ok (⟨f.take n, List.length_take_of_le h⟩, f.drop n) := by
  unfold readBytes readExact
  rw [dif_pos h]

theorem readBytes_of_lt {n : ℕ} {f : List UInt8} (h : f.length < n)
    (e : KeywordError E) : readBytes n f e = .error (.err e) := by
  unfold readBytes readExact
  rw [dif_neg (Nat.not_le_of_lt h)]

theorem expectMagic_of_eq {half : KeywordHalf} {want f : List UInt8}
    (h : Headed want 8 f) :
    expectMagic (E := E) half want f = .ok (f.drop 8) := by
  unfold expectMagic
  rw [readBytes_of_le h.2]
  exact if_pos h.1

theorem expectMagic_of_ne (half : KeywordHalf) {want f : List UInt8}
    (h : ¬ Headed want 8 f) :
    ∃ e, expectMagic (E := E) half want f = .error (.err e) := by
  unfold expectMagic
  rcases Nat.lt_or_ge f.length 8 with hlt | hle
  · rw [readBytes_of_lt hlt]
    exact ⟨_, rfl⟩
  · rw [readBytes_of_le hle]
    exact ⟨_, if_neg fun heq => h ⟨heq, hle⟩⟩

theorem readU64_of_le {f : List UInt8} (h : 8 ≤ f.length) :
    readU64 (E := E) f = .ok (LittleEndian.decode (f.take 8), f.drop 8) := by
  unfold readU64
  rw [readBytes_of_le h]
  rfl

theorem readU64_of_lt {f : List UInt8} (h : f.length < 8) :
    readU64 (E := E) f = .error (.err .unexpectedEof) := by
  unfold readU64
  rw [readBytes_of_lt h]
  rfl

theorem bind_error {α β : Type} {x : Except (Stop E) α} {e : Stop E}
    {g : α → Except (Stop E) β} (h : x = .error e) : (x >>= g) = .error e := by
  rw [h]
  rfl

/-- After a header the buffer is asked for, and then the body is read. -/
theorem readIndexFile_headed {f : List UInt8} (h : Headed INDEX_MAGIC 16 f) :
    readIndexFile (E := E) grants f =
      (zeroed grants 1 (indexLen f) >>= fun _ =>
        if f.length < 16 + indexLen f then
          .error (.err (.truncated .index))
        else
          .ok ((f.drop 16).take (indexLen f))) := by
  have hmagic : Headed INDEX_MAGIC 8 f := ⟨h.1, le_trans (by decide) h.2⟩
  have hrest : 8 ≤ (f.drop 8).length := by
    have hle := h.2
    rw [List.length_drop]
    omega
  have hlen : LittleEndian.decode ((f.drop 8).take 8) = indexLen f := rfl
  have hdrop : (f.drop 8).drop 8 = f.drop 16 := List.drop_drop
  unfold readIndexFile
  rw [bind_ok (expectMagic_of_eq hmagic), bind_ok (readU64_of_le hrest)]
  dsimp only
  rw [hlen, hdrop]
  congr 1
  funext _
  have hbody : (f.drop 16).length = f.length - 16 := List.length_drop
  have hheader := h.2
  by_cases hshort : f.length < 16 + indexLen f
  · rw [if_pos hshort]
    apply bind_error
    apply readBytes_of_lt
    omega
  · rw [if_neg hshort]
    have hwhole : indexLen f ≤ (f.drop 16).length := by omega
    rw [bind_ok (readBytes_of_le hwhole _)]
    rfl

theorem readIndexFile_not_headed {f : List UInt8} (h : ¬ Headed INDEX_MAGIC 16 f) :
    ∃ e, readIndexFile (E := E) grants f = .error (.err e) := by
  unfold readIndexFile
  by_cases hmagic : Headed INDEX_MAGIC 8 f
  · have hrest : (f.drop 8).length < 8 := by
      have hle := hmagic.2
      have hshort : f.length < 16 := by
        by_contra hlong
        exact h ⟨hmagic.1, Nat.le_of_not_lt hlong⟩
      rw [List.length_drop]
      omega
    rw [bind_ok (expectMagic_of_eq hmagic), bind_error (readU64_of_lt hrest)]
    exact ⟨_, rfl⟩
  · rcases expectMagic_of_ne (E := E) .index hmagic with ⟨e, he⟩
    exact ⟨e, bind_error he⟩

/-- The rows of a keys file are all there, or it is truncated. -/
theorem readKeyRows_of_le {count : ℕ} {f : List UInt8}
    (h : 20 * count ≤ f.length) :
    ∃ keys, readKeyRows (E := E) count f = .ok keys := by
  induction count generalizing f with
  | zero => exact ⟨[], rfl⟩
  | succ count ih =>
      have hrest : 20 * count ≤ (f.drop 20).length := by
        rw [List.length_drop]
        omega
      rcases ih hrest with ⟨keys, hkeys⟩
      unfold readKeyRows
      rw [bind_ok (readBytes_of_le (by omega) _)]
      dsimp only
      rw [bind_ok hkeys]
      exact ⟨_, rfl⟩

theorem readKeyRows_of_lt {count : ℕ} {f : List UInt8}
    (h : f.length < 20 * count) :
    readKeyRows (E := E) count f = .error (.err (.truncated .keys)) := by
  induction count generalizing f with
  | zero => omega
  | succ count ih =>
      unfold readKeyRows
      rcases Nat.lt_or_ge f.length 20 with hlt | hle
      · exact bind_error (readBytes_of_lt hlt _)
      · have hrest : (f.drop 20).length < 20 * count := by
          rw [List.length_drop]
          omega
        rw [bind_ok (readBytes_of_le hle _)]
        exact bind_error (ih hrest)

theorem readKeysFile_headed {f : List UInt8} (h : Headed KEYS_MAGIC 24 f) :
    readKeysFile (E := E) grants f =
      (zeroed grants 20 (keysCount f) >>= fun _ =>
        readKeyRows (keysCount f) (f.drop 24) >>= fun keys =>
          .ok (keys, LittleEndian.decode ((f.drop 8).take 8))) := by
  have hmagic : Headed KEYS_MAGIC 8 f := ⟨h.1, le_trans (by decide) h.2⟩
  have hfirst : 8 ≤ (f.drop 8).length := by
    have hle := h.2
    rw [List.length_drop]
    omega
  have hsecond : 8 ≤ ((f.drop 8).drop 8).length := by
    have hle := h.2
    rw [List.length_drop, List.length_drop]
    omega
  have hcount : LittleEndian.decode (((f.drop 8).drop 8).take 8) =
      keysCount f := by
    rw [List.drop_drop]
    rfl
  unfold readKeysFile
  rw [bind_ok (expectMagic_of_eq hmagic), bind_ok (readU64_of_le hfirst)]
  dsimp only
  rw [bind_ok (readU64_of_le hsecond)]
  dsimp only
  rw [hcount, List.drop_drop, List.drop_drop]
  rfl

theorem readKeysFile_not_headed {f : List UInt8} (h : ¬ Headed KEYS_MAGIC 24 f) :
    ∃ e, readKeysFile (E := E) grants f = .error (.err e) := by
  unfold readKeysFile
  by_cases hmagic : Headed KEYS_MAGIC 8 f
  · have hshort : f.length < 24 := by
      by_contra hlong
      exact h ⟨hmagic.1, Nat.le_of_not_lt hlong⟩
    rw [bind_ok (expectMagic_of_eq hmagic)]
    rcases Nat.lt_or_ge (f.drop 8).length 8 with hlt | hle
    · rw [bind_error (readU64_of_lt hlt)]
      exact ⟨_, rfl⟩
    · have hrest : ((f.drop 8).drop 8).length < 8 := by
        rw [List.length_drop, List.length_drop]
        omega
      rw [bind_ok (readU64_of_le hle)]
      dsimp only
      rw [bind_error (readU64_of_lt hrest)]
      exact ⟨_, rfl⟩
  · rcases expectMagic_of_ne (E := E) .keys hmagic with ⟨e, he⟩
    exact ⟨e, bind_error he⟩

/-! ## Garbled files -/

/-- An index file that holds the blob its header announces. -/
def IndexWhole (f : List UInt8) : Prop :=
  Headed INDEX_MAGIC 16 f ∧ 16 + indexLen f ≤ f.length

/-- A header that is read announces more than a vector can hold or than the
allocator grants.  The keys are only read next to an index that is missing or
whole. -/
def AsksTooMuch (allocator : Allocator) (index keys : Option (List UInt8)) :
    Prop :=
  (∃ f, index = some f ∧ Headed INDEX_MAGIC 16 f ∧
      ¬ Grants (allocator .index) (indexLen f)) ∨
    ((∀ f, index = some f → IndexWhole f) ∧
      ∃ f, keys = some f ∧ Headed KEYS_MAGIC 24 f ∧
        ¬ Grants (allocator .keys) (20 * keysCount f))

/-- What stops the load is an error, and a body shorter than its header says is
reported as that. -/
structure Guarded (allocator : Allocator) (parse : List UInt8 → Except E ℕ)
    (index keys : Option (List UInt8)) : Prop where
  total : ∀ stop, load allocator parse (.ok index) (.ok keys) = .error stop →
    ∃ e, stop = .err e
  indexCut : ∀ f, index = some f → Headed INDEX_MAGIC 16 f →
    f.length < 16 + indexLen f →
    load allocator parse (.ok index) (.ok keys) =
      .error (.err (.truncated .index))
  keysCut : ∀ f, (∀ g, index = some g → IndexWhole g) → keys = some f →
    Headed KEYS_MAGIC 24 f → f.length < 24 + 20 * keysCount f →
    load allocator parse (.ok index) (.ok keys) =
      .error (.err (.truncated .keys))

section Garbled

variable {allocator : Allocator} {parse : List UInt8 → Except E ℕ}
    {index keys : Opened} {f : List UInt8} {stop : Stop E}

theorem load_of_index_stops
    (h : readIndexFile (allocator .index) f = .error stop) :
    load allocator parse (.ok (some f)) keys = .error stop := by
  unfold load readIndex
  rw [bind_error (bind_error h)]

theorem load_of_keys_stop {directory : Option (List UInt8)}
    (hindex : readIndex (E := E) (allocator .index) index = .ok directory)
    (h : readKeysFile (allocator .keys) f = .error stop) :
    load allocator parse index (.ok (some f)) = .error stop := by
  unfold load
  rw [bind_ok hindex]
  unfold readKeys
  rw [bind_error (bind_error h)]

theorem directoryVersion_stops {blob : List UInt8}
    (h : directoryVersion parse blob = .error stop) : ∃ e, stop = .err e := by
  unfold directoryVersion at h
  cases hparse : parse blob with
  | ok version =>
      rw [hparse] at h
      cases h
  | error e =>
      rw [hparse] at h
      cases h
      exact ⟨_, rfl⟩

/-- After both halves were read only the directory can be at fault. -/
theorem load_of_read {directory : Option (List UInt8)}
    {held : Option (List Address × ℕ)}
    (hindex : readIndex (E := E) (allocator .index) index = .ok directory)
    (hkeys : readKeys (E := E) (allocator .keys) keys = .ok held)
    (h : load allocator parse index keys = .error stop) :
    ∃ e, stop = .err e := by
  unfold load at h
  rw [bind_ok hindex, bind_ok hkeys] at h
  cases directory with
  | none => cases h
  | some directory =>
      cases held with
      | none => cases h
      | some held =>
          dsimp only at h
          cases hversion : directoryVersion parse directory with
          | error fault =>
              rw [hversion] at h
              cases h
              exact directoryVersion_stops hversion
          | ok version =>
              rw [hversion, bind_ok rfl] at h
              by_cases hdiffer : version ≠ held.2
              · rw [if_pos hdiffer] at h
                cases h
              · rw [if_neg hdiffer] at h
                cases h

/-- An index that is missing or whole is read, if there is room for it. -/
theorem readIndex_of_whole {index : Option (List UInt8)}
    (hwhole : ∀ f, index = some f → IndexWhole f)
    (hroom : ∀ f, index = some f → Grants grants (indexLen f)) :
    ∃ directory, readIndex (E := E) grants (.ok index) = .ok directory := by
  cases index with
  | none => exact ⟨none, rfl⟩
  | some f =>
      have hbuffer : zeroed (E := E) grants 1 (indexLen f) = .ok () := by
        apply zeroed_of_grants
        rw [Nat.one_mul]
        exact hroom f rfl
      have hread : readIndexFile (E := E) grants f =
          .ok ((f.drop 16).take (indexLen f)) := by
        rw [readIndexFile_headed (hwhole f rfl).1, bind_ok hbuffer]
        exact if_neg (Nat.not_lt_of_le (hwhole f rfl).2)
      exact ⟨_, bind_ok hread⟩

end Garbled

section Fitting

variable {allocator : Allocator} {parse : List UInt8 → Except E ℕ}
    {index keys : Option (List UInt8)} {f g : List UInt8}

theorem readIndexFile_stops (hheaded : Headed INDEX_MAGIC 16 f)
    (hrefused : ¬ Grants grants (indexLen f)) :
    ∃ stop, readIndexFile (E := E) grants f = .error stop ∧
      ∀ e, stop ≠ .err e := by
  rw [← Nat.one_mul (indexLen f)] at hrefused
  obtain ⟨stop, hbuffer, hstop⟩ := zeroed_of_not_grants (E := E) hrefused
  rw [readIndexFile_headed hheaded]
  exact ⟨stop, bind_error hbuffer, hstop⟩

theorem readKeysFile_stops (hheaded : Headed KEYS_MAGIC 24 f)
    (hrefused : ¬ Grants grants (20 * keysCount f)) :
    ∃ stop, readKeysFile (E := E) grants f = .error stop ∧
      ∀ e, stop ≠ .err e := by
  obtain ⟨stop, hbuffer, hstop⟩ := zeroed_of_not_grants (E := E) hrefused
  rw [readKeysFile_headed hheaded]
  exact ⟨stop, bind_error hbuffer, hstop⟩

/-- A header that announces too much stops the load, and not by an error. -/
theorem load_of_asksTooMuch (h : AsksTooMuch allocator index keys) :
    ∃ stop, load allocator parse (.ok index) (.ok keys) = .error stop ∧
      ∀ e, stop ≠ .err e := by
  obtain ⟨f, rfl, hheaded, hrefused⟩ | ⟨hwhole, g, rfl, hheaded, hrefused⟩ := h
  · obtain ⟨stop, hread, hstop⟩ := readIndexFile_stops (E := E) hheaded hrefused
    exact ⟨stop, load_of_index_stops hread, hstop⟩
  · by_cases hroom :
      ∀ f, index = some f → Grants (allocator .index) (indexLen f)
    · obtain ⟨directory, hindex⟩ := readIndex_of_whole (E := E) hwhole hroom
      obtain ⟨stop, hread, hstop⟩ :=
        readKeysFile_stops (E := E) hheaded hrefused
      exact ⟨stop, load_of_keys_stop hindex hread, hstop⟩
    · push Not at hroom
      obtain ⟨f, rfl, hbig⟩ := hroom
      obtain ⟨stop, hread, hstop⟩ :=
        readIndexFile_stops (E := E) (hwhole f rfl).1 hbig
      exact ⟨stop, load_of_index_stops hread, hstop⟩

theorem grants_index (hfits : ¬ AsksTooMuch allocator index keys)
    (hindex : index = some f) (hheaded : Headed INDEX_MAGIC 16 f) :
    Grants (allocator .index) (indexLen f) := by
  by_contra hrefused
  exact hfits (.inl ⟨f, hindex, hheaded, hrefused⟩)

theorem readIndex_of_fits (hfits : ¬ AsksTooMuch allocator index keys)
    (hwhole : ∀ f, index = some f → IndexWhole f) :
    ∃ directory,
      readIndex (E := E) (allocator .index) (.ok index) = .ok directory := by
  apply readIndex_of_whole hwhole
  intro f hf
  exact grants_index hfits hf (hwhole f hf).1

theorem readIndexFile_short (hfits : ¬ AsksTooMuch allocator index keys)
    (hindex : index = some f) (hheaded : Headed INDEX_MAGIC 16 f)
    (hshort : f.length < 16 + indexLen f) :
    readIndexFile (E := E) (allocator .index) f =
      .error (.err (.truncated .index)) := by
  have hbuffer : zeroed (E := E) (allocator .index) 1 (indexLen f) = .ok () := by
    apply zeroed_of_grants
    rw [Nat.one_mul]
    exact grants_index hfits hindex hheaded
  rw [readIndexFile_headed hheaded, bind_ok hbuffer, if_pos hshort]

theorem readKeysFile_of_fits (hfits : ¬ AsksTooMuch allocator index keys)
    (hwhole : ∀ f, index = some f → IndexWhole f) (hkeys : keys = some g)
    (hheaded : Headed KEYS_MAGIC 24 g) :
    readKeysFile (E := E) (allocator .keys) g =
      readKeyRows (keysCount g) (g.drop 24) >>=
        fun keys => .ok (keys, LittleEndian.decode ((g.drop 8).take 8)) := by
  have hroom : Grants (allocator .keys) (20 * keysCount g) := by
    by_contra hrefused
    exact hfits (.inr ⟨hwhole, g, hkeys, hheaded, hrefused⟩)
  have hbuffer := zeroed_of_grants (E := E) hroom
  rw [readKeysFile_headed hheaded, bind_ok hbuffer]

theorem readKeysFile_short (hfits : ¬ AsksTooMuch allocator index keys)
    (hwhole : ∀ f, index = some f → IndexWhole f) (hkeys : keys = some g)
    (hheaded : Headed KEYS_MAGIC 24 g)
    (hshort : g.length < 24 + 20 * keysCount g) :
    readKeysFile (E := E) (allocator .keys) g =
      .error (.err (.truncated .keys)) := by
  rw [readKeysFile_of_fits hfits hwhole hkeys hheaded]
  apply bind_error
  apply readKeyRows_of_lt
  rw [List.length_drop]
  have hheader := hheaded.2
  omega

/-- Next to an index that is missing or whole, the keys are read or refused. -/
theorem load_total_of_whole (hfits : ¬ AsksTooMuch allocator index keys)
    (hwhole : ∀ f, index = some f → IndexWhole f) {stop : Stop E}
    (h : load allocator parse (.ok index) (.ok keys) = .error stop) :
    ∃ e, stop = .err e := by
  obtain ⟨directory, hindex⟩ := readIndex_of_fits (E := E) hfits hwhole
  cases keys with
  | none => exact load_of_read hindex rfl h
  | some g =>
      by_cases hheaded : Headed KEYS_MAGIC 24 g
      · by_cases hshort : g.length < 24 + 20 * keysCount g
        · have hcut := readKeysFile_short (E := E) hfits hwhole rfl hheaded hshort
          rw [load_of_keys_stop hindex hcut] at h
          exact ⟨_, (Except.error.inj h).symm⟩
        · have hbody : 20 * keysCount g ≤ (g.drop 24).length := by
            rw [List.length_drop]
            omega
          obtain ⟨held, hheld⟩ := readKeyRows_of_le (E := E) hbody
          have hread := readKeysFile_of_fits (E := E) hfits hwhole rfl hheaded
          rw [bind_ok hheld] at hread
          exact load_of_read hindex (bind_ok hread) h
      · obtain ⟨e, he⟩ := readKeysFile_not_headed (E := E) hheaded
        rw [load_of_keys_stop hindex he] at h
        exact ⟨e, (Except.error.inj h).symm⟩

theorem load_total_of_fits (hfits : ¬ AsksTooMuch allocator index keys)
    {stop : Stop E}
    (h : load allocator parse (.ok index) (.ok keys) = .error stop) :
    ∃ e, stop = .err e := by
  by_cases hwhole : ∀ f, index = some f → IndexWhole f
  · exact load_total_of_whole hfits hwhole h
  · push Not at hwhole
    obtain ⟨f, rfl, hnot⟩ := hwhole
    by_cases hheaded : Headed INDEX_MAGIC 16 f
    · have hshort : f.length < 16 + indexLen f :=
        Nat.lt_of_not_le fun hle => hnot ⟨hheaded, hle⟩
      have hcut := readIndexFile_short (E := E) hfits rfl hheaded hshort
      rw [load_of_index_stops hcut] at h
      exact ⟨_, (Except.error.inj h).symm⟩
    · obtain ⟨e, he⟩ := readIndexFile_not_headed (E := E) hheaded
      rw [load_of_index_stops he] at h
      exact ⟨e, (Except.error.inj h).symm⟩

end Fitting

/-- Loading returns, and reports every body that is cut short, exactly when no
header announces more than a vector can hold or than the allocator grants. -/
theorem load_guarded_iff (allocator : Allocator)
    (parse : List UInt8 → Except E ℕ) (index keys : Option (List UInt8)) :
    Guarded allocator parse index keys ↔
      ¬ AsksTooMuch allocator index keys := by
  constructor
  · intro hguarded hasks
    have hstops : ∃ stop, load allocator parse (.ok index) (.ok keys) =
        .error stop ∧ ∀ e, stop ≠ .err e := load_of_asksTooMuch hasks
    obtain ⟨stop, hload, hstop⟩ := hstops
    obtain ⟨e, he⟩ := hguarded.total stop hload
    exact hstop e he
  · intro hfits
    constructor
    · intro stop hload
      exact load_total_of_fits hfits hload
    · intro f hf hheaded hshort
      rw [hf]
      exact load_of_index_stops (readIndexFile_short hfits hf hheaded hshort)
    · intro g hwhole hg hheaded hshort
      obtain ⟨directory, hindex⟩ := readIndex_of_fits (E := E) hfits hwhole
      rw [hg]
      exact load_of_keys_stop hindex
        (readKeysFile_short hfits hwhole hg hheaded hshort)

/-- An index file of a header alone, with the largest length, however much
memory there is. -/
theorem load_panics :
    load .ample (fun _ => (.ok 0 : Except Unit ℕ))
        (.ok (some (INDEX_MAGIC ++ List.replicate 8 0xff))) (.ok (some [])) =
      .error (.panic "capacity overflow") ∧
    ¬ Guarded .ample (fun _ => (.ok 0 : Except Unit ℕ))
      (some (INDEX_MAGIC ++ List.replicate 8 0xff)) (some []) := by
  have hpanic : load .ample (fun _ => (.ok 0 : Except Unit ℕ))
      (.ok (some (INDEX_MAGIC ++ List.replicate 8 0xff))) (.ok (some [])) =
      .error (.panic "capacity overflow") := by
    decide
  constructor
  · exact hpanic
  · intro hguarded
    obtain ⟨e, he⟩ := hguarded.total _ hpanic
    cases he

end KeywordFile

end UsdtPir
