import UsdtPir.Records

/-!
# The balance map

The authoritative plaintext table and the one operation that changes it.
`apply` compares a reading with what is held: it inserts, updates, removes or
leaves the address alone, and says which.  A block number that outgrows `u32`
makes the source panic; here it makes `apply` undefined.
-/

namespace UsdtPir

/-- The map with the last block folded into it. -/
structure BalanceMap where
  inner : HashMap Address Entry
  cursor : ℕ
  deriving DecidableEq

inductive Applied
  | inserted
  | updated
  | removed (entry : Entry)
  | unchanged
  | skippedNewZero
  deriving DecidableEq

/-- `u32::try_from(b).expect(..)`. -/
def block32 (b : ℕ) : Option U32 :=
  if b < 2 ^ 32 then some (BitVec.ofNat 32 b) else none

/-- Overwrite a stamp; the flag says whether that changed it. -/
def updateBlock (slot : U32) (block : Option ℕ) : Option (Bool × U32) :=
  match block with
  | none => some (false, slot)
  | some b => do
      let block ← block32 b
      if slot = block then
        some (false, slot)
      else
        some (true, block)

def updateBalance (slot value : U128) : Bool × U128 :=
  if slot = value then (false, slot) else (true, value)

def stampSeenBlocks (e : Entry) (seen : Touch) : Option (Bool × Entry) := do
  let (changedUsdt, usdtBlock) ← updateBlock e.usdtBlock seen.usdt
  let (changedUsdc, usdcBlock) ← updateBlock e.usdcBlock seen.usdc
  some (changedUsdt || changedUsdc,
    { e with usdtBlock := usdtBlock, usdcBlock := usdcBlock })

def writeBalances (e : Entry) (r : Reading) : Bool × Entry :=
  let (changedUsdt, usdt) := updateBalance e.usdt r.usdt
  let (changedUsdc, usdc) := updateBalance e.usdc r.usdc
  (changedUsdt || changedUsdc, { e with usdt := usdt, usdc := usdc })

def applyExisting (e : Entry) (r : Reading) (seen : Touch) :
    Option (Applied × Entry) := do
  let (stamped, e) ← stampSeenBlocks e seen
  let (written, e) := writeBalances e r
  some (if stamped || written then .updated else .unchanged, e)

/-- The entry of an address first seen with a balance. -/
def newEntry (r : Reading) (seen : Touch) : Option Entry := do
  let usdtBlock ← seen.usdt.elim (some 0) block32
  let usdcBlock ← seen.usdc.elim (some 0) block32
  some ⟨r.usdt, usdtBlock, r.usdc, usdcBlock⟩

namespace BalanceMap

/-- `BalanceMap::new`. -/
def new (cursor : ℕ) : BalanceMap :=
  ⟨∅, cursor⟩

def get (map : BalanceMap) (addr : Address) : Option Entry :=
  map.inner.lookup addr

def len (map : BalanceMap) : ℕ :=
  map.inner.entries.length

def insertNew (map : BalanceMap) (addr : Address) (r : Reading)
    (seen : Touch) : Option (Applied × BalanceMap) := do
  let entry ← newEntry r seen
  some (.inserted, { map with inner := map.inner.insert addr entry })

/-- `BalanceMap::apply`: fold one reading into the map. -/
def apply (map : BalanceMap) (addr : Address) (r : Reading) (seen : Touch) :
    Option (Applied × BalanceMap) :=
  match map.get addr with
  | some e => do
      let (applied, e) ← applyExisting e r seen
      if e.isZero then
        some (.removed e, { map with inner := map.inner.erase addr })
      else
        some (applied, { map with inner := map.inner.insert addr e })
  | none =>
      if r.isZero then
        some (.skippedNewZero, map)
      else
        map.insertNew addr r seen

def removeIfZero (map : BalanceMap) (addr : Address) : BalanceMap :=
  if (map.get addr).any Entry.isZero then
    { map with inner := map.inner.erase addr }
  else
    map

/-- `BalanceMap::prune_zero`.  Which candidate comes first does not matter, so
the order of the model's keys stands for that of the source. -/
def pruneZero (map : BalanceMap) (candidates : HashSet Address) :
    ℕ × BalanceMap :=
  let pruned := candidates.keys.foldl removeIfZero map
  (map.len - pruned.len, pruned)

end BalanceMap

/-! ## One address at a time -/

/-- The stamp after `updateBlock`. -/
def stampBlock (slot : U32) (block : Option ℕ) : U32 :=
  block.elim slot (BitVec.ofNat 32)

/-- A held entry after a reading and a touch. -/
def mergeEntry (e : Entry) (r : Reading) (seen : Touch) : Entry :=
  ⟨r.usdt, stampBlock e.usdtBlock seen.usdt,
    r.usdc, stampBlock e.usdcBlock seen.usdc⟩

/-- A fresh entry: merging into one that holds nothing and was never seen. -/
def freshEntry (r : Reading) (seen : Touch) : Entry :=
  mergeEntry ⟨0, 0, 0, 0⟩ r seen

@[simp]
theorem mergeEntry_reading (e : Entry) (r : Reading) (seen : Touch) :
    (mergeEntry e r seen).reading = r :=
  rfl

@[simp]
theorem mergeEntry_isZero (e : Entry) (r : Reading) (seen : Touch) :
    (mergeEntry e r seen).isZero = r.isZero :=
  rfl

@[simp]
theorem freshEntry_reading (r : Reading) (seen : Touch) :
    (freshEntry r seen).reading = r :=
  rfl

@[simp]
theorem freshEntry_isZero (r : Reading) (seen : Touch) :
    (freshEntry r seen).isZero = r.isZero :=
  rfl

theorem block32_eq_some {b : ℕ} {block : U32} (h : block32 b = some block) :
    block = BitVec.ofNat 32 b := by
  unfold block32 at h
  split at h
  · exact (Option.some.inj h).symm
  · cases h

theorem updateBlock_eq_some {slot stamp : U32} {block : Option ℕ}
    {changed : Bool} (h : updateBlock slot block = some (changed, stamp)) :
    stamp = stampBlock slot block ∧ changed = decide (stamp ≠ slot) := by
  cases block with
  | none =>
      simp only [updateBlock, Option.some.injEq, Prod.mk.injEq] at h
      obtain ⟨rfl, rfl⟩ := h
      simp [stampBlock]
  | some b =>
      simp only [updateBlock, Option.bind_eq_bind, Option.bind_eq_some_iff] at h
      obtain ⟨block, hblock, h⟩ := h
      have hstamp := block32_eq_some hblock
      subst hstamp
      split at h
      · rename_i hslot
        simp only [Option.some.injEq, Prod.mk.injEq] at h
        obtain ⟨rfl, rfl⟩ := h
        simp [stampBlock, ← hslot]
      · rename_i hslot
        simp only [Option.some.injEq, Prod.mk.injEq] at h
        obtain ⟨rfl, rfl⟩ := h
        simp [stampBlock, Ne.symm hslot]

theorem updateBalance_eq (slot value : U128) :
    updateBalance slot value = (decide (value ≠ slot), value) := by
  unfold updateBalance
  by_cases h : slot = value
  · simp [h]
  · simp [h, Ne.symm h]

/-- `apply_existing` overwrites both balances and the stamps it is given, and
reports a change exactly when the entry is a different one afterwards. -/
theorem applyExisting_eq_some {e e' : Entry} {r : Reading} {seen : Touch}
    {applied : Applied} (h : applyExisting e r seen = some (applied, e')) :
    e' = mergeEntry e r seen ∧
      applied = if e' = e then .unchanged else .updated := by
  simp only [applyExisting, stampSeenBlocks, writeBalances, updateBalance_eq,
    Option.bind_eq_bind, Option.bind_eq_some_iff, Option.some.injEq,
    Prod.mk.injEq, Prod.exists] at h
  obtain ⟨stamped, e₁, ⟨changedUsdt, usdtBlock, husdt, changedUsdc, usdcBlock,
    husdc, rfl, rfl⟩, rfl, rfl⟩ := h
  obtain ⟨rfl, rfl⟩ := updateBlock_eq_some husdt
  obtain ⟨rfl, rfl⟩ := updateBlock_eq_some husdc
  refine ⟨rfl, ?_⟩
  have hsame : ((⟨r.usdt, stampBlock e.usdtBlock seen.usdt, r.usdc,
      stampBlock e.usdcBlock seen.usdc⟩ : Entry) = e) ↔
      r.usdt = e.usdt ∧ stampBlock e.usdtBlock seen.usdt = e.usdtBlock ∧
        r.usdc = e.usdc ∧ stampBlock e.usdcBlock seen.usdc = e.usdcBlock :=
    Entry.ext_iff
  simp only [hsame]
  grind

theorem newEntry_eq_some {r : Reading} {seen : Touch} {e : Entry}
    (h : newEntry r seen = some e) : e = freshEntry r seen := by
  have hstamp : ∀ {block : Option ℕ} {stamp : U32},
      block.elim (some 0) block32 = some stamp →
        stamp = stampBlock 0 block := by
    intro block stamp h
    cases block with
    | none => simpa [stampBlock] using h.symm
    | some b => simpa [stampBlock] using block32_eq_some h
  simp only [newEntry, Option.bind_eq_bind, Option.bind_eq_some_iff,
    Option.some.injEq] at h
  obtain ⟨usdtBlock, husdt, usdcBlock, husdc, rfl⟩ := h
  rw [hstamp husdt, hstamp husdc]
  rfl

namespace BalanceMap

variable {map map' : BalanceMap} {addr : Address} {r : Reading} {seen : Touch}
    {applied : Applied}

/-- Everything `apply` can do, branch by branch. -/
theorem apply_cases (h : map.apply addr r seen = some (applied, map')) :
    (∃ e, map.get addr = some e ∧ r.isZero = true ∧
        applied = .removed (mergeEntry e r seen) ∧
        map' = { map with inner := map.inner.erase addr }) ∨
    (∃ e, map.get addr = some e ∧ r.isZero = false ∧
        applied = (if mergeEntry e r seen = e then .unchanged else .updated) ∧
        map' = { map with
          inner := map.inner.insert addr (mergeEntry e r seen) }) ∨
    (map.get addr = none ∧ r.isZero = true ∧
        applied = .skippedNewZero ∧ map' = map) ∨
    (map.get addr = none ∧ r.isZero = false ∧ applied = .inserted ∧
        map' = { map with
          inner := map.inner.insert addr (freshEntry r seen) }) := by
  unfold apply at h
  cases hget : map.get addr with
  | some e =>
      simp only [hget, Option.bind_eq_bind, Option.bind_eq_some_iff,
        Prod.exists] at h
      obtain ⟨outcome, e', he', h⟩ := h
      obtain ⟨rfl, rfl⟩ := applyExisting_eq_some he'
      cases hzero : r.isZero with
      | true =>
          simp only [mergeEntry_isZero, hzero, if_true, Option.some.injEq,
            Prod.mk.injEq] at h
          exact .inl ⟨e, rfl, rfl, h.1.symm, h.2.symm⟩
      | false =>
          simp only [mergeEntry_isZero, hzero, Bool.false_eq_true, if_false,
            Option.some.injEq, Prod.mk.injEq] at h
          exact .inr (.inl ⟨e, rfl, rfl, h.1.symm, h.2.symm⟩)
  | none =>
      simp only [hget] at h
      cases hzero : r.isZero with
      | true =>
          simp only [hzero, if_true, Option.some.injEq, Prod.mk.injEq] at h
          exact .inr (.inr (.inl ⟨rfl, rfl, h.1.symm, h.2.symm⟩))
      | false =>
          simp only [hzero, Bool.false_eq_true, if_false, insertNew,
            Option.bind_eq_bind, Option.bind_eq_some_iff, Option.some.injEq,
            Prod.mk.injEq] at h
          obtain ⟨e, he, happlied, hmap⟩ := h
          rw [newEntry_eq_some he] at hmap
          exact .inr (.inr (.inr ⟨rfl, rfl, happlied.symm, hmap.symm⟩))

theorem apply_get_ne (h : map.apply addr r seen = some (applied, map'))
    {other : Address} (hne : other ≠ addr) :
    map'.get other = map.get other := by
  rcases apply_cases h with ⟨e, -, -, -, rfl⟩ | ⟨e, -, -, -, rfl⟩ |
    ⟨-, -, -, rfl⟩ | ⟨-, -, -, rfl⟩
  · exact AList.lookup_erase_ne hne
  · exact AList.lookup_insert_ne hne
  · rfl
  · exact AList.lookup_insert_ne hne

/-- The balances held for an address, if it is held. -/
def holding (map : BalanceMap) (addr : Address) : Option Balances :=
  (map.get addr).map fun e => e.reading.balances

/-- After `apply` the address holds what was read, and nobody else changed. -/
theorem apply_holding (h : map.apply addr r seen = some (applied, map'))
    (other : Address) :
    map'.holding other = if other = addr then r.kept else map.holding other := by
  by_cases hother : other = addr
  · subst hother
    rw [if_pos rfl]
    rcases apply_cases h with ⟨e, -, hzero, -, rfl⟩ | ⟨e, -, hzero, -, rfl⟩ |
      ⟨hget, hzero, -, rfl⟩ | ⟨-, hzero, -, rfl⟩
    · simp [holding, get, Reading.kept, hzero]
    · simp [holding, get, Reading.kept, hzero]
    · simp [holding, hget, Reading.kept, hzero]
    · simp [holding, get, Reading.kept, hzero]
  · rw [if_neg hother, holding, holding, apply_get_ne h hother]

end BalanceMap

end UsdtPir
