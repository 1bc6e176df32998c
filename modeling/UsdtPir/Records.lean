import Mathlib.Algebra.Group.Nat.Defs
import Mathlib.Data.List.AList

/-!
# Addresses, tokens, entries and readings

The plain data of the service: fixed-width byte strings, the two watched
tokens with their event topics, what the map stores for an address, what a
balance call reads for it, and in which block it was last seen.  A byte string
carries its length, and a balance and a block stamp are machine integers of
the width the source gives them.
-/

namespace UsdtPir

/-- `[u8; n]`. -/
structure FixedBytes (n : ℕ) where
  bytes : List UInt8
  length_eq : bytes.length = n
  deriving DecidableEq

/-- An account address: twenty bytes. -/
abbrev Address := FixedBytes 20

/-- A 32-byte word: an event topic or a block hash. -/
abbrev B256 := FixedBytes 32

instance : LawfulBEq B256 := inferInstance

abbrev U128 := BitVec 128

abbrev U32 := BitVec 32

@[ext]
theorem FixedBytes.ext {n : ℕ} {a b : FixedBytes n} (h : a.bytes = b.bytes) :
    a = b := by
  cases a
  cases b
  simp_all

/-- The array with every byte equal to `byte`. -/
def FixedBytes.filled (n : ℕ) (byte : UInt8) : FixedBytes n :=
  ⟨List.replicate n byte, List.length_replicate⟩

def Address.zero : Address := FixedBytes.filled 20 0

/-- `HashMap<κ, υ>`.  The order of the entries is that of the model only: code
that iterates asks its environment for the order. -/
abbrev HashMap (κ υ : Type) [DecidableEq κ] := AList fun _ : κ => υ

abbrev HashSet (κ : Type) [DecidableEq κ] := HashMap κ Unit

/-! ## Tokens -/

/-- Tether USD. -/
def USDT : Address :=
  ⟨[0xda, 0xc1, 0x7f, 0x95, 0x8d, 0x2e, 0xe5, 0x23, 0xa2, 0x20,
    0x62, 0x06, 0x99, 0x45, 0x97, 0xc1, 0x3d, 0x83, 0x1e, 0xc7], rfl⟩

/-- Circle USD Coin. -/
def USDC : Address :=
  ⟨[0xa0, 0xb8, 0x69, 0x91, 0xc6, 0x21, 0x8b, 0x36, 0xc1, 0xd1,
    0x9d, 0x4a, 0x2e, 0x9e, 0xb0, 0xce, 0x36, 0x06, 0xeb, 0x48], rfl⟩

def MULTICALL3 : Address :=
  ⟨[0xca, 0x11, 0xbd, 0xe0, 0x59, 0x77, 0xb3, 0x63, 0x11, 0x67,
    0x02, 0x88, 0x62, 0xbe, 0x2a, 0x17, 0x39, 0x76, 0xca, 0x11], rfl⟩

/-- `keccak256("Transfer(address,address,uint256)")`. -/
def TRANSFER : B256 :=
  ⟨[0xdd, 0xf2, 0x52, 0xad, 0x1b, 0xe2, 0xc8, 0x9b,
    0x69, 0xc2, 0xb0, 0x68, 0xfc, 0x37, 0x8d, 0xaa,
    0x95, 0x2b, 0xa7, 0xf1, 0x63, 0xc4, 0xa1, 0x16,
    0x28, 0xf5, 0x5a, 0x4d, 0xf5, 0x23, 0xb3, 0xef], rfl⟩

/-- `keccak256("DestroyedBlackFunds(address,uint256)")`. -/
def DESTROYED_BLACK_FUNDS : B256 :=
  ⟨[0x61, 0xe6, 0xe6, 0x6b, 0x0d, 0x63, 0x39, 0xb2,
    0x98, 0x0a, 0xec, 0xc6, 0xcc, 0xc0, 0x03, 0x97,
    0x36, 0x79, 0x1f, 0x0c, 0xcd, 0xe9, 0xed, 0x51,
    0x2e, 0x78, 0x9a, 0x7f, 0xbd, 0xd6, 0x98, 0xc6], rfl⟩

/-- `keccak256("Issue(uint256)")`. -/
def ISSUE : B256 :=
  ⟨[0xcb, 0x82, 0x41, 0xad, 0xb0, 0xc3, 0xfd, 0xb3,
    0x5b, 0x70, 0xc2, 0x4c, 0xe3, 0x5c, 0x5e, 0xb0,
    0xc1, 0x7a, 0xf7, 0x43, 0x1c, 0x99, 0xf8, 0x27,
    0xd4, 0x4a, 0x44, 0x5c, 0xa6, 0x24, 0x17, 0x6a], rfl⟩

/-- `keccak256("Redeem(uint256)")`. -/
def REDEEM : B256 :=
  ⟨[0x70, 0x2d, 0x59, 0x67, 0xf4, 0x5f, 0x65, 0x13,
    0xa3, 0x8f, 0xfc, 0x42, 0xd6, 0xba, 0x9b, 0xf2,
    0x30, 0xbd, 0x40, 0xe8, 0xf5, 0x3b, 0x16, 0x36,
    0x3c, 0x7e, 0xb4, 0xfd, 0x2d, 0xeb, 0x9a, 0x44], rfl⟩

/-- USDT supply events, which move the owner's balance and name nobody. -/
def SUPPLY_TOPICS : List B256 := [ISSUE, REDEEM]

/-- The tokens, in the order of every multicall batch. -/
def TOKENS : List Address := [USDT, USDC]

/-- Every event that can move a balance on either token. -/
def WATCHED_TOPICS : List B256 := [TRANSFER, DESTROYED_BLACK_FUNDS, ISSUE, REDEEM]

/-! ## Entries, readings and touches -/

/-- What the map stores for an address: both balances, each with the block in
which it was last seen to move. -/
@[ext]
structure Entry where
  usdt : U128
  usdtBlock : U32
  usdc : U128
  usdcBlock : U32
  deriving DecidableEq

/-- Both balances of an address, as read at one block. -/
@[ext]
structure Reading where
  usdt : U128
  usdc : U128
  deriving DecidableEq

instance : Inhabited Entry := ⟨⟨0, 0, 0, 0⟩⟩

def Entry.isZero (e : Entry) : Bool :=
  e.usdt == 0 && e.usdc == 0

def Reading.isZero (r : Reading) : Bool :=
  r.usdt == 0 && r.usdc == 0

/-- The balances of an entry, without its block stamps. -/
def Entry.reading (e : Entry) : Reading :=
  ⟨e.usdt, e.usdc⟩

@[simp]
theorem Entry.reading_isZero (e : Entry) : e.reading.isZero = e.isZero :=
  rfl

/-- Two balances as numbers: USDT, then USDC. -/
abbrev Balances := ℕ × ℕ

def Reading.balances (r : Reading) : Balances :=
  (r.usdt.toNat, r.usdc.toNat)

theorem Reading.isZero_iff (r : Reading) :
    r.isZero = true ↔ r.balances = (0, 0) := by
  have hzero : ∀ x : U128, x = 0#128 ↔ x.toNat = 0 := by
    intro x
    rw [← BitVec.toNat_inj]
    rfl
  simp [Reading.isZero, Reading.balances, hzero]

/-- Nothing is held for an address with two zero balances. -/
def blank (b : Balances) : Bool :=
  b == (0, 0)

/-- A reading as the map keeps it. -/
def Reading.kept (r : Reading) : Option Balances :=
  if r.isZero then none else some r.balances

/-- The last block, per token, in which an address appeared in a log. -/
@[ext]
structure Touch where
  usdt : Option ℕ
  usdc : Option ℕ
  deriving DecidableEq

instance : Inhabited Touch := ⟨⟨none, none⟩⟩

def maxBlock : Option ℕ → Option ℕ → Option ℕ
  | some a, some b => some (max a b)
  | a, b => a.or b

def Touch.see (touch : Touch) (token : Address) (block : Option ℕ) : Touch :=
  if token = USDT then
    { touch with usdt := maxBlock touch.usdt block }
  else if token = USDC then
    { touch with usdc := maxBlock touch.usdc block }
  else
    touch

end UsdtPir
