import Mathlib.Data.List.Sort
import UsdtPir.Records

/-!
# Projecting logs onto addresses

A watched log names the addresses whose balance may have moved: both sides of
a transfer that is not inert, the address whose black funds were destroyed.  A
USDT issue or redeem names nobody; its block is kept so that the owner can be
asked for later.
-/

namespace UsdtPir

/-- The parts of a log the projection looks at. -/
structure Log where
  address : Address
  topics : List B256
  data : List UInt8
  blockNumber : Option ℕ
  deriving DecidableEq

/-- The `eth_getLogs` filter of one block range. -/
structure Filter where
  address : List Address
  eventSignature : List B256
  fromBlock : ℕ
  toBlock : ℕ
  deriving DecidableEq

def filter (fromBlock toBlock : ℕ) : Filter :=
  ⟨TOKENS, WATCHED_TOPICS, fromBlock, toBlock⟩

/-- An address topic is a 20-byte address left-padded into a 32-byte word. -/
def addrFromWord (word : List UInt8) : Option Address :=
  if h : word.length = 32 ∧ word.take 12 = List.replicate 12 0 then
    let a : Address := ⟨word.drop 12, by simp [h.1]⟩
    if a = Address.zero then none else some a
  else
    none

structure Collected where
  understood : ℕ
  usdtSupplyBlocks : List ℕ
  deriving DecidableEq

/-- What `collect_touched` accumulates: the touched addresses and the rest. -/
structure Projection where
  out : HashMap Address Touch
  collected : Collected

namespace Projection

/-- `out.entry(a).or_default().see(token, block)`. -/
def see (p : Projection) (addr : Address) (log : Log) : Projection :=
  { p with
    out := p.out.insert addr
      (((p.out.lookup addr).getD default).see log.address log.blockNumber) }

def understand (p : Projection) : Projection :=
  { p with
    collected := { p.collected with
      understood := p.collected.understood + 1 } }

end Projection

def transferIsInert (log : Log) : Bool :=
  log.data.all (· == 0) || log.topics[1]? == log.topics[2]?

def collectTransfer (log : Log) (p : Projection) : Projection :=
  if log.topics.length ≠ 3 then
    p
  else if transferIsInert log then
    p.understand
  else
    let named := (log.topics.drop 1).filterMap (addrFromWord ·.bytes)
    (named.foldl (fun p a => p.see a log) p).understand

/-- The word that names the address: topic 1, else the first data word. -/
def destroyedWord (log : Log) : Option (List UInt8) :=
  (log.topics[1]?.map FixedBytes.bytes).or
    (if 32 ≤ log.data.length then some (log.data.take 32) else none)

def collectDestroyedBlackFunds (log : Log) (p : Projection) : Projection :=
  match (destroyedWord log).bind addrFromWord with
  | some a => (p.see a log).understand
  | none => p

def collectSupplyEvent (log : Log) (p : Projection) : Projection :=
  let p := match log.blockNumber with
    | some block => { p with
        collected := { p.collected with
          usdtSupplyBlocks := p.collected.usdtSupplyBlocks ++ [block] } }
    | none => p
  p.understand

def collectLog (p : Projection) (log : Log) : Projection :=
  match log.topics.head? with
  | none => p
  | some topic0 =>
      if topic0 = TRANSFER then
        collectTransfer log p
      else if topic0 = DESTROYED_BLACK_FUNDS then
        collectDestroyedBlackFunds log p
      else if topic0 ∈ SUPPLY_TOPICS ∧ log.address = USDT then
        collectSupplyEvent log p
      else
        p

/-- `Vec::dedup`: drop an element equal to the one before it. -/
def dedup : List ℕ → List ℕ
  | [] => []
  | [a] => [a]
  | a :: b :: rest => if a = b then dedup (b :: rest) else a :: dedup (b :: rest)

/-- Project logs onto the addresses whose balance may have moved. -/
def collectTouched (logs : List Log) (out : HashMap Address Touch) : Projection :=
  let p := logs.foldl collectLog ⟨out, ⟨0, []⟩⟩
  { p with
    collected := { p.collected with
      usdtSupplyBlocks :=
        dedup (p.collected.usdtSupplyBlocks.insertionSort (· ≤ ·)) } }

/-! ## Which addresses a log names -/

def isTransfer (log : Log) : Bool :=
  log.topics.head? == some TRANSFER && log.topics.length == 3 &&
    !transferIsInert log

def isDestroyedBlackFunds (log : Log) : Bool :=
  log.topics.head? == some DESTROYED_BLACK_FUNDS

/-- The log is a USDT issue or redeem. -/
def isSupplyEvent (log : Log) : Bool :=
  log.topics.head?.any (· ∈ SUPPLY_TOPICS) && log.address == USDT

/-- The non-zero addresses named by a watched log that is not inert. -/
def namedBy (log : Log) : List Address :=
  if isTransfer log then
    (log.topics.drop 1).filterMap (addrFromWord ·.bytes)
  else if isDestroyedBlackFunds log then
    ((destroyedWord log).bind addrFromWord).toList
  else
    []

/-- The left-padded word of an address. -/
def padded (a : Address) : List UInt8 :=
  List.replicate 12 0 ++ a.bytes

/-- A log that is not inert names `a`, the zero address included. -/
def Names (log : Log) (a : Address) : Prop :=
  (isTransfer log = true ∧ ∃ t ∈ log.topics.drop 1, t.bytes = padded a) ∨
    (isDestroyedBlackFunds log = true ∧ destroyedWord log = some (padded a))

theorem addrFromWord_eq_some {w : List UInt8} {a : Address} :
    addrFromWord w = some a ↔ w = padded a ∧ a ≠ Address.zero := by
  have hdrop : (padded a).drop 12 = a.bytes := by
    unfold padded
    rw [List.drop_left' (by simp)]
  have htake : (padded a).take 12 = List.replicate 12 0 := by
    unfold padded
    rw [List.take_left' (by simp)]
  constructor
  · intro h
    unfold addrFromWord at h
    split at h
    · rename_i hword
      dsimp only at h
      split at h
      · cases h
      · rename_i hzero
        obtain rfl := Option.some.inj h
        refine ⟨?_, hzero⟩
        calc
          w = w.take 12 ++ w.drop 12 := (List.take_append_drop 12 w).symm
          _ = padded ⟨w.drop 12, _⟩ := by rw [hword.2]; rfl
    · cases h
  · rintro ⟨rfl, hzero⟩
    have hlength : (padded a).length = 32 := by
      simp [padded, a.length_eq]
    have ha : (⟨(padded a).drop 12, by simp [hlength]⟩ : Address) = a :=
      FixedBytes.ext hdrop
    unfold addrFromWord
    rw [dif_pos ⟨hlength, htake⟩]
    dsimp only
    rw [ha, if_neg hzero]

theorem isDestroyedBlackFunds_not_transfer {log : Log}
    (h : isDestroyedBlackFunds log = true) : isTransfer log = false := by
  have hhead : log.topics.head? = some DESTROYED_BLACK_FUNDS := by
    simpa [isDestroyedBlackFunds] using h
  have hne : DESTROYED_BLACK_FUNDS ≠ TRANSFER := by decide
  simp [isTransfer, hhead, hne]

/-- The projection finds exactly the non-zero addresses that are named. -/
theorem mem_namedBy_iff {log : Log} {a : Address} :
    a ∈ namedBy log ↔ Names log a ∧ a ≠ Address.zero := by
  unfold namedBy Names
  cases htransfer : isTransfer log with
  | true =>
      have hdestroyed : isDestroyedBlackFunds log = false := by
        cases hdestroyed : isDestroyedBlackFunds log with
        | false => rfl
        | true =>
            rw [isDestroyedBlackFunds_not_transfer hdestroyed] at htransfer
            cases htransfer
      simp only [if_true, hdestroyed, List.mem_filterMap,
        addrFromWord_eq_some, Bool.false_eq_true, false_and, or_false,
        true_and]
      constructor
      · rintro ⟨t, ht, hword, hzero⟩
        exact ⟨⟨t, ht, hword⟩, hzero⟩
      · rintro ⟨⟨t, ht, hword⟩, hzero⟩
        exact ⟨t, ht, hword, hzero⟩
  | false =>
      cases hdestroyed : isDestroyedBlackFunds log with
      | true =>
          simp only [Bool.false_eq_true, if_false, if_true,
            Option.mem_toList, Option.bind_eq_some_iff,
            addrFromWord_eq_some, false_and, false_or, true_and]
          constructor
          · rintro ⟨w, hw, rfl, hzero⟩
            exact ⟨hw, hzero⟩
          · rintro ⟨hw, hzero⟩
            exact ⟨_, hw, rfl, hzero⟩
      | false => simp

@[simp]
theorem mem_dedup {n : ℕ} {l : List ℕ} : n ∈ dedup l ↔ n ∈ l := by
  fun_induction dedup l with
  | case1 => simp
  | case2 a => simp
  | case3 a rest ih => simp [ih]
  | case4 a b rest hne ih => simp [ih]

@[simp]
theorem mem_see_out {p : Projection} {addr other : Address} {log : Log} :
    other ∈ (p.see addr log).out ↔ other = addr ∨ other ∈ p.out :=
  AList.mem_insert _

@[simp]
theorem see_collected (p : Projection) (addr : Address) (log : Log) :
    (p.see addr log).collected = p.collected :=
  rfl

@[simp]
theorem understand_out (p : Projection) : p.understand.out = p.out :=
  rfl

@[simp]
theorem understand_usdtSupplyBlocks (p : Projection) :
    p.understand.collected.usdtSupplyBlocks = p.collected.usdtSupplyBlocks :=
  rfl

theorem foldl_see (named : List Address) (log : Log) (p : Projection) :
    (∀ a, a ∈ (named.foldl (fun p a => p.see a log) p).out ↔
      a ∈ named ∨ a ∈ p.out) ∧
    (named.foldl (fun p a => p.see a log) p).collected = p.collected := by
  induction named generalizing p with
  | nil => simp
  | cons addr rest ih =>
      obtain ⟨hout, hcollected⟩ := ih (p.see addr log)
      constructor
      · intro a
        rw [List.foldl_cons, hout, mem_see_out, List.mem_cons]
        tauto
      · rw [List.foldl_cons, hcollected, see_collected]

theorem TRANSFER_not_supply : TRANSFER ∉ SUPPLY_TOPICS := by
  decide

theorem DESTROYED_BLACK_FUNDS_not_supply :
    DESTROYED_BLACK_FUNDS ∉ SUPPLY_TOPICS := by
  decide

/-- A log is folded in by seeing the addresses it names. -/
theorem collectLog_out {p : Projection} {log : Log} :
    (collectLog p log).out =
      ((namedBy log).foldl (fun p a => p.see a log) p).out := by
  unfold collectLog namedBy isTransfer isDestroyedBlackFunds
  cases htopics : log.topics.head? with
  | none => simp
  | some topic0 =>
      by_cases htransfer : topic0 = TRANSFER
      · subst htransfer
        have hne : TRANSFER ≠ DESTROYED_BLACK_FUNDS := by decide
        unfold collectTransfer
        by_cases hlength : log.topics.length = 3
        · cases hinert : transferIsInert log with
          | true => simp [hlength, hne]
          | false => simp [hlength]
        · simp [hlength, hne]
      · by_cases hdestroyed : topic0 = DESTROYED_BLACK_FUNDS
        · subst hdestroyed
          unfold collectDestroyedBlackFunds
          cases hword : (destroyedWord log).bind addrFromWord with
          | none => simp [htransfer]
          | some addr => simp [htransfer]
        · have hsupply : (collectSupplyEvent log p).out = p.out := by
            unfold collectSupplyEvent
            cases log.blockNumber <;> rfl
          simp only [htransfer, hdestroyed, if_false]
          split
          · simp [hsupply, htransfer, hdestroyed]
          · simp [htransfer, hdestroyed]

theorem mem_collectLog_out {p : Projection} {log : Log} {a : Address} :
    a ∈ (collectLog p log).out ↔ a ∈ namedBy log ∨ a ∈ p.out := by
  rw [collectLog_out]
  exact (foldl_see (namedBy log) log p).1 a

/-- One log adds its block to the supply blocks when it is a supply event. -/
theorem mem_collectLog_usdtSupplyBlocks {p : Projection} {log : Log} {b : ℕ} :
    b ∈ (collectLog p log).collected.usdtSupplyBlocks ↔
      (isSupplyEvent log = true ∧ log.blockNumber = some b) ∨
        b ∈ p.collected.usdtSupplyBlocks := by
  unfold collectLog isSupplyEvent
  cases htopics : log.topics.head? with
  | none => simp
  | some topic0 =>
      simp only [Option.any_some]
      by_cases htransfer : topic0 = TRANSFER
      · subst htransfer
        have hno := TRANSFER_not_supply
        simp only [if_true, collectTransfer, hno]
        split
        · simp
        · split
          · simp
          · simp [(foldl_see _ _ _).2]
      · by_cases hdestroyed : topic0 = DESTROYED_BLACK_FUNDS
        · subst hdestroyed
          have hno := DESTROYED_BLACK_FUNDS_not_supply
          simp only [htransfer, if_true, if_false,
            collectDestroyedBlackFunds, hno]
          split
          · simp
          · simp
        · simp only [htransfer, hdestroyed, if_false]
          by_cases hsupply : topic0 ∈ SUPPLY_TOPICS ∧ log.address = USDT
          · rw [if_pos hsupply]
            unfold collectSupplyEvent
            cases hblock : log.blockNumber with
            | none => simp
            | some block =>
                simp only [understand_usdtSupplyBlocks, List.mem_append,
                  List.mem_singleton, hsupply.1, hsupply.2, decide_true,
                  beq_self_eq_true, Bool.and_self, true_and,
                  Option.some.injEq]
                tauto
          · rw [if_neg hsupply]
            simp only [Bool.and_eq_true, decide_eq_true_eq, beq_iff_eq]
            tauto

/-- The keys of `collect_touched` are the addresses named by some log. -/
theorem mem_collectTouched_out {logs : List Log} {out : HashMap Address Touch}
    {a : Address} :
    a ∈ (collectTouched logs out).out ↔
      (∃ log ∈ logs, a ∈ namedBy log) ∨ a ∈ out := by
  have hfold : ∀ (p : Projection),
      a ∈ (logs.foldl collectLog p).out ↔
        (∃ log ∈ logs, a ∈ namedBy log) ∨ a ∈ p.out := by
    induction logs with
    | nil => simp
    | cons log rest ih =>
        intro p
        rw [List.foldl_cons, ih, mem_collectLog_out]
        simp only [List.exists_mem_cons_iff, or_assoc, or_left_comm]
  exact hfold _

/-- The supply blocks are the blocks of the USDT issues and redeems. -/
theorem mem_collectTouched_usdtSupplyBlocks {logs : List Log}
    {out : HashMap Address Touch} {b : ℕ} :
    b ∈ (collectTouched logs out).collected.usdtSupplyBlocks ↔
      ∃ log ∈ logs, isSupplyEvent log = true ∧ log.blockNumber = some b := by
  have hfold : ∀ (p : Projection),
      b ∈ (logs.foldl collectLog p).collected.usdtSupplyBlocks ↔
        (∃ log ∈ logs, isSupplyEvent log = true ∧ log.blockNumber = some b) ∨
          b ∈ p.collected.usdtSupplyBlocks := by
    induction logs with
    | nil => simp
    | cons log rest ih =>
        intro p
        rw [List.foldl_cons, ih, mem_collectLog_usdtSupplyBlocks]
        simp only [List.exists_mem_cons_iff, or_assoc, or_left_comm]
  simp [collectTouched, List.mem_insertionSort, hfold]

end UsdtPir
