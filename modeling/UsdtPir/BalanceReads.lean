import UsdtPir.SyncProcess

/-!
# Reading balances and block headers

Balances are read through Multicall3, four hundred addresses to a call, and
decoded pair by pair: USDT first, then USDC.  A reverted call counts as zero;
a reply of the wrong shape or a value past `u128` fails the whole read.
-/

namespace UsdtPir

open Interaction
open Program

def CALLS_PER_MULTICALL : ℕ := 800

def addressesPerMulticall : ℕ :=
  CALLS_PER_MULTICALL / TOKENS.length

/-- The ABI encoding of `balanceOf(owner)`. -/
def balanceOfCall (owner : Address) : List UInt8 :=
  [0x70, 0xa0, 0x82, 0x31] ++ List.replicate 12 0 ++ owner.bytes

def balanceCalls (chunk : List Address) : List Call3 :=
  chunk.flatMap fun owner =>
    TOKENS.map fun target => ⟨target, true, balanceOfCall owner⟩

/-- `U256::from_be_slice`. -/
def fromBigEndian (bytes : List UInt8) : ℕ :=
  bytes.foldl (fun n byte => n * 256 + byte.toNat) 0

def decodeBalance (r : CallResult) : Except Failure U128 :=
  if !r.success then
    .ok 0
  else if r.returnData.length ≠ 32 then
    .error (.err
      [s!"balanceOf returned {r.returnData.length} bytes, expected 32"])
  else if fromBigEndian r.returnData < 2 ^ 128 then
    .ok (BitVec.ofNat 128 (fromBigEndian r.returnData))
  else
    .error (.err ["balance exceeds u128; record layout assumption is broken"])

def ensureResultCount (chunk : List Address) (results : List CallResult) :
    Except Failure Unit :=
  if results.length = chunk.length * TOKENS.length then
    .ok ()
  else
    .error (.err
      [s!"multicall returned {results.length} results for {chunk.length * TOKENS.length} calls"])

/-- `chunks_exact(2)`. -/
def pairs : List CallResult → List (CallResult × CallResult)
  | first :: second :: rest => (first, second) :: pairs rest
  | _ => []

def decodePairs (out : HashMap Address Reading) :
    List (Address × CallResult × CallResult) →
      Except Failure (HashMap Address Reading)
  | [] => .ok out
  | (addr, first, second) :: rest => do
      let usdt ← decodeBalance first
      let usdc ← decodeBalance second
      decodePairs (out.insert addr ⟨usdt, usdc⟩) rest

def insertBalanceResults (out : HashMap Address Reading)
    (chunk : List Address) (results : List CallResult) :
    Except Failure (HashMap Address Reading) := do
  ensureResultCount chunk results
  decodePairs out (chunk.zip (pairs results))

def callBalanceChunk (chunk : List Address) (block : ℕ) :
    Sync (List CallResult) := do
  let results ← Ask.aggregate3 MULTICALL3 (balanceCalls chunk) block
  liftRpc [s!"aggregate3 of {chunk.length * 2} calls at block {block}"] results

/-- `addrs.chunks(size)`; the fuel is the length of the list. -/
def chunks (size : ℕ) : ℕ → List Address → List (List Address)
  | 0, _ => []
  | _ + 1, [] => []
  | fuel + 1, addrs => addrs.take size :: chunks size fuel (addrs.drop size)

def readChunks (block : ℕ) (out : HashMap Address Reading) :
    List (List Address) → Sync (HashMap Address Reading)
  | [] => pure out
  | chunk :: rest => do
      let results ← callBalanceChunk chunk block
      let out ← ofExcept (insertBalanceResults out chunk results)
      readChunks block out rest

/-- Both balances of every address at one block. -/
def readBalances (addrs : List Address) (block : ℕ) :
    Sync (HashMap Address Reading) :=
  readChunks block ∅ (chunks addressesPerMulticall addrs.length addrs)

def usdtOwner (block : ℕ) : Sync Address := do
  let owner ← Ask.owner USDT block
  liftRpc ["reading USDT owner() to apply an Issue/Redeem"] owner

def blockHash (number : ℕ) : Sync (Option B256) := do
  let answer ← Ask.blockByNumber number
  let block ← liftRpc [] answer
  pure (block.map Block.hash)

def finalizedBlock : Sync ℕ := do
  let answer ← Ask.finalizedBlock
  match ← liftRpc [] answer with
  | some block => pure block.number
  | none => .throw (.err ["node returned no finalized block"])

/-- The block up to which a pass should sync. -/
def Tip.resolve : Tip → Sync ℕ
  | .finalized => finalizedBlock
  | .confirmations n => do
      let answer ← Ask.blockNumber
      let head ← liftRpc [] answer
      pure (head - n)

/-! ## What a read returns -/

theorem mem_flatten_chunks {size fuel : ℕ} (hsize : 0 < size)
    {addrs : List Address} (hfuel : addrs.length ≤ fuel) :
    (chunks size fuel addrs).flatten = addrs := by
  induction fuel generalizing addrs with
  | zero =>
      have hnil : addrs = [] := List.length_eq_zero_iff.mp (by omega)
      simp [chunks, hnil]
  | succ fuel ih =>
      cases addrs with
      | nil => simp [chunks]
      | cons a rest =>
          have hdrop : ((a :: rest).drop size).length ≤ fuel := by
            simp only [List.length_drop, List.length_cons] at hfuel ⊢
            omega
          rw [chunks, List.flatten_cons, ih hdrop, List.take_append_drop]
          simp

/-- The replies to the calls of one address decode to this reading. -/
def DecodesTo (replies : CallResult × CallResult) (r : Reading) : Prop :=
  decodeBalance replies.1 = .ok r.usdt ∧ decodeBalance replies.2 = .ok r.usdc

theorem decodePairs_eq_ok {rows : List (Address × CallResult × CallResult)}
    {out out' : HashMap Address Reading}
    (h : decodePairs out rows = .ok out') :
    (∀ a, a ∈ out' ↔ a ∈ rows.map Prod.fst ∨ a ∈ out) ∧
      ∀ a r, out'.lookup a = some r →
        out.lookup a = some r ∨
          ∃ replies, (a, replies) ∈ rows ∧ DecodesTo replies r := by
  induction rows generalizing out with
  | nil =>
      simp only [decodePairs, Except.ok.injEq] at h
      subst h
      simp
  | cons row rest ih =>
      obtain ⟨addr, first, second⟩ := row
      simp only [decodePairs] at h
      cases husdt : decodeBalance first with
      | error failure => rw [husdt] at h; cases h
      | ok usdt =>
          rw [husdt] at h
          cases husdc : decodeBalance second with
          | error failure => rw [husdc] at h; cases h
          | ok usdc =>
              rw [husdc] at h
              obtain ⟨hmem, hlookup⟩ := ih h
              constructor
              · intro a
                rw [hmem, AList.mem_insert, List.map_cons, List.mem_cons]
                tauto
              · intro a r hr
                rcases hlookup a r hr with hold | ⟨replies, hrow, hdecodes⟩
                · by_cases ha : a = addr
                  · subst ha
                    rw [AList.lookup_insert, Option.some.injEq] at hold
                    subst hold
                    exact .inr ⟨(first, second), List.mem_cons_self,
                      husdt, husdc⟩
                  · rw [AList.lookup_insert_ne ha] at hold
                    exact .inl hold
                · exact .inr ⟨replies, List.mem_cons_of_mem _ hrow, hdecodes⟩

theorem length_pairs {results : List CallResult} {n : ℕ}
    (h : results.length = n * 2) : (pairs results).length = n := by
  induction n generalizing results with
  | zero =>
      have hnil : results = [] := List.length_eq_zero_iff.mp (by omega)
      simp [hnil, pairs]
  | succ n ih =>
      match results, h with
      | [], h => simp at h
      | [first], h => simp at h; omega
      | first :: second :: rest, h =>
          simp only [List.length_cons] at h
          rw [pairs, List.length_cons, ih (by omega)]

/-- The provider's replies to one multicall make `r` the reading of `a`. -/
def Answered (truth : (q : Request) → Answer q → Prop) (block : ℕ)
    (a : Address) (r : Reading) : Prop :=
  ∃ chunk results replies,
    truth (.aggregate3 MULTICALL3 (balanceCalls chunk) block)
        (Except.ok results : Except RpcError (List CallResult)) ∧
      results.length = chunk.length * TOKENS.length ∧
      (a, replies) ∈ chunk.zip (pairs results) ∧ DecodesTo replies r

section Rules

variable {ω : Type} {env : Environment Request Answer ω} {world : ω}
    {s : Process} {truth : (q : Request) → Answer q → Prop}

/-- A failure of a program that only asks: the state is the one before. -/
def Untouched (s : Process) (failure : Failure) (s' : Process) : Prop :=
  s' = s ∧ ∃ chain, failure = .err chain

theorem insertBalanceResults_eq_ok {out out' : HashMap Address Reading}
    {chunk : List Address} {results : List CallResult}
    (h : insertBalanceResults out chunk results = .ok out') :
    results.length = chunk.length * TOKENS.length ∧
      decodePairs out (chunk.zip (pairs results)) = .ok out' := by
  unfold insertBalanceResults ensureResultCount at h
  split at h
  · rename_i hlength
    exact ⟨hlength, h⟩
  · cases h

theorem insertBalanceResults_error {out : HashMap Address Reading}
    {chunk : List Address} {results : List CallResult} {failure : Failure}
    (h : insertBalanceResults out chunk results = .error failure) :
    ∃ chain, failure = .err chain := by
  have hdecode : ∀ {r : CallResult} {failure : Failure},
      decodeBalance r = .error failure → ∃ chain, failure = .err chain := by
    intro r failure h
    unfold decodeBalance at h
    split at h
    · cases h
    · split at h
      · exact ⟨_, (Except.error.inj h).symm⟩
      · split at h
        · cases h
        · exact ⟨_, (Except.error.inj h).symm⟩
  have hrows : ∀ (rows : List (Address × CallResult × CallResult))
      (out : HashMap Address Reading),
      decodePairs out rows = .error failure →
        ∃ chain, failure = .err chain := by
    intro rows
    induction rows with
    | nil => intro out h; cases h
    | cons row rest ih =>
        intro out h
        obtain ⟨addr, first, second⟩ := row
        simp only [decodePairs] at h
        cases husdt : decodeBalance first with
        | error failure' =>
            rw [husdt] at h
            cases h
            exact hdecode husdt
        | ok usdt =>
            rw [husdt] at h
            cases husdc : decodeBalance second with
            | error failure' =>
                rw [husdc] at h
                cases h
                exact hdecode husdc
            | ok usdc =>
                rw [husdc] at h
                exact ih _ h
  unfold insertBalanceResults ensureResultCount at h
  split at h
  · exact hrows _ _ h
  · cases h
    exact ⟨_, rfl⟩

theorem meets_readChunks (hkeeps : env.Keeps truth) {block : ℕ}
    {parts : List (List Address)} {out : HashMap Address Reading}
    (hout : ∀ a r, out.lookup a = some r → Answered truth block a r) :
    Meets env (readChunks block out parts) world s
      (fun _ readings s' => s' = s ∧
        (∀ a, a ∈ readings ↔ a ∈ parts.flatten ∨ a ∈ out) ∧
        ∀ a r, readings.lookup a = some r → Answered truth block a r)
      (fun _ failure s' => Untouched s failure s') := by
  induction parts generalizing out world with
  | nil => simpa [readChunks] using hout
  | cons chunk rest ih =>
      simp only [readChunks, callBalanceChunk, meets_bind, meets_aggregate3,
        meets_liftRpc, meets_ofExcept]
      intro answer after hanswer
      refine ⟨fun results hresults => ⟨fun out' hout' => ?_,
        fun failure hfailure =>
          ⟨rfl, insertBalanceResults_error hfailure⟩⟩,
        fun e _ => ⟨rfl, _, rfl⟩⟩
      subst hresults
      obtain ⟨hlength, hdecode⟩ := insertBalanceResults_eq_ok hout'
      obtain ⟨hmem, hlookup⟩ := decodePairs_eq_ok hdecode
      have hkeys : (chunk.zip (pairs results)).map Prod.fst = chunk := by
        have hpairs : (pairs results).length = chunk.length :=
          length_pairs hlength
        exact List.map_fst_zip (by omega)
      have hnext : ∀ a r, out'.lookup a = some r →
          Answered truth block a r := by
        intro a r hr
        rcases hlookup a r hr with hold | ⟨replies, hrow, hdecodes⟩
        · exact hout a r hold
        · exact ⟨chunk, results, replies, hkeeps _ _ _ _ hanswer, hlength,
            hrow, hdecodes⟩
      refine meets_mono (ih hnext) ?_ (fun _ _ _ h => h)
      rintro final readings s' ⟨rfl, hreadings, htrue⟩
      refine ⟨rfl, fun a => ?_, htrue⟩
      rw [hreadings, hmem, hkeys, List.flatten_cons, List.mem_append]
      tauto

/-- A successful read has exactly the given addresses as keys, each with a
reading the provider gave for it; a failed one changes nothing. -/
theorem meets_readBalances (hkeeps : env.Keeps truth) {addrs : List Address}
    {block : ℕ} :
    Meets env (readBalances addrs block) world s
      (fun _ readings s' => s' = s ∧
        (∀ a, a ∈ readings ↔ a ∈ addrs) ∧
        ∀ a r, readings.lookup a = some r → Answered truth block a r)
      (fun _ failure s' => Untouched s failure s') := by
  unfold readBalances
  have hflatten : (chunks addressesPerMulticall addrs.length addrs).flatten =
      addrs :=
    mem_flatten_chunks (by decide) le_rfl
  refine meets_mono (meets_readChunks hkeeps (by simp)) ?_ (fun _ _ _ h => h)
  rintro final readings s' ⟨rfl, hreadings, htrue⟩
  refine ⟨rfl, fun a => ?_, htrue⟩
  rw [hreadings, hflatten]
  simp

theorem meets_blockHash (hkeeps : env.Keeps truth) {number : ℕ} :
    Meets env (blockHash number) world s
      (fun _ hash s' => s' = s ∧ ∃ block : Option Block,
        truth (.blockByNumber number)
            (Except.ok block : Except RpcError (Option Block)) ∧
          hash = block.map Block.hash)
      (fun _ failure s' => Untouched s failure s') := by
  simp only [blockHash, meets_bind, meets_blockByNumber, meets_liftRpc,
    meets_pure]
  intro answer after hanswer
  refine ⟨fun block hblock => ?_, fun e _ => ⟨rfl, _, rfl⟩⟩
  subst hblock
  exact ⟨trivial, block, hkeeps _ _ _ _ hanswer, rfl⟩

theorem meets_usdtOwner (hkeeps : env.Keeps truth) {block : ℕ} :
    Meets env (usdtOwner block) world s
      (fun _ owner s' => s' = s ∧
        truth (.owner USDT block) (Except.ok owner : Except RpcError Address))
      (fun _ failure s' => Untouched s failure s') := by
  simp only [usdtOwner, meets_bind, meets_owner, meets_liftRpc]
  intro answer after hanswer
  refine ⟨fun owner howner => ?_, fun e _ => ⟨rfl, _, rfl⟩⟩
  subst howner
  exact ⟨trivial, hkeeps _ _ _ _ hanswer⟩

/-- What the provider must have said for `tip` to resolve to `target`. -/
def ResolvesTo (truth : (q : Request) → Answer q → Prop) :
    Tip → ℕ → Prop
  | .finalized, target =>
      ∃ hash, truth .finalizedBlock
        (Except.ok (some ⟨target, hash⟩) : Except RpcError (Option Block))
  | .confirmations n, target =>
      ∃ head, truth .blockNumber (Except.ok head : Except RpcError ℕ) ∧
        target = head - n

theorem ResolvesTo.imp {truth' : (q : Request) → Answer q → Prop} {tip : Tip}
    {target : ℕ} (h : ResolvesTo truth tip target)
    (himp : ∀ q answer, truth q answer → truth' q answer) :
    ResolvesTo truth' tip target := by
  cases tip with
  | finalized =>
      obtain ⟨hash, hanswer⟩ := h
      exact ⟨hash, himp _ _ hanswer⟩
  | confirmations n =>
      obtain ⟨head, hanswer, htarget⟩ := h
      exact ⟨head, himp _ _ hanswer, htarget⟩

theorem meets_resolve {tip : Tip} :
    Meets env tip.resolve world s
      (fun final target s' => s' = s ∧
        ResolvesTo (fun q answer => env world q answer final) tip target)
      (fun _ failure s' => Untouched s failure s') := by
  cases tip with
  | finalized =>
      simp only [Tip.resolve, finalizedBlock, meets_bind,
        meets_finalizedBlock, meets_liftRpc]
      intro answer after hanswer
      refine ⟨fun block hblock => ?_, fun e _ => ⟨rfl, _, rfl⟩⟩
      subst hblock
      cases block with
      | none => exact ⟨rfl, _, rfl⟩
      | some block => exact ⟨rfl, block.hash, hanswer⟩
  | confirmations n =>
      simp only [Tip.resolve, meets_bind, meets_blockNumber, meets_liftRpc,
        meets_pure]
      intro answer after hanswer
      refine ⟨fun head hhead => ?_, fun e _ => ⟨rfl, _, rfl⟩⟩
      subst hhead
      exact ⟨trivial, head, hanswer, rfl⟩

end Rules

end UsdtPir
