import UsdtPir.BalanceReads
import UsdtPir.Observation
import UsdtPir.FaithfulProvider

/-!
# Batched reads as single reads

Two calls an address, four hundred addresses a multicall, and the results
matched back by position: the reading of an address depends on its own two
calls only, and one bad result anywhere fails the whole read.
-/

namespace UsdtPir

open Interaction
open Program

/-! ## Results in the order of the calls -/

def balanceCall (token owner : Address) : Call3 :=
  ⟨token, true, balanceOfCall owner⟩

theorem balanceCalls_cons (a : Address) (rest : List Address) :
    balanceCalls (a :: rest) =
      balanceCall USDT a :: balanceCall USDC a :: balanceCalls rest :=
  rfl

theorem length_balanceCalls (chunk : List Address) :
    (balanceCalls chunk).length = chunk.length * TOKENS.length := by
  induction chunk with
  | nil => rfl
  | cons a rest ih =>
      have htokens : TOKENS.length = 2 := rfl
      rw [balanceCalls_cons, List.length_cons, List.length_cons, ih,
        List.length_cons, htokens]
      omega

theorem pairs_map_balanceCalls (reply : Call3 → CallResult)
    (chunk : List Address) :
    pairs ((balanceCalls chunk).map reply) =
      chunk.map fun a =>
        (reply (balanceCall USDT a), reply (balanceCall USDC a)) := by
  induction chunk with
  | nil => rfl
  | cons a rest ih =>
      rw [balanceCalls_cons, List.map_cons, List.map_cons, pairs, ih,
        List.map_cons]

theorem zip_map_self (chunk : List Address)
    (f : Address → CallResult × CallResult) :
    chunk.zip (chunk.map f) = chunk.map fun a => (a, f a) := by
  induction chunk with
  | nil => rfl
  | cons a rest ih => rw [List.map_cons, List.zip_cons_cons, ih, List.map_cons]

/-! ## Decoding -/

/-- A result that decodes: a reverted call, or 32 bytes below `2 ^ 128`. -/
def CallResult.Decodes (r : CallResult) : Prop :=
  r.success = true →
    r.returnData.length = 32 ∧ fromBigEndian r.returnData < 2 ^ 128

theorem decodes_iff {r : CallResult} :
    r.Decodes ↔ ∃ value, decodeBalance r = .ok value := by
  unfold decodeBalance
  constructor
  · intro hdecodes
    split
    · exact ⟨0, rfl⟩
    · rename_i hsuccess
      have hshape := hdecodes (by simpa using hsuccess)
      rw [if_neg (not_not.mpr hshape.1), if_pos hshape.2]
      exact ⟨_, rfl⟩
  · intro hvalue hsuccess
    rcases hvalue with ⟨value, hvalue⟩
    rw [if_neg (by simp [hsuccess])] at hvalue
    split at hvalue
    · cases hvalue
    · rename_i hlength
      split at hvalue
      · rename_i hlt
        exact ⟨not_not.mp hlength, hlt⟩
      · cases hvalue

/-- A successful call returned `value`, as 32 bytes. -/
structure CallResult.Holds (r : CallResult) (value : U128) : Prop where
  success : r.success = true
  length : r.returnData.length = 32
  eq : fromBigEndian r.returnData = value.toNat

theorem CallResult.Holds.decodeBalance {r : CallResult} {value : U128}
    (h : r.Holds value) : decodeBalance r = .ok value := by
  have hlt : fromBigEndian r.returnData < 2 ^ 128 := by
    rw [h.eq]
    exact value.isLt
  unfold UsdtPir.decodeBalance
  rw [if_neg (by simp [h.success]), if_neg (not_not.mpr h.length), if_pos hlt,
    h.eq, BitVec.ofNat_toNat, BitVec.setWidth_eq]

/-- Rows that all decode are inserted, the rest of the map is kept. -/
theorem decodePairs_map {chunk : List Address}
    {f : Address → CallResult × CallResult} {r : Address → Reading}
    (h : ∀ a ∈ chunk, DecodesTo (f a) (r a)) (out : HashMap Address Reading) :
    ∃ out', decodePairs out (chunk.map fun a => (a, f a)) = .ok out' ∧
      ∀ a, out'.lookup a = if a ∈ chunk then some (r a) else out.lookup a := by
  induction chunk generalizing out with
  | nil => exact ⟨out, rfl, fun a => by simp⟩
  | cons b rest ih =>
      have hb := h b List.mem_cons_self
      rcases ih (fun a ha => h a (List.mem_cons_of_mem _ ha))
        (out.insert b (r b)) with ⟨out', hout', hlookup⟩
      refine ⟨out', ?_, ?_⟩
      · simp only [List.map_cons, decodePairs, hb.1, hb.2]
        exact hout'
      · intro a
        rw [hlookup]
        by_cases hrest : a ∈ rest
        · simp [hrest]
        · by_cases ha : a = b
          · subst ha
            simp [hrest]
          · simp [hrest, ha, AList.lookup_insert_ne ha]

theorem decodePairs_ok_iff {rows : List (Address × CallResult × CallResult)}
    {out : HashMap Address Reading} :
    (∃ out', decodePairs out rows = .ok out') ↔
      ∀ row ∈ rows, row.2.1.Decodes ∧ row.2.2.Decodes := by
  induction rows generalizing out with
  | nil => simp [decodePairs]
  | cons row rest ih =>
      rcases row with ⟨addr, first, second⟩
      rw [List.forall_mem_cons, decodes_iff, decodes_iff]
      cases hfirst : decodeBalance first with
      | error failure => simp [decodePairs, hfirst, bind, Except.bind]
      | ok usdt =>
          cases hsecond : decodeBalance second with
          | error failure =>
              simp [decodePairs, hfirst, hsecond, bind, Except.bind]
          | ok usdc =>
              have hrest := @ih (out.insert addr ⟨usdt, usdc⟩)
              rw [← hrest]
              simp [decodePairs, hfirst, hsecond, bind, Except.bind]

theorem forall_mem_pairs {results : List CallResult} {n : ℕ}
    (h : results.length = n * 2) (P : CallResult → Prop) :
    (∀ pair ∈ pairs results, P pair.1 ∧ P pair.2) ↔ ∀ r ∈ results, P r := by
  induction n generalizing results with
  | zero =>
      have hnil : results = [] := List.length_eq_zero_iff.mp (by omega)
      simp [hnil, pairs]
  | succ n ih =>
      cases results with
      | nil => simp at h
      | cons first tail =>
          cases tail with
          | nil =>
              simp only [List.length_cons, List.length_nil] at h
              omega
          | cons second rest =>
              simp only [List.length_cons] at h
              simp only [pairs, List.forall_mem_cons,
                ih (show rest.length = n * 2 by omega), and_assoc]

/-- Every result is there and decodes. -/
def Complete (calls : List Call3) : Except RpcError (List CallResult) → Prop
  | .ok results =>
      results.length = calls.length ∧ ∀ r ∈ results, r.Decodes
  | .error _ => False

theorem insertBalanceResults_ok_iff {out : HashMap Address Reading}
    {chunk : List Address} {results : List CallResult} :
    (∃ out', insertBalanceResults out chunk results = .ok out') ↔
      Complete (balanceCalls chunk) (.ok results) := by
  unfold insertBalanceResults ensureResultCount Complete
  rw [length_balanceCalls]
  by_cases hlength : results.length = chunk.length * TOKENS.length
  · rw [if_pos hlength]
    have hpairs : (pairs results).length = chunk.length := length_pairs hlength
    have hzip : (chunk.zip (pairs results)).map Prod.snd = pairs results :=
      List.map_snd_zip (by omega)
    have hrows : (∀ row ∈ chunk.zip (pairs results),
        row.2.1.Decodes ∧ row.2.2.Decodes) ↔
          ∀ pair ∈ pairs results, pair.1.Decodes ∧ pair.2.Decodes := by
      rw [← hzip, List.forall_mem_map, hzip]
    calc
      (∃ out', decodePairs out (chunk.zip (pairs results)) = .ok out') ↔
          ∀ r ∈ results, r.Decodes := by
        rw [decodePairs_ok_iff, hrows, forall_mem_pairs hlength]
      _ ↔ _ := by simp [hlength]
  · rw [if_neg hlength]
    simp [hlength, bind, Except.bind]

abbrev MulticallRecord :=
  List (List Call3 × Except RpcError (List CallResult))

/-- Note every multicall with its answer. -/
def noteMulticall (record : MulticallRecord) :
    (q : Request) → Answer q → MulticallRecord
  | .aggregate3 _ calls _, answer =>
      let results : Except RpcError (List CallResult) := answer
      record ++ [(calls, results)]
  | _, _ => record

/-- The Multicall3 answers in the order of the calls, each by itself. -/
def RepliesEach {ω : Type} (env : Environment Request Answer ω) (block : ℕ)
    (reply : Call3 → CallResult) : Prop :=
  ∀ calls (answer : Except RpcError (List CallResult)),
    env.Gives (.aggregate3 MULTICALL3 calls block) answer →
      answer = .ok (calls.map reply)

section Rules

variable {ω : Type} {env : Environment Request Answer ω} {world : ω}
    {s : Process} {block : ℕ}

/-- However the addresses are cut, each ends with its own two balances. -/
theorem meets_readChunks_each {reply : Call3 → CallResult}
    {r : Address → Reading} (hreplies : RepliesEach env block reply)
    {parts : List (List Address)}
    (hheld : ∀ a ∈ parts.flatten, DecodesTo
      (reply (balanceCall USDT a), reply (balanceCall USDC a)) (r a))
    {out : HashMap Address Reading} :
    Meets env (readChunks block out parts) world s
      (fun _ readings s' => s' = s ∧ ∀ a, readings.lookup a =
        if a ∈ parts.flatten then some (r a) else out.lookup a)
      (fun _ _ _ => False) := by
  induction parts generalizing out world with
  | nil => simp [readChunks]
  | cons chunk rest ih =>
      rw [List.flatten_cons] at hheld ⊢
      simp only [readChunks, callBalanceChunk, meets_bind, meets_aggregate3,
        meets_liftRpc, meets_ofExcept]
      intro answer after hanswer
      have hanswers := hreplies _ _ ⟨world, after, hanswer⟩
      rcases decodePairs_map (fun a ha => hheld a (List.mem_append_left _ ha))
        out with ⟨out', hout', hlookup⟩
      have hinsert : insertBalanceResults out chunk
          ((balanceCalls chunk).map reply) = .ok out' := by
        unfold insertBalanceResults ensureResultCount
        rw [if_pos (by rw [List.length_map, length_balanceCalls]),
          pairs_map_balanceCalls, zip_map_self]
        exact hout'
      rw [hanswers]
      constructor
      · intro results hresults
        cases hresults
        rw [hinsert]
        constructor
        · intro out₁ hout₁
          cases hout₁
          apply meets_mono (ih fun a ha => hheld a (List.mem_append_right _ ha))
          · intro final readings s' hread
            refine ⟨hread.1, fun a => ?_⟩
            rw [hread.2, hlookup]
            by_cases hchunk : a ∈ chunk
            · simp [hchunk]
            · simp [hchunk]
          · intro _ _ _ hfalse
            exact hfalse
        · intro failure hfailure
          cases hfailure
      · intro e he
        cases he

/-- Every chunk is asked for once and in order, and the first answer that is
not complete ends the read. -/
theorem meets_readChunks_record {parts : List (List Address)}
    {out : HashMap Address Reading}
    {record : MulticallRecord} :
    Meets (env.observed noteMulticall) (readChunks block out parts)
      (world, record) s
      (fun final _ s' => s' = s ∧ ∃ asked, final.2 = record ++ asked ∧
        asked.map Prod.fst = parts.map balanceCalls ∧
        ∀ m ∈ asked, Complete m.1 m.2)
      (fun final failure s' => Untouched s failure s' ∧
        ∃ asked, final.2 = record ++ asked ∧ ∃ m ∈ asked, ¬ Complete m.1 m.2) := by
  induction parts generalizing out world record with
  | nil => exact ⟨rfl, [], by simp⟩
  | cons chunk rest ih =>
      simp only [readChunks, callBalanceChunk, meets_bind, meets_aggregate3,
        meets_liftRpc, meets_ofExcept]
      intro (answer : Except RpcError (List CallResult)) after hanswer
      have hrecord : after.2 = record ++ [(balanceCalls chunk, answer)] :=
        hanswer.2
      constructor
      · intro results hresults
        rw [hresults] at hrecord
        constructor
        · intro out' hout'
          have hcomplete := insertBalanceResults_ok_iff.mp ⟨out', hout'⟩
          rcases after with ⟨after, record'⟩
          change record' = _ at hrecord
          apply meets_mono ih
          · intro final readings s' hread
            rcases hread with ⟨hs', asked, hfinal, hcalls, hall⟩
            refine ⟨hs', (balanceCalls chunk, .ok results) :: asked, ?_, ?_, ?_⟩
            · rw [hfinal, hrecord, List.append_assoc, List.singleton_append]
            · rw [List.map_cons, hcalls, List.map_cons]
            · exact List.forall_mem_cons.mpr ⟨hcomplete, hall⟩
          · intro final failure s' hfailed
            rcases hfailed with ⟨huntouched, asked, hfinal, m, hm, hbad⟩
            refine ⟨huntouched, (balanceCalls chunk, .ok results) :: asked, ?_,
              m, List.mem_cons_of_mem _ hm, hbad⟩
            rw [hfinal, hrecord, List.append_assoc, List.singleton_append]
        · intro failure hfailure
          refine ⟨⟨rfl, insertBalanceResults_error hfailure⟩, _, hrecord, _,
            List.mem_singleton_self _, ?_⟩
          intro hcomplete
          rcases insertBalanceResults_ok_iff.mpr hcomplete with ⟨out', hout'⟩
          rw [hout'] at hfailure
          cases hfailure
      · intro e he
        rw [he] at hrecord
        exact ⟨⟨rfl, _, rfl⟩, _, hrecord, _, List.mem_singleton_self _, id⟩

end Rules

/-- The read returned, for exactly these addresses, what each holds. -/
def ReadsExactly (addrs : List Address) (usdt usdc : Address → U128)
    (s : Process) (outcome : Except Failure (HashMap Address Reading))
    (s' : Process) : Prop :=
  s' = s ∧ ∃ readings, outcome = .ok readings ∧
    (∀ a, a ∈ readings ↔ a ∈ addrs) ∧
    ∀ a ∈ addrs, readings.lookup a = some ⟨usdt a, usdc a⟩

/-- A batched read is the single reads of its addresses, however they are cut,
and it ends with an error exactly when some multicall fails or some result is
missing or does not decode. -/
theorem read_balances_eq_single_reads {ω : Type}
    {env : Environment Request Answer ω} {world final : ω} {s s' : Process}
    {addrs : List Address} {block : ℕ}
    {outcome : Except Failure (HashMap Address Reading)} :
    (∀ reply usdt usdc, RepliesEach env block reply →
      (∀ a ∈ addrs, (reply (balanceCall USDT a)).Holds (usdt a) ∧
        (reply (balanceCall USDC a)).Holds (usdc a)) →
      ((readBalances addrs block).Runs env world s final outcome s' →
        ReadsExactly addrs usdt usdc s outcome s') ∧
      ∀ parts, parts.flatten = addrs →
        (readChunks block ∅ parts).Runs env world s final outcome s' →
          ReadsExactly addrs usdt usdc s outcome s') ∧
    ∀ record, (readBalances addrs block).Runs (env.observed noteMulticall)
        (world, []) s (final, record) outcome s' →
      s' = s ∧ match outcome with
        | .ok _ =>
            record.map Prod.fst =
                (chunks addressesPerMulticall addrs.length addrs).map
                  balanceCalls ∧
              ∀ m ∈ record, Complete m.1 m.2
        | .error failure =>
            (∃ contexts, failure = .err contexts) ∧
              ∃ m ∈ record, ¬ Complete m.1 m.2 := by
  constructor
  · intro reply usdt usdc hreplies hheld
    have hparts : ∀ parts : List (List Address), parts.flatten = addrs →
        (readChunks block ∅ parts).Runs env world s final outcome s' →
          ReadsExactly addrs usdt usdc s outcome s' := by
      intro parts hflatten hrun
      have hmeets : Meets env (readChunks block ∅ parts) world s
          (fun _ readings s' => s' = s ∧ ∀ a, readings.lookup a =
            if a ∈ parts.flatten then some (⟨usdt a, usdc a⟩ : Reading)
            else AList.lookup a (∅ : HashMap Address Reading))
          (fun _ _ _ => False) := by
        apply meets_readChunks_each hreplies
        intro a ha
        rw [hflatten] at ha
        exact ⟨(hheld a ha).1.decodeBalance, (hheld a ha).2.decodeBalance⟩
      cases outcome with
      | ok readings =>
          rcases hmeets.of_ok hrun with ⟨hs', hlookup⟩
          rw [hflatten] at hlookup
          refine ⟨hs', readings, rfl, ?_, ?_⟩
          · intro a
            rw [← AList.lookup_isSome, hlookup]
            by_cases ha : a ∈ addrs
            · simp [ha]
            · simp [ha]
          · intro a ha
            rw [hlookup, if_pos ha]
      | error failure => exact (hmeets.of_error hrun).elim
    exact ⟨hparts _ (mem_flatten_chunks (by decide) le_rfl), hparts⟩
  · intro record hrun
    cases outcome with
    | ok readings =>
        rcases meets_readChunks_record.of_ok hrun with ⟨hs', asked, hasked, hall⟩
        rw [List.nil_append] at hasked
        change record = asked at hasked
        rw [hasked]
        exact ⟨hs', hall⟩
    | error failure =>
        rcases meets_readChunks_record.of_error hrun with
          ⟨⟨hs', herr⟩, asked, hasked, hbad⟩
        rw [List.nil_append] at hasked
        change record = asked at hasked
        rw [hasked]
        exact ⟨hs', herr, hbad⟩

/-! ### Three addresses, one of them twice -/

namespace ThreeHolders

def holders : List Address :=
  [FixedBytes.filled 20 1, FixedBytes.filled 20 2, FixedBytes.filled 20 1]

/-- Every address holds 5 USDT. -/
def chain : Chain :=
  Chain.sketch (fun _ => []) (fun _ _ => 5) (fun _ => 0)

theorem balance_lt (token a : Address) (b : ℕ) :
    chain.balance token a b < 2 ^ 256 :=
  Chain.sketch_balance_lt (fun _ _ => by decide) token a b

def start : Process :=
  Process.launched (BalanceMap.new 0)

/-- One result too few, or every result. -/
def respond (short : Bool) (world : Unit) (q : Request) : Answer q × Unit :=
  match q with
  | .aggregate3 _ calls block =>
      (Except.ok (if short then (calls.map (chain.reply block)).drop 1
        else calls.map (chain.reply block)), ())
  | q => chain.respond 9 1 world q

def read (short : Bool) :
    (Except Failure (HashMap Address Reading) × Process) ×
      (Unit × MulticallRecord) :=
  (readBalances holders 7).exec (noted (respond short) noteMulticall) ((), [])
    start

theorem repliesEach :
    RepliesEach (.answering (respond false)) 7 (chain.reply 7) := by
  intro calls answer hgives
  rcases hgives with ⟨world, after, hanswer⟩
  exact (Prod.mk.inj hanswer).1.symm

theorem holds_reply (a : Address) :
    (chain.reply 7 (balanceCall USDT a)).Holds 5 ∧
      (chain.reply 7 (balanceCall USDC a)).Holds 0 := by
  have husdt := chain.replies_reply balance_lt 7 (balanceCall USDT a) a rfl
  have husdc := chain.replies_reply balance_lt 7 (balanceCall USDC a) a rfl
  exact ⟨⟨husdt.1, husdt.2.1, husdt.2.2⟩, ⟨husdc.1, husdc.2.1, husdc.2.2⟩⟩

/-- Each of them is read as holding 5 USDT, and with a result missing the read
fails. -/
theorem read_balances_eq_single_reads_three :
    ReadsExactly holders (fun _ => 5) (fun _ => 0) start
      ((readBalances holders 7).exec (respond false) () start).1.1
      ((readBalances holders 7).exec (respond false) () start).1.2 ∧
    (∃ m ∈ (read true).2.2, ¬ Complete m.1 m.2) := by
  constructor
  · exact (read_balances_eq_single_reads.1 (chain.reply 7) (fun _ => 5)
      (fun _ => 0) repliesEach (fun a _ => holds_reply a)).1
      (runs_answering (respond false) _ () start rfl)
  · have herror : (read true).1.1 = .error
        (.err ["multicall returned 5 results for 6 calls"]) := by
      decide +kernel
    have hrun : (readBalances holders 7).Runs
        ((Environment.answering (respond true)).observed noteMulticall)
        ((), []) start ((), (read true).2.2) _ (read true).1.2 :=
      runs_exec_noted id (readBalances holders 7) () [] start
        (fun _ _ => rfl) herror
    exact (read_balances_eq_single_reads.2 _ hrun).2.2

end ThreeHolders

end UsdtPir
