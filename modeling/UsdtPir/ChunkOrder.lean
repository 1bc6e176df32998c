import Mathlib.Data.Set.Basic
import UsdtPir.MulticallReads
import UsdtPir.RangeTallies

/-!
# The order of the logs of a chunk

Two hash maps iterate in an order of their own between the logs and the map,
and the calls of a multicall depend on it.  What a range does to an address is
decided by the logs that name it and by the provider's answers to its own two
calls, so a range ends in the same map however its logs are ordered and
repeated and however the hash maps iterate.
-/

namespace UsdtPir

open Interaction
open Program

/-! ## Readings in another order -/

section Rows

variable {touched touched' : HashMap Address Touch}
    {acc acc' : BalanceMap × ApplyOutputs} {rows rows' : List (Address × Reading)}

/-- Both collected the same touch for every address. -/
def SameTouches (touched touched' : HashMap Address Touch) : Prop :=
  ∀ a, (touched.lookup a).getD default = (touched'.lookup a).getD default

theorem SameTouches.syncApplication (h : SameTouches touched touched') :
    syncApplication touched = UsdtPir.syncApplication touched' := by
  funext row
  simp only [UsdtPir.syncApplication, h row.1]

theorem SameTouches.rowApplied (h : SameTouches touched touched')
    (map : BalanceMap) : rowApplied map touched = UsdtPir.rowApplied map touched' := by
  funext row
  simp only [UsdtPir.rowApplied, h row.1]

theorem length_readingsOf_le (a : Address)
    (hnodup : (rows.map Prod.fst).Nodup) :
    (readingsOf a (rows.map (syncApplication touched))).length ≤ 1 := by
  induction rows with
  | nil => exact Nat.zero_le 1
  | cons row rest ih =>
      rw [List.map_cons, List.nodup_cons] at hnodup
      by_cases ha : row.1 = a
      · have hnone : readingsOf a (rest.map (syncApplication touched)) = [] := by
          simp only [readingsOf, List.map_eq_nil_iff, List.filter_eq_nil_iff,
            List.mem_map, decide_eq_true_eq]
          intro x hx haddr
          rcases hx with ⟨other, hother, rfl⟩
          apply hnodup.1
          rw [ha, ← haddr]
          exact List.mem_map_of_mem hother
        have hone : readingsOf a ((row :: rest).map (syncApplication touched)) =
            (row.2, (touched.lookup row.1).getD default) ::
              readingsOf a (rest.map (syncApplication touched)) := by
          simp [readingsOf, syncApplication, ha]
        rw [hone, hnone]
        exact le_rfl
      · have hskip : readingsOf a ((row :: rest).map (syncApplication touched)) =
            readingsOf a (rest.map (syncApplication touched)) := by
          simp [readingsOf, syncApplication, ha]
        rw [hskip]
        exact ih hnodup.2

theorem readingsOf_perm (hperm : rows.Perm rows')
    (hnodup : (rows.map Prod.fst).Nodup) (a : Address) :
    readingsOf a (rows.map (syncApplication touched)) =
      readingsOf a (rows'.map (syncApplication touched)) := by
  have hreadings : (readingsOf a (rows.map (syncApplication touched))).Perm
      (readingsOf a (rows'.map (syncApplication touched))) :=
    ((hperm.map _).filter _).map _
  have hshort : (readingsOf a (rows.map (syncApplication touched))).length ≤ 1 :=
    length_readingsOf_le a hnodup
  match hlist : readingsOf a (rows.map (syncApplication touched)), hshort with
  | [], _ =>
      rw [hlist] at hreadings
      exact hreadings.nil_eq
  | [x], _ =>
      rw [hlist] at hreadings
      exact (List.perm_singleton.mp hreadings.symm).symm

theorem foldl_count_logs (stats : BatchStats) (n : ℕ) (counted : List Applied) :
    counted.foldl BatchStats.count { stats with logs := n } =
      { counted.foldl BatchStats.count stats with logs := n } := by
  induction counted generalizing stats with
  | nil => rfl
  | cons applied rest ih =>
      rw [List.foldl_cons, List.foldl_cons, ← ih]
      cases applied <;> rfl

theorem applyReadings_cursor (h : applyReadings touched rows acc = some acc') :
    acc'.1.cursor = acc.1.cursor := by
  induction rows generalizing acc with
  | nil =>
      simp only [applyReadings, Option.some.injEq] at h
      rw [h]
  | cons row rest ih =>
      simp only [applyReadings, Option.bind_eq_bind,
        Option.bind_eq_some_iff] at h
      rcases h with ⟨middle, hrow, hrest⟩
      rcases applyReading_eq_some hrow with ⟨applied, happly, -⟩
      rw [ih hrest]
      rcases BalanceMap.apply_cases happly with ⟨e, -, -, -, hmap⟩ |
        ⟨e, -, -, -, hmap⟩ | ⟨-, -, -, hmap⟩ | ⟨-, -, -, hmap⟩
      · rw [hmap]
      · rw [hmap]
      · rw [hmap]
      · rw [hmap]

/-- Whether a reading panics depends on the entry of its own address. -/
theorem BalanceMap.apply_none_congr {map map' : BalanceMap} {addr : Address}
    (h : map.get addr = map'.get addr) (r : Reading) (seen : Touch) :
    map.apply addr r seen = none ↔ map'.apply addr r seen = none := by
  unfold BalanceMap.apply
  rw [h]
  cases map'.get addr with
  | some e =>
      cases hexisting : applyExisting e r seen with
      | none => simp only [hexisting, Option.bind_eq_bind, Option.bind_none]
      | some applied =>
          simp only [hexisting, Option.bind_eq_bind, Option.bind_some]
          split
          · simp
          · simp
  | none =>
      simp only [BalanceMap.insertNew]
      split
      · simp
      · cases hnew : newEntry r seen with
        | none => exact Iff.rfl
        | some e => simp

theorem applyReading_eq_none {row : Address × Reading} :
    applyReading touched acc row = none ↔
      acc.1.apply row.1 row.2 ((touched.lookup row.1).getD default) = none := by
  unfold applyReading
  cases happly : acc.1.apply row.1 row.2
      ((touched.lookup row.1).getD default) with
  | none => simp [happly]
  | some applied => simp [happly]

/-- A range panics exactly when one of its readings would by itself. -/
theorem applyReadings_eq_none (hnodup : (rows.map Prod.fst).Nodup) :
    applyReadings touched rows acc = none ↔
      ∃ row ∈ rows, acc.1.apply row.1 row.2
        ((touched.lookup row.1).getD default) = none := by
  induction rows generalizing acc with
  | nil => simp [applyReadings]
  | cons row rest ih =>
      rw [List.map_cons, List.nodup_cons] at hnodup
      rw [List.exists_mem_cons_iff, ← applyReading_eq_none]
      cases hrow : applyReading touched acc row with
      | none => simp [applyReadings, hrow]
      | some middle =>
          have hrest : applyReadings touched (row :: rest) acc =
              applyReadings touched rest middle := by
            simp [applyReadings, hrow]
          rw [hrest, ih hnodup.2]
          have hsame : ∀ other ∈ rest,
              (middle.1.apply other.1 other.2
                  ((touched.lookup other.1).getD default) = none ↔
                acc.1.apply other.1 other.2
                  ((touched.lookup other.1).getD default) = none) := by
            intro other hother
            have hne : other.1 ≠ row.1 :=
              ne_of_mem_of_not_mem (List.mem_map_of_mem hother) hnodup.1
            have hcell := cellAt_applyReading_ne hrow hne
            exact BalanceMap.apply_none_congr
              (congrArg Journal.Cell.current hcell) other.2 _
          constructor
          · intro hsome
            rcases hsome with ⟨other, hother, hnone⟩
            exact .inr ⟨other, hother, (hsame other hother).mp hnone⟩
          · intro hsome
            rcases hsome with hfirst | ⟨other, hother, hnone⟩
            · cases hfirst
            · exact ⟨other, hother, (hsame other hother).mpr hnone⟩

/-- The same readings in another order, with the same touches, end in the same
cells and the same counts. -/
theorem applyReadings_perm {map : BalanceMap} {inserted : HashSet Address}
    {changed : HashMap Address Entry} {stats : BatchStats} {n n' : ℕ}
    (h : applyReadings touched rows
      (map, ⟨inserted, changed, { stats with logs := n }⟩) = some acc)
    (h' : applyReadings touched' rows'
      (map, ⟨inserted, changed, { stats with logs := n' }⟩) = some acc')
    (hperm : rows.Perm rows') (hnodup : (rows.map Prod.fst).Nodup)
    (htouches : SameTouches touched touched') :
    (∀ a, cellAt acc a = cellAt acc' a) ∧
      { acc.2.stats with logs := 0 } = { acc'.2.stats with logs := 0 } := by
  have hnodup' : (rows'.map Prod.fst).Nodup :=
    (hperm.map Prod.fst).nodup_iff.mp hnodup
  constructor
  · intro a
    rw [cellAt_applyReadings h, cellAt_applyReadings h',
      readingsOf_perm hperm hnodup, htouches.syncApplication]
    rfl
  · rw [applyReadings_stats h hnodup, applyReadings_stats h' hnodup',
      ← foldl_count_logs, ← foldl_count_logs, htouches.rowApplied]
    apply (hperm.map _).foldl_eq'
    intro a _ b _ counted
    exact counted.count_comm a b

end Rows

/-! ## A provider that answers every call by itself -/

/-- The owner is told by the block, a batch of calls is answered call by call,
and a refused batch holds a call that is refused. -/
structure Consistent {ω : Type} (env : Environment Request Answer ω) (at_ : ℕ)
    (owner : ℕ → Except RpcError Address)
    (reply : Call3 → Except RpcError CallResult) : Prop where
  owned : ∀ block (answer : Except RpcError Address),
    env.Gives (.owner USDT block) answer → answer = owner block
  served : ∀ calls (results : List CallResult),
    env.Gives (.aggregate3 MULTICALL3 calls at_)
        (Except.ok results : Except RpcError (List CallResult)) →
      List.Forall₂ (fun call r => reply call = .ok r) calls results
  refused : ∀ calls (e : RpcError),
    env.Gives (.aggregate3 MULTICALL3 calls at_)
        (Except.error e : Except RpcError (List CallResult)) →
      ∃ call ∈ calls, ∃ e', reply call = .error e'

/-- The answers to the two calls of an address decode to this reading. -/
def RepliesDecode (reply : Call3 → Except RpcError CallResult) (a : Address)
    (r : Reading) : Prop :=
  ∃ first second, reply (balanceCall USDT a) = .ok first ∧
    reply (balanceCall USDC a) = .ok second ∧ DecodesTo (first, second) r

theorem RepliesDecode.unique {reply : Call3 → Except RpcError CallResult}
    {a : Address} {r r' : Reading} (h : RepliesDecode reply a r)
    (h' : RepliesDecode reply a r') : r = r' := by
  rcases h with ⟨first, second, hfirst, hsecond, husdt, husdc⟩
  rcases h' with ⟨first', second', hfirst', hsecond', husdt', husdc'⟩
  rw [hfirst, Except.ok.injEq] at hfirst'
  rw [hsecond, Except.ok.injEq] at hsecond'
  rw [← hfirst', husdt, Except.ok.injEq] at husdt'
  rw [← hsecond', husdc, Except.ok.injEq] at husdc'
  cases r
  cases r'
  exact (Reading.mk.injEq _ _ _ _).mpr ⟨husdt', husdc'⟩

/-- The results of a chunk stand in the places of its addresses. -/
theorem repliesDecode_of_mem {reply : Call3 → Except RpcError CallResult}
    {chunk : List Address} {results : List CallResult}
    (hserved : List.Forall₂ (fun call r => reply call = .ok r)
      (balanceCalls chunk) results)
    {a : Address} {replies : CallResult × CallResult}
    (hmem : (a, replies) ∈ chunk.zip (pairs results)) :
    reply (balanceCall USDT a) = .ok replies.1 ∧
      reply (balanceCall USDC a) = .ok replies.2 := by
  induction chunk generalizing results with
  | nil => simp at hmem
  | cons b rest ih =>
      rw [balanceCalls_cons] at hserved
      cases hserved with
      | cons hfirst htail =>
          cases htail with
          | cons hsecond hrest =>
              rw [pairs, List.zip_cons_cons, List.mem_cons] at hmem
              rcases hmem with heq | hmem
              · cases heq
                exact ⟨hfirst, hsecond⟩
              · exact ih hrest hmem

theorem mem_balanceCalls {chunk : List Address} {call : Call3}
    (h : call ∈ balanceCalls chunk) :
    ∃ a ∈ chunk, call = balanceCall USDT a ∨ call = balanceCall USDC a := by
  induction chunk with
  | nil => cases h
  | cons b rest ih =>
      rw [balanceCalls_cons, List.mem_cons, List.mem_cons] at h
      rcases h with h | h | h
      · exact ⟨b, List.mem_cons_self, .inl h⟩
      · exact ⟨b, List.mem_cons_self, .inr h⟩
      · rcases ih h with ⟨a, ha, hcall⟩
        exact ⟨a, List.mem_cons_of_mem _ ha, hcall⟩

/-- A call of a chunk that is refused or does not decode leaves its address
without a reading. -/
theorem not_decode_of_call {reply : Call3 → Except RpcError CallResult}
    {chunk : List Address} {call : Call3} (hcall : call ∈ balanceCalls chunk)
    (hbad : ∀ result, reply call = .ok result → ¬ result.Decodes) :
    ∃ a ∈ chunk, ∀ r, ¬ RepliesDecode reply a r := by
  rcases mem_balanceCalls hcall with ⟨a, ha, htoken⟩
  refine ⟨a, ha, ?_⟩
  intro r hdecode
  rcases hdecode with ⟨first, second, hfirst, hsecond, husdt, husdc⟩
  rcases htoken with rfl | rfl
  · exact hbad first hfirst (decodes_iff.mpr ⟨_, husdt⟩)
  · exact hbad second hsecond (decodes_iff.mpr ⟨_, husdc⟩)

section Provider

variable {ω : Type} {env : Environment Request Answer ω} {world : ω}
    {s : Process} {at_ : ℕ} {owner : ℕ → Except RpcError Address}
    {reply : Call3 → Except RpcError CallResult}

theorem Consistent.decode_of_answered (h : Consistent env at_ owner reply)
    {a : Address} {r : Reading} (hanswered : Answered env.Gives at_ a r) :
    RepliesDecode reply a r := by
  rcases hanswered with ⟨chunk, results, replies, hgives, -, hmem, hdecodes⟩
  have hreplies := repliesDecode_of_mem (h.served _ _ hgives) hmem
  exact ⟨replies.1, replies.2, hreplies.1, hreplies.2, hdecodes⟩

/-- A read fails only when an address has no reading. -/
theorem Consistent.meets_readChunks (h : Consistent env at_ owner reply)
    {parts : List (List Address)} {out : HashMap Address Reading} :
    Meets env (readChunks at_ out parts) world s (fun _ _ _ => True)
      (fun _ failure _ => (∃ contexts, failure = .err contexts) ∧
        ∃ a ∈ parts.flatten, ∀ r, ¬ RepliesDecode reply a r) := by
  induction parts generalizing out world with
  | nil => trivial
  | cons chunk rest ih =>
      simp only [readChunks, callBalanceChunk, meets_bind, meets_aggregate3,
        meets_liftRpc, meets_ofExcept]
      intro answer after hanswer
      have hchunk : ∀ {call : Call3}, call ∈ balanceCalls chunk →
          (∀ result, reply call = .ok result → ¬ result.Decodes) →
          ∃ a ∈ (chunk :: rest).flatten, ∀ r, ¬ RepliesDecode reply a r := by
        intro call hcall hbad
        rcases not_decode_of_call hcall hbad with ⟨a, ha, hnone⟩
        rw [List.flatten_cons]
        exact ⟨a, List.mem_append_left _ ha, hnone⟩
      constructor
      · intro results hresults
        rw [hresults] at hanswer
        have hserved := h.served _ _ ⟨world, after, hanswer⟩
        constructor
        · intro out' _
          apply meets_mono ih
          · intro _ _ _ _
            trivial
          · intro final failure s' hfailed
            rcases hfailed with ⟨hfailure, a, ha, hnone⟩
            rw [List.flatten_cons]
            exact ⟨hfailure, a, List.mem_append_right _ ha, hnone⟩
        · intro failure hfailure
          refine ⟨insertBalanceResults_error hfailure, ?_⟩
          by_contra hall
          have hcomplete : Complete (balanceCalls chunk) (.ok results) := by
            refine ⟨hserved.length_eq.symm, ?_⟩
            intro result hresult
            by_contra hbad
            rcases List.getElem_of_mem hresult with ⟨i, hi, hget⟩
            have hi' : i < (balanceCalls chunk).length := by
              rw [hserved.length_eq]
              exact hi
            have hreply := hserved.get hi' hi
            apply hall
            apply hchunk (List.get_mem _ ⟨i, hi'⟩)
            intro other hother
            rw [hreply, Except.ok.injEq] at hother
            rw [← hother, List.get_eq_getElem, hget]
            exact hbad
          rcases insertBalanceResults_ok_iff.mpr hcomplete with ⟨out', hout'⟩
          rw [hout'] at hfailure
          cases hfailure
      · intro e he
        rw [he] at hanswer
        rcases h.refused _ _ ⟨world, after, hanswer⟩ with ⟨call, hcall, e', he'⟩
        refine ⟨⟨_, rfl⟩, hchunk hcall ?_⟩
        intro result hresult
        rw [he'] at hresult
        cases hresult

/-! ## What the logs decide -/

/-- The addresses a range of logs touches. -/
def Touches (logs : Set Log) (owner : ℕ → Except RpcError Address)
    (a : Address) : Prop :=
  (∃ log ∈ logs, a ∈ namedBy log) ∨
    ∃ log ∈ logs, isSupplyEvent log = true ∧
      ∃ block, log.blockNumber = some block ∧ owner block = .ok a

/-- The sightings of a range of logs, those of the owners included. -/
def SeenBy (logs : Set Log) (owner : ℕ → Except RpcError Address) :
    Sightings :=
  fun a token b => (∃ log ∈ logs, log.Shows a token b) ∨
    (token = USDT ∧ owner b = .ok a ∧
      ∃ log ∈ logs, isSupplyEvent log = true ∧ log.blockNumber = some b)

/-- Every owner is told and every touched address has a reading. -/
structure Answerable (logs : Set Log) (owner : ℕ → Except RpcError Address)
    (reply : Call3 → Except RpcError CallResult) : Prop where
  owners : ∀ log ∈ logs, isSupplyEvent log = true →
    ∀ block, log.blockNumber = some block → ∃ a, owner block = .ok a
  readings : ∀ a, Touches logs owner a → ∃ r, RepliesDecode reply a r

/-- Some address was last seen in a block that no longer fits its stamp. -/
def Overgrown (logs : Set Log) (owner : ℕ → Except RpcError Address)
    (reply : Call3 → Except RpcError CallResult) (map : BalanceMap) : Prop :=
  ∃ a r seen, Touches logs owner a ∧ RepliesDecode reply a r ∧
    IsLast (SeenBy logs owner a USDT) seen.usdt ∧
    IsLast (SeenBy logs owner a USDC) seen.usdc ∧
    map.apply a r seen = none

variable {logs : List Log} {touched : HashMap Address Touch}

theorem Consistent.owner_told (h : Consistent env at_ owner reply)
    (hcollects : Collects env.Gives logs touched) {log : Log}
    (hlog : log ∈ logs) (hsupply : isSupplyEvent log = true) {block : ℕ}
    (hblock : log.blockNumber = some block) :
    ∃ a ∈ touched, owner block = .ok a := by
  rcases hcollects.owners log hlog hsupply block hblock with ⟨a, ha, hgives⟩
  exact ⟨a, ha, (h.owned block _ hgives).symm⟩

theorem Consistent.mem_touched (h : Consistent env at_ owner reply)
    (hcollects : Collects env.Gives logs touched) (a : Address) :
    a ∈ touched ↔ Touches {log | log ∈ logs} owner a := by
  constructor
  · intro ha
    rcases hcollects.only a ha with hnamed | howner
    · exact .inl hnamed
    · rcases howner with ⟨log, hlog, block, hsupply, hblock, hgives⟩
      exact .inr ⟨log, hlog, hsupply, block, hblock, (h.owned block _ hgives).symm⟩
  · intro htouches
    rcases htouches with hnamed | howner
    · rcases hnamed with ⟨log, hlog, ha⟩
      exact hcollects.named log hlog a ha
    · rcases howner with ⟨log, hlog, hsupply, block, hblock, howner⟩
      rcases h.owner_told hcollects hlog hsupply hblock with ⟨b, hb, hsame⟩
      rw [howner, Except.ok.injEq] at hsame
      rw [hsame]
      exact hb

theorem Consistent.lastSeen (h : Consistent env at_ owner reply)
    (hcollects : Collects env.Gives logs touched) :
    LastSeen (SeenBy {log | log ∈ logs} owner) touched := by
  rcases hcollects.stamps with ⟨named, hnamed, hlast⟩
  apply hlast.congr
  intro a token b
  have howner : (∃ log ∈ logs, isSupplyEvent log = true ∧
      log.blockNumber = some b) → owner b = .ok (named b) := by
    intro hlogs
    rcases hlogs with ⟨log, hlog, hsupply, hblock⟩
    exact (h.owned b _ (hnamed log hlog hsupply b hblock)).symm
  constructor
  · intro hsees
    rcases hsees with hshown | ⟨htoken, ha, hlogs⟩
    · exact .inl hshown
    · exact .inr ⟨htoken, by rw [ha]; exact howner hlogs, hlogs⟩
  · intro hseen
    rcases hseen with hshown | ⟨htoken, ha, hlogs⟩
    · exact .inl hshown
    · rw [howner hlogs, Except.ok.injEq] at ha
      exact .inr ⟨htoken, ha.symm, hlogs⟩

/-- The owner is asked for until one is not told. -/
theorem Consistent.meets_addUsdtOwnerTouches
    (h : Consistent env at_ owner reply) {blocks : List ℕ}
    {out : HashMap Address Touch} :
    Meets env (addUsdtOwnerTouches out blocks) world s (fun _ _ _ => True)
      (fun _ failure _ => (∃ contexts, failure = .err contexts) ∧
        ∃ block ∈ blocks, ∀ a, owner block ≠ .ok a) := by
  induction blocks generalizing out world with
  | nil => trivial
  | cons block rest ih =>
      simp only [addUsdtOwnerTouches, usdtOwner, meets_bind, meets_owner,
        meets_liftRpc]
      intro answer after hanswer
      constructor
      · intro a ha
        apply meets_mono ih
        · intro _ _ _ _
          trivial
        · intro final failure s' hfailed
          rcases hfailed with ⟨hfailure, b, hb, hnone⟩
          exact ⟨hfailure, b, List.mem_cons_of_mem _ hb, hnone⟩
      · intro e he
        rw [he] at hanswer
        have howner := h.owned block _ ⟨world, after, hanswer⟩
        refine ⟨⟨_, rfl⟩, block, List.mem_cons_self, ?_⟩
        intro a ha
        rw [← howner] at ha
        cases ha

theorem Consistent.meets_collectAddresses
    (h : Consistent env at_ owner reply) :
    Meets env (collectAddresses logs) world s
      (fun _ touched s' => s' = s ∧ Collects env.Gives logs touched)
      (fun _ failure s' => s' = s ∧ (∃ contexts, failure = .err contexts) ∧
        ¬ Answerable {log | log ∈ logs} owner reply) := by
  have hfails : Meets env (collectAddresses logs) world s (fun _ _ _ => True)
      (fun _ failure _ => (∃ contexts, failure = .err contexts) ∧
        ∃ block ∈ (collectTouched logs ∅).collected.usdtSupplyBlocks,
          ∀ a, owner block ≠ .ok a) :=
    h.meets_addUsdtOwnerTouches
  apply meets_mono ((UsdtPir.meets_collectAddresses env.keeps_gives).and hfails)
  · intro final touched s' hdone
    exact hdone.1
  · intro final failure s' hfailed
    rcases hfailed with ⟨⟨hs', -⟩, hfailure, block, hblock, hnone⟩
    refine ⟨hs', hfailure, ?_⟩
    intro hanswerable
    rcases mem_collectTouched_usdtSupplyBlocks.mp hblock with
      ⟨log, hlog, hsupply, hnumber⟩
    rcases hanswerable.owners log hlog hsupply block hnumber with ⟨a, ha⟩
    exact hnone a ha

section Rows

variable {rows : List (Address × Reading)}

/-- A range whose touched addresses all have a row is answerable. -/
theorem Consistent.answerable (h : Consistent env at_ owner reply)
    (hcollects : Collects env.Gives logs touched)
    (hrow : ∀ a, Touches {log | log ∈ logs} owner a → a ∈ rows.map Prod.fst)
    (hdecode : ∀ row ∈ rows, RepliesDecode reply row.1 row.2) :
    Answerable {log | log ∈ logs} owner reply := by
  constructor
  · intro log hlog hsupply block hblock
    rcases h.owner_told hcollects hlog hsupply hblock with ⟨a, -, ha⟩
    exact ⟨a, ha⟩
  · intro a ha
    rcases List.mem_map.mp (hrow a ha) with ⟨row, hmem, rfl⟩
    exact ⟨row.2, hdecode row hmem⟩

/-- The last sightings outgrow a stamp when they do in some row. -/
theorem Consistent.overgrown_iff (h : Consistent env at_ owner reply)
    (hcollects : Collects env.Gives logs touched)
    (hrow : ∀ a, a ∈ rows.map Prod.fst ↔ Touches {log | log ∈ logs} owner a)
    (hdecode : ∀ row ∈ rows, RepliesDecode reply row.1 row.2)
    (map : BalanceMap) :
    Overgrown {log | log ∈ logs} owner reply map ↔
      ∃ row ∈ rows,
        map.apply row.1 row.2 ((touched.lookup row.1).getD default) = none := by
  have hlast := h.lastSeen hcollects
  constructor
  · intro hover
    rcases hover with ⟨a, r, seen, ha, hr, husdt, husdc, hnone⟩
    rcases List.mem_map.mp ((hrow a).mpr ha) with ⟨row, hmem, rfl⟩
    have hreading : row.2 = r := (hdecode row hmem).unique hr
    have hseen : (touched.lookup row.1).getD default = seen := by
      have husdt' := (hlast row.1).1.unique husdt
      have husdc' := (hlast row.1).2.unique husdc
      cases seen
      exact Touch.ext husdt' husdc'
    exact ⟨row, hmem, by rw [hreading, hseen]; exact hnone⟩
  · intro hsome
    rcases hsome with ⟨row, hmem, hnone⟩
    exact ⟨row.1, row.2, _, (hrow row.1).mp (List.mem_map_of_mem hmem),
      hdecode row hmem, (hlast row.1).1, (hlast row.1).2, hnone⟩

end Rows

/-- How a range ends, decided by its logs as a set. -/
theorem Consistent.meets_applyRange (h : Consistent env at_ owner reply) :
    Meets env (applyRange logs at_) world s
      (fun _ _ _ => Answerable {log | log ∈ logs} owner reply ∧
        ¬ Overgrown {log | log ∈ logs} owner reply s.map)
      (fun _ failure s' => s' = s ∧
        (((∃ contexts, failure = .err contexts) ∧
            ¬ Answerable {log | log ∈ logs} owner reply) ∨
          (failure = outgrewU32 ∧ Answerable {log | log ∈ logs} owner reply ∧
            Overgrown {log | log ∈ logs} owner reply s.map))) := by
  unfold applyRange
  simp only [meets_bind]
  apply meets_mono h.meets_collectAddresses
  · intro middle touched s₁ hcollected
    rcases hcollected with ⟨hs₁, hcollects⟩
    rw [hs₁]
    have hmem := h.mem_touched hcollects
    by_cases hempty : touched.keys = []
    · rw [if_pos hempty, meets_pure]
      have hnobody : ∀ a, ¬ Touches {log | log ∈ logs} owner a := by
        intro a ha
        rw [← hmem, AList.mem_keys, hempty] at ha
        cases ha
      constructor
      · have hnone : ∀ row ∈ ([] : List (Address × Reading)),
            RepliesDecode reply row.1 row.2 := by simp
        exact h.answerable hcollects (fun a ha => (hnobody a ha).elim) hnone
      · intro hovergrown
        rcases hovergrown with ⟨a, r, seen, ha, -⟩
        exact hnobody a ha
    · rw [if_neg hempty]
      simp only [applyTouched, meets_bind, meets_order]
      intro order after _
      rcases order with ⟨addrs, hperm⟩
      have hflatten : (chunks addressesPerMulticall addrs.length addrs).flatten =
          addrs :=
        mem_flatten_chunks (by decide) le_rfl
      have haddrs : ∀ a, a ∈ addrs ↔ Touches {log | log ∈ logs} owner a := by
        intro a
        rw [hperm.mem_iff, ← AList.mem_keys, hmem]
      have hfails : Meets env (readBalances addrs at_) after s
          (fun _ _ _ => True) (fun _ failure _ =>
            (∃ contexts, failure = .err contexts) ∧
              ∃ a ∈ (chunks addressesPerMulticall addrs.length addrs).flatten,
                ∀ r, ¬ RepliesDecode reply a r) :=
        h.meets_readChunks
      apply meets_mono ((meets_readBalances env.keeps_gives).and hfails)
      · intro after' readings s₂ hread
        rcases hread with ⟨⟨hs₂, hkeys, htrue⟩, -⟩
        rw [hs₂]
        apply meets_iterate
        intro order _ after'' _ rows hrows
        simp only [meets_get]
        have hrow : ∀ a, a ∈ rows.map Prod.fst ↔
            Touches {log | log ∈ logs} owner a := by
          intro a
          rw [hrows.mem_keys, hkeys, haddrs]
        have hdecode : ∀ row ∈ rows, RepliesDecode reply row.1 row.2 := by
          intro row hmemrow
          exact h.decode_of_answered (htrue _ _ ((hrows.mem_iff _ _).mp hmemrow))
        have hanswerable : Answerable {log | log ∈ logs} owner reply :=
          h.answerable hcollects (fun a ha => (hrow a).mpr ha) hdecode
        have hovergrown := h.overgrown_iff hcollects hrow hdecode s.map
        split
        · rename_i hnone
          rw [meets_throw]
          have hpanics := (applyReadings_eq_none hrows.nodup).mp hnone
          exact ⟨rfl, .inr ⟨rfl, hanswerable, hovergrown.mpr hpanics⟩⟩
        · rename_i map out happlied
          simp only [meets_bind, meets_modify, meets_pure]
          refine ⟨hanswerable, ?_⟩
          intro hover
          have hpanics : applyReadings touched rows (s.map, ⟨s.inserted,
              s.changed, { (default : BatchStats) with
                logs := logs.length, touched := touched.keys.length }⟩) = none :=
            (applyReadings_eq_none hrows.nodup).mpr (hovergrown.mp hover)
          rw [happlied] at hpanics
          cases hpanics
      · intro final failure s' hfailed
        rcases hfailed with ⟨⟨hs', -⟩, hfailure, a, ha, hnone⟩
        rw [hflatten, haddrs] at ha
        refine ⟨hs', .inl ⟨hfailure, ?_⟩⟩
        intro hanswerable
        rcases hanswerable.readings a ha with ⟨r, hr⟩
        exact hnone r hr
  · intro final failure s' hfailed
    exact ⟨hfailed.1, .inl hfailed.2⟩

end Provider

/-! ## The same logs in another order -/

/-- Both ranges left the same map, the same side structures and the same
statistics but for the number of logs. -/
structure SameEnd (s₁ s₂ : Process) (result₁ result₂ : BatchStats × List Address) :
    Prop where
  map : ∀ a, s₁.map.get a = s₂.map.get a
  cursor : s₁.map.cursor = s₂.map.cursor
  inserted : ∀ a, a ∈ s₁.inserted ↔ a ∈ s₂.inserted
  changed : ∀ a, s₁.changed.lookup a = s₂.changed.lookup a
  touched : ∀ a, a ∈ result₁.2 ↔ a ∈ result₂.2
  stats : { result₁.1 with logs := 0 } = { result₂.1 with logs := 0 }

/-- Both ranges went through and left the same, or both failed in the same way
and left nothing. -/
def SameRange (s : Process) :
    Except Failure (BatchStats × List Address) → Process →
      Except Failure (BatchStats × List Address) → Process → Prop
  | .ok result₁, s₁, .ok result₂, s₂ => SameEnd s₁ s₂ result₁ result₂
  | .error failure₁, s₁, .error failure₂, s₂ => s₁ = s ∧ s₂ = s ∧
      ((∃ contexts, failure₁ = .err contexts) ↔
        ∃ contexts, failure₂ = .err contexts)
  | _, _, _, _ => False

section Same

variable {ω₁ ω₂ : Type} {env₁ : Environment Request Answer ω₁}
    {env₂ : Environment Request Answer ω₂} {s s₁ s₂ : Process}
    {at_ : ℕ} {logs₁ logs₂ : List Log} {owner : ℕ → Except RpcError Address}
    {reply : Call3 → Except RpcError CallResult}

/-- One provider has one reading for an address. -/
theorem mem_of_decode {rows rows' : List (Address × Reading)}
    (hkeys : ∀ a, a ∈ rows.map Prod.fst → a ∈ rows'.map Prod.fst)
    (hdecode : ∀ row ∈ rows, RepliesDecode reply row.1 row.2)
    (hdecode' : ∀ row ∈ rows', RepliesDecode reply row.1 row.2)
    {row : Address × Reading} (hrow : row ∈ rows) : row ∈ rows' := by
  rcases List.mem_map.mp (hkeys row.1 (List.mem_map_of_mem hrow)) with
    ⟨row', hrow', ha⟩
  have hread : RepliesDecode reply row.1 row'.2 := by
    rw [← ha]
    exact hdecode' row' hrow'
  have hsame : row' = row :=
    Prod.ext ha (hread.unique (hdecode row hrow))
  rw [← hsame]
  exact hrow'

theorem sameEnd_of_rangeApplied (hlogs : ∀ log, log ∈ logs₁ ↔ log ∈ logs₂)
    (h₁ : Consistent env₁ at_ owner reply) (h₂ : Consistent env₂ at_ owner reply)
    {result₁ result₂ : BatchStats × List Address}
    {touched₁ touched₂ : HashMap Address Touch}
    {rows₁ rows₂ : List (Address × Reading)}
    (hrange₁ : RangeApplied env₁.Gives logs₁ at_ s s₁ result₁.1 result₁.2
      touched₁ rows₁)
    (hrange₂ : RangeApplied env₂.Gives logs₂ at_ s s₂ result₂.1 result₂.2
      touched₂ rows₂) : SameEnd s₁ s₂ result₁ result₂ := by
  have hset : {log | log ∈ logs₁} = {log | log ∈ logs₂} := Set.ext hlogs
  have hmem : ∀ a, a ∈ touched₁ ↔ a ∈ touched₂ := by
    intro a
    rw [h₁.mem_touched hrange₁.collects, hset, h₂.mem_touched hrange₂.collects]
  have htouches : SameTouches touched₁ touched₂ := by
    intro a
    have hlast₁ := h₁.lastSeen hrange₁.collects a
    have hlast₂ := h₂.lastSeen hrange₂.collects a
    rw [hset] at hlast₁
    exact Touch.ext (hlast₁.1.unique hlast₂.1) (hlast₁.2.unique hlast₂.2)
  have hkeys : touched₁.keys.Perm touched₂.keys := by
    apply (List.perm_ext_iff_of_nodup touched₁.keys_nodup touched₂.keys_nodup).mpr
    intro a
    rw [← AList.mem_keys, ← AList.mem_keys, hmem]
  have hkey : ∀ a, a ∈ rows₁.map Prod.fst ↔ a ∈ rows₂.map Prod.fst := by
    intro a
    rw [hrange₁.keys, hrange₂.keys, hmem]
  have hdecode₁ : ∀ row ∈ rows₁, RepliesDecode reply row.1 row.2 :=
    fun row hrow => h₁.decode_of_answered (hrange₁.answered _ _ hrow)
  have hdecode₂ : ∀ row ∈ rows₂, RepliesDecode reply row.1 row.2 :=
    fun row hrow => h₂.decode_of_answered (hrange₂.answered _ _ hrow)
  have hperm : rows₁.Perm rows₂ := by
    apply (List.perm_ext_iff_of_nodup hrange₁.nodup.of_map hrange₂.nodup.of_map).mpr
    intro row
    constructor
    · exact mem_of_decode (fun a => (hkey a).mp) hdecode₁ hdecode₂
    · exact mem_of_decode (fun a => (hkey a).mpr) hdecode₂ hdecode₁
  rcases hrange₁.applied with ⟨out₁, happlied₁, hstats₁, hs₁⟩
  rcases hrange₂.applied with ⟨out₂, happlied₂, hstats₂, hs₂⟩
  rw [← hkeys.length_eq] at happlied₂
  have hstart : ∀ n, ({ (default : BatchStats) with
      logs := n, touched := touched₁.keys.length } : BatchStats) =
      { ({ (default : BatchStats) with touched := touched₁.keys.length } :
        BatchStats) with logs := n } :=
    fun _ => rfl
  rw [hstart] at happlied₁ happlied₂
  rcases applyReadings_perm happlied₁ happlied₂ hperm hrange₁.nodup htouches with
    ⟨hcells, hstats⟩
  constructor
  · intro a
    exact congrArg Journal.Cell.current (hcells a)
  · rw [applyReadings_cursor happlied₁, applyReadings_cursor happlied₂]
  · intro a
    have hfresh := congrArg Journal.Cell.fresh (hcells a)
    rw [hs₁, hs₂]
    exact decide_eq_decide.mp hfresh
  · intro a
    have hentry := congrArg Journal.Cell.entry (hcells a)
    rw [hs₁, hs₂]
    exact hentry
  · intro a
    rw [hrange₁.order.mem_iff, hrange₂.order.mem_iff, hkeys.mem_iff]
  · rw [hstats₁, hstats₂]
    exact hstats

end Same

/-- Two ranges over the same logs, in any order and with any repetitions, end
alike under any iteration orders when the provider answers alike. -/
theorem apply_range_order_free {ω₁ ω₂ : Type}
    {env₁ : Environment Request Answer ω₁} {env₂ : Environment Request Answer ω₂}
    {world₁ final₁ : ω₁} {world₂ final₂ : ω₂} {s s₁ s₂ : Process} {at_ : ℕ}
    {logs₁ logs₂ : List Log} {owner : ℕ → Except RpcError Address}
    {reply : Call3 → Except RpcError CallResult}
    {outcome₁ outcome₂ : Except Failure (BatchStats × List Address)}
    (hlogs : ∀ log, log ∈ logs₁ ↔ log ∈ logs₂)
    (h₁ : Consistent env₁ at_ owner reply) (h₂ : Consistent env₂ at_ owner reply)
    (hrun₁ : (applyRange logs₁ at_).Runs env₁ world₁ s final₁ outcome₁ s₁)
    (hrun₂ : (applyRange logs₂ at_).Runs env₂ world₂ s final₂ outcome₂ s₂) :
    SameRange s outcome₁ s₁ outcome₂ s₂ := by
  have hset : {log | log ∈ logs₁} = {log | log ∈ logs₂} := Set.ext hlogs
  cases outcome₁ with
  | ok result₁ =>
      have hgood := h₁.meets_applyRange.of_ok hrun₁
      cases outcome₂ with
      | ok result₂ =>
          rcases (meets_applyRange env₁.keeps_gives).of_ok hrun₁ with
            ⟨touched₁, rows₁, hrange₁⟩
          rcases (meets_applyRange env₂.keeps_gives).of_ok hrun₂ with
            ⟨touched₂, rows₂, hrange₂⟩
          exact sameEnd_of_rangeApplied hlogs h₁ h₂ hrange₁ hrange₂
      | error failure₂ =>
          rw [hset] at hgood
          rcases (h₂.meets_applyRange.of_error hrun₂).2 with hfails | hfails
          · exact hfails.2 hgood.1
          · exact hgood.2 hfails.2.2
  | error failure₁ =>
      have hbad := h₁.meets_applyRange.of_error hrun₁
      rw [hset] at hbad
      cases outcome₂ with
      | ok result₂ =>
          have hgood := h₂.meets_applyRange.of_ok hrun₂
          rcases hbad.2 with hfails | hfails
          · exact hfails.2 hgood.1
          · exact hgood.2 hfails.2.2
      | error failure₂ =>
          have hbad₂ := h₂.meets_applyRange.of_error hrun₂
          refine ⟨hbad.1, hbad₂.1, ?_⟩
          rcases hbad.2 with hfails | hfails
          · rcases hbad₂.2 with hfails₂ | hfails₂
            · exact iff_of_true hfails.1 hfails₂.1
            · exact absurd hfails₂.2.1 hfails.2
          · rcases hbad₂.2 with hfails₂ | hfails₂
            · exact absurd hfails.2.1 hfails₂.2
            · rw [hfails.1, hfails₂.1]

/-! ### Two holders, backwards and twice -/

namespace Shuffled

def first : Address :=
  FixedBytes.filled 20 1

def second : Address :=
  FixedBytes.filled 20 2

/-- Both are touched in block 1 and hold 5 USDT from then on. -/
def chain : Chain :=
  Chain.sketch (fun b => if b = 1 then [first, second] else [])
    (fun _ _ => 5) (fun _ => 0)

def start : Process :=
  Process.launched (BalanceMap.new 0)

/-- The hash maps iterate backwards, or not. -/
def respond (back : Bool) (world : Unit) (q : Request) : Answer q × Unit :=
  match q with
  | .iterate keys =>
      (if back then ⟨keys.reverse, keys.reverse_perm⟩
        else ⟨keys, List.Perm.refl keys⟩, ())
  | q => chain.respond 1 1 world q

theorem consistent (back : Bool) :
    Consistent (.answering (respond back)) 1 (fun b => .ok (chain.owner b))
      (fun call => .ok (chain.reply 1 call)) := by
  constructor
  · intro block answer hgives
    rcases hgives with ⟨world, after, hanswer⟩
    exact (Prod.mk.inj hanswer).1.symm
  · intro calls results hgives
    rcases hgives with ⟨world, after, hanswer⟩
    have hresults : calls.map (chain.reply 1) = results :=
      Except.ok.inj (Prod.mk.inj hanswer).1
    rw [← hresults, List.forall₂_map_right_iff]
    exact List.forall₂_same.mpr fun _ _ => rfl
  · intro calls e hgives
    rcases hgives with ⟨world, after, hanswer⟩
    cases (Prod.mk.inj hanswer).1

def finish (back : Bool) (logs : List Log) :
    (Except Failure (BatchStats × List Address) × Process) × Unit :=
  (applyRange logs 1).exec (respond back) () start

theorem apply_range_order_free_back :
    SameRange start (finish false (chain.logs 1)).1.1
      (finish false (chain.logs 1)).1.2
      (finish true ((chain.logs 1).reverse ++ chain.logs 1)).1.1
      (finish true ((chain.logs 1).reverse ++ chain.logs 1)).1.2 := by
  have hlogs : ∀ log, log ∈ chain.logs 1 ↔
      log ∈ (chain.logs 1).reverse ++ chain.logs 1 := by
    intro log
    simp
  exact apply_range_order_free hlogs (consistent false) (consistent true)
    (runs_answering (respond false) (applyRange (chain.logs 1) 1) () start rfl)
    (runs_answering (respond true)
      (applyRange ((chain.logs 1).reverse ++ chain.logs 1) 1) () start rfl)

end Shuffled

end UsdtPir
