import UsdtPir.Observation
import UsdtPir.SyncCommand

/-!
# Which questions a step asks

Fetching logs asks for logs only, and folding them only reads: owners, balances
and the order of keys.  Neither touches the disk or looks at the clock.
-/

namespace UsdtPir

open Interaction
open Program

namespace Request

def IsGetLogs : Request → Prop
  | .getLogs _ => True
  | _ => False

/-- Every question but the one for the time of day. -/
def LeavesClock : Request → Prop
  | .unixNow => False
  | _ => True

/-- The questions of a fold. -/
def IsRead : Request → Prop
  | .owner _ _ => True
  | .aggregate3 _ _ _ => True
  | .iterate _ => True
  | _ => False

end Request

variable {kind : Request → Prop} {α : Type}

theorem asks_consult (question : Request) (h : kind question) :
    Asks kind (consult question) :=
  asks_query h

theorem asks_liftRpc {contexts : List String} {answer : Except RpcError α} :
    Asks kind (liftRpc contexts answer) := by
  cases answer with
  | ok a => exact asks_pure
  | error e => exact asks_throw

theorem asks_iterate {υ : Type} {m : HashMap Address υ} :
    Asks Request.IsRead (iterate m) := by
  unfold iterate
  apply asks_bind
  · exact asks_consult (.iterate m.keys) trivial
  · intro order
    exact asks_pure

theorem asks_readChunks {block : ℕ} {out : HashMap Address Reading}
    {rest : List (List Address)} :
    Asks Request.IsRead (readChunks block out rest) := by
  induction rest generalizing out with
  | nil => exact asks_pure
  | cons chunk rest ih =>
      unfold readChunks callBalanceChunk
      apply asks_bind
      · apply asks_bind
        · exact asks_consult (.aggregate3 MULTICALL3 (balanceCalls chunk) block) trivial
        · intro results
          exact asks_liftRpc
      · intro results
        apply asks_bind asks_ofExcept
        intro out'
        exact ih

theorem asks_addUsdtOwnerTouches {touched : HashMap Address Touch}
    {blocks : List ℕ} :
    Asks Request.IsRead (addUsdtOwnerTouches touched blocks) := by
  induction blocks generalizing touched with
  | nil => exact asks_pure
  | cons block rest ih =>
      unfold addUsdtOwnerTouches usdtOwner
      apply asks_bind
      · apply asks_bind
        · exact asks_consult (.owner USDT block) trivial
        · intro owner
          exact asks_liftRpc
      · intro owner
        exact ih

theorem asks_applyTouched {at_ : ℕ} {touched : HashMap Address Touch}
    {stats : BatchStats} :
    Asks Request.IsRead (applyTouched at_ touched stats) := by
  unfold applyTouched
  apply asks_bind
  · exact asks_consult (.iterate touched.keys) trivial
  · intro addrs
    apply asks_bind asks_readChunks
    intro readings
    apply asks_bind asks_iterate
    intro rows
    apply asks_bind asks_get
    intro s
    split
    · exact asks_throw
    · apply asks_bind asks_modify
      intro _
      exact asks_pure

theorem asks_applyChunk {logs : List Log} {hi : ℕ} :
    Asks Request.IsRead (applyChunk logs hi) := by
  unfold applyChunk applyRange collectAddresses
  apply asks_bind
  · apply asks_bind asks_addUsdtOwnerTouches
    intro touched
    dsimp only
    split
    · exact asks_pure
    · exact asks_applyTouched
  · intro result
    apply asks_bind asks_modify
    intro _
    exact asks_pure

/-! ## Saving -/

theorem asks_markSnapshot (hnow : kind .instantNow) :
    Asks kind markSnapshot := by
  unfold markSnapshot
  apply asks_bind
  · exact asks_consult .instantNow hnow
  · intro now
    exact asks_modify

theorem asks_saveMap (hsave : ∀ map, kind (.save map)) :
    Asks kind saveMap := by
  unfold saveMap
  apply asks_bind asks_get
  intro s
  apply asks_bind
  · exact asks_consult (.save s.map) (hsave s.map)
  · intro written
    cases written with
    | ok written =>
        apply asks_bind asks_modify
        intro _
        exact asks_pure
    | error e => exact asks_pure

theorem asks_saveMapOrFail (hsave : ∀ map, kind (.save map)) :
    Asks kind saveMapOrFail := by
  unfold saveMapOrFail
  apply asks_bind (asks_saveMap hsave)
  intro written
  cases written with
  | ok written => exact asks_pure
  | error e => exact asks_throw

theorem asks_maybeSnapshot {cfg : FollowConfig} (hnow : kind .instantNow)
    (hsave : ∀ map, kind (.save map)) : Asks kind (maybeSnapshot cfg) := by
  unfold maybeSnapshot
  apply asks_bind asks_get
  intro s
  apply asks_bind
  · exact asks_consult .instantNow hnow
  · intro now
    split
    · exact asks_pure
    · apply asks_bind (asks_saveMapOrFail hsave)
      intro _
      exact asks_markSnapshot hnow

/-! ## The time of day -/

theorem Request.IsRead.leavesClock {q : Request} (h : q.IsRead) :
    q.LeavesClock := by
  cases q with
  | unixNow => exact h
  | _ => trivial

section Clock

variable {cfg : FollowConfig} {lo hi toBlock chunk fuel : ℕ} {updates : Bool}

theorem asks_fetchLogs :
    Asks Request.LeavesClock (fetchLogs lo fuel hi chunk) := by
  induction fuel generalizing hi chunk with
  | zero =>
      unfold fetchLogs
      apply asks_bind
      · exact asks_consult (.getLogs (filter lo hi)) trivial
      · intro answer
        apply asks_bind asks_liftRpc
        intro logs
        exact asks_pure
  | succ fuel ih =>
      unfold fetchLogs
      apply asks_bind
      · exact asks_consult (.getLogs (filter lo hi)) trivial
      · intro answer
        cases answer with
        | ok logs => exact asks_pure
        | error e =>
            dsimp only
            split
            · exact ih
            · exact asks_liftRpc

theorem asks_syncOneChunk :
    Asks Request.LeavesClock (syncOneChunk cfg lo toBlock chunk) := by
  unfold syncOneChunk
  apply asks_bind asks_fetchLogs
  intro fetched
  apply asks_bind (asks_applyChunk.weaken fun _ h => h.leavesClock)
  intro stats
  apply asks_bind asks_modify
  intro _
  apply asks_bind
  · exact asks_maybeSnapshot trivial fun _ => trivial
  · intro _
    exact asks_pure

theorem asks_syncChunks :
    Asks Request.LeavesClock (syncChunks cfg toBlock fuel lo chunk) := by
  induction fuel generalizing lo chunk with
  | zero =>
      unfold syncChunks
      split
      · exact asks_throw
      · exact asks_pure
  | succ fuel ih =>
      unfold syncChunks
      split
      · apply asks_bind asks_syncOneChunk
        intro next
        exact ih
      · exact asks_pure

theorem asks_sync : Asks Request.LeavesClock (sync cfg lo toBlock) := by
  unfold sync syncInto
  apply asks_bind asks_modify
  intro _
  apply asks_bind
  · apply asks_bind asks_modify
    intro _
    split
    · exact asks_pure
    · apply asks_bind asks_modify
      intro _
      apply asks_bind
      · exact asks_consult .lifetime trivial
      · intro lifetime
        apply asks_bind asks_syncChunks
        intro _
        exact asks_modify
  · intro _
    apply asks_bind asks_get
    intro s
    exact asks_pure

theorem asks_blockHash {number : ℕ} (h : kind (.blockByNumber number)) :
    Asks kind (blockHash number) := by
  unfold blockHash
  apply asks_bind
  · exact asks_consult (.blockByNumber number) h
  · intro answer
    apply asks_bind asks_liftRpc
    intro block
    exact asks_pure

theorem asks_repair {window : ℕ} (hreads : ∀ q, Request.IsRead q → kind q) :
    Asks kind (repair window) := by
  unfold repair
  apply asks_bind asks_get
  intro s
  apply asks_bind
  · exact asks_consult _ (hreads (.iterate s.watch.addressSet.keys) trivial)
  · intro stale
    apply asks_bind
    · unfold correctStaleAddresses
      split
      · exact asks_pure
      · apply asks_bind (asks_readChunks.weaken hreads)
        intro readings
        apply asks_bind (asks_iterate.weaken hreads)
        intro rows
        apply asks_bind asks_get
        intro s
        split
        · exact asks_throw
        · exact asks_modify
    · intro _
      exact asks_modify

theorem asks_repairIfNeeded (hreads : ∀ q, Request.IsRead q → kind q)
    (hblock : ∀ number, kind (.blockByNumber number)) :
    Asks kind (repairIfNeeded cfg) := by
  unfold repairIfNeeded
  split
  · unfold repairIfReorged
    apply asks_bind asks_get
    intro s
    split
    · exact asks_pure
    · apply asks_bind (asks_blockHash (hblock _))
      intro hash
      split
      · exact asks_pure
      · exact asks_repair hreads
  · exact asks_pure

theorem asks_resolve {tip : Tip} : Asks Request.LeavesClock tip.resolve := by
  cases tip with
  | finalized =>
      unfold Tip.resolve finalizedBlock
      apply asks_bind
      · exact asks_consult .finalizedBlock trivial
      · intro answer
        apply asks_bind asks_liftRpc
        intro block
        cases block with
        | none => exact asks_throw
        | some block => exact asks_pure
  | confirmations n =>
      unfold Tip.resolve
      apply asks_bind
      · exact asks_consult .blockNumber trivial
      · intro answer
        apply asks_bind asks_liftRpc
        intro head
        exact asks_pure

theorem asks_updateReorgWatch :
    Asks Request.LeavesClock (updateReorgWatch cfg) := by
  unfold updateReorgWatch
  split
  · apply asks_bind asks_get
    intro s
    apply asks_bind
    · unfold storeCursorHash
      apply asks_bind (asks_blockHash trivial)
      intro hash
      exact asks_modify
    · intro _
      exact asks_modify
  · exact asks_pure

theorem asks_publishChanges :
    Asks Request.LeavesClock (publishChanges updates) := by
  unfold publishChanges
  apply asks_bind asks_get
  intro s
  split
  · exact asks_pure
  · apply asks_bind (asks_iterate.weaken fun _ h => h.leavesClock)
    intro batch
    apply asks_bind
    · exact asks_consult (.send batch) trivial
    · intro alive
      split
      · exact asks_modify
      · exact asks_throw

theorem asks_onFailure : Asks Request.LeavesClock onFailure := by
  unfold onFailure
  apply asks_bind asks_modify
  intro _
  apply asks_bind (asks_saveMap fun _ => trivial)
  intro written
  cases written with
  | ok written => exact asks_markSnapshot trivial
  | error e => exact asks_pure

end Clock

end UsdtPir
