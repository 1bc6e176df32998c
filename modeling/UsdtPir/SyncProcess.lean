import UsdtPir.BalanceMap
import UsdtPir.Interaction
import UsdtPir.TouchedAddresses

/-!
# The syncing process and what it asks its surroundings

A syncing process is a program over provider calls, clocks, the snapshot file
and the channel to the PIR thread.  Everything the source leaves open is a
question too: the order in which a hash map iterates and how many chunks the
process lives to fold.  Its state is the mutable data that the functions of
`follow` pass around by reference, with the snapshot on disk and the batches
sent so far.
-/

namespace UsdtPir

open Interaction

/-- How `u64` additions and subtractions are read, and the increment of a `u32`
counter.  The laws say that nothing but an overflow can make a difference. -/
structure Word where
  add : ℕ → ℕ → ℕ
  sub : ℕ → ℕ → ℕ
  bump : ℕ → ℕ
  add_of_lt : ∀ a b, a + b < 2 ^ 64 → add a b = a + b
  sub_of_le : ∀ a b, b ≤ a → sub a b = a - b
  bump_of_lt : ∀ n, n + 1 < 2 ^ 32 → bump n = n + 1

/-- Release builds wrap around. -/
def Word.wrapping : Word where
  add a b := (a + b) % 2 ^ 64
  sub a b := if b ≤ a then a - b else (a + 2 ^ 64 - b) % 2 ^ 64
  bump n := (n + 1) % 2 ^ 32
  add_of_lt _ _ h := Nat.mod_eq_of_lt h
  sub_of_le _ _ h := if_pos h
  bump_of_lt _ h := Nat.mod_eq_of_lt h

/-- Block numbers and counters as natural numbers. -/
def Word.natural : Word where
  add := (· + ·)
  sub := (· - ·)
  bump := (· + 1)
  add_of_lt _ _ _ := rfl
  sub_of_le _ _ _ := rfl
  bump_of_lt _ _ := rfl

/-! ## Questions and answers -/

structure RpcError where
  message : String
  deriving DecidableEq

structure IoError where
  message : String
  deriving DecidableEq

/-- The header fields the service reads. -/
structure Block where
  number : ℕ
  hash : B256
  deriving DecidableEq

structure Call3 where
  target : Address
  allowFailure : Bool
  callData : List UInt8
  deriving DecidableEq

structure CallResult where
  success : Bool
  returnData : List UInt8
  deriving DecidableEq

/-- One pass worth of changed entries, as handed to the PIR thread. -/
abbrev UpdateBatch := List (Address × Entry)

inductive Request
  | chainId
  | getLogs (filter : Filter)
  | owner (contract : Address) (block : ℕ)
  | aggregate3 (contract : Address) (calls : List Call3) (block : ℕ)
  | blockByNumber (number : ℕ)
  | finalizedBlock
  | blockNumber
  | iterate (keys : List Address)
  | instantNow
  | unixNow
  | lifetime
  | save (map : BalanceMap)
  | send (batch : UpdateBatch)

def Answer : Request → Type
  | .chainId => Except RpcError ℕ
  | .getLogs _ => Except RpcError (List Log)
  | .owner _ _ => Except RpcError Address
  | .aggregate3 _ _ _ => Except RpcError (List CallResult)
  | .blockByNumber _ => Except RpcError (Option Block)
  | .finalizedBlock => Except RpcError (Option Block)
  | .blockNumber => Except RpcError ℕ
  | .iterate keys => {order : List Address // order.Perm keys}
  | .instantNow => ℕ
  | .unixNow => ℕ
  | .lifetime => ℕ
  | .save _ => Except IoError Unit
  | .send _ => Bool

/-- Why a program stops: an error with its chain of contexts, a panic, or the
end of the process. -/
inductive Failure
  | err (chain : List String)
  | panic (message : String)
  | killed
  deriving DecidableEq

/-! ## The state of the process -/

structure ChainWatch where
  cursorHash : Option B256
  recent : List (ℕ × List Address)
  deriving DecidableEq

instance : Inhabited ChainWatch := ⟨⟨none, []⟩⟩

structure BatchStats where
  logs : ℕ
  touched : ℕ
  inserted : ℕ
  updated : ℕ
  removed : ℕ
  unchanged : ℕ
  skippedNewZero : ℕ
  deriving DecidableEq

instance : Inhabited BatchStats := ⟨⟨0, 0, 0, 0, 0, 0, 0⟩⟩

/-- Totals for one sync call. -/
structure SyncStats where
  blocks : ℕ
  batches : ℕ
  logs : ℕ
  touched : ℕ
  inserted : ℕ
  updated : ℕ
  removed : ℕ
  unchanged : ℕ
  skippedNewZero : ℕ
  pruned : ℕ
  deriving DecidableEq

instance : Inhabited SyncStats := ⟨⟨0, 0, 0, 0, 0, 0, 0, 0, 0, 0⟩⟩

def SyncStats.fold (totals : SyncStats) (b : BatchStats) : SyncStats :=
  { totals with
    batches := totals.batches + 1
    logs := totals.logs + b.logs
    touched := totals.touched + b.touched
    inserted := totals.inserted + b.inserted
    updated := totals.updated + b.updated
    removed := totals.removed + b.removed
    unchanged := totals.unchanged + b.unchanged
    skippedNewZero := totals.skippedNewZero + b.skippedNewZero }

structure Progress where
  cursor : ℕ
  tip : ℕ
  recordedAt : ℕ
  deriving DecidableEq

inductive Tip
  | finalized
  | confirmations (n : ℕ)
  deriving DecidableEq

def Tip.isReorgable : Tip → Bool
  | finalized => false
  | confirmations _ => true

/-- The settings of `FollowConfig` that decide what happens; the intervals it
only sleeps for are left out. -/
structure FollowConfig where
  chunk : ℕ
  snapshotEvery : ℕ
  tip : Tip
  reorgWindow : ℕ
  word : Word

/-- One reading folded into the map, by a sync or by a reorg repair. -/
structure Application where
  addr : Address
  reading : Reading
  seen : Touch
  byRepair : Bool
  deriving DecidableEq

/-- The mutable state of a syncing process.  `history` is a ghost: every
reading applied so far, which no code reads. -/
structure Process where
  map : BalanceMap
  lastSnapshot : ℕ
  watch : ChainWatch
  changed : HashMap Address Entry
  totals : SyncStats
  inserted : HashSet Address
  failures : ℕ
  progress : Option Progress
  saved : Option BalanceMap
  sent : List UpdateBatch
  history : List Application

abbrev Sync := Program Request Answer Process Failure

def consult (question : Request) : Sync (Answer question) :=
  Program.query question

namespace Ask

def chainId : Sync (Except RpcError ℕ) :=
  consult .chainId

def getLogs (f : Filter) : Sync (Except RpcError (List Log)) :=
  consult (.getLogs f)

def owner (contract : Address) (block : ℕ) : Sync (Except RpcError Address) :=
  consult (.owner contract block)

def aggregate3 (contract : Address) (calls : List Call3) (block : ℕ) :
    Sync (Except RpcError (List CallResult)) :=
  consult (.aggregate3 contract calls block)

def blockByNumber (number : ℕ) : Sync (Except RpcError (Option Block)) :=
  consult (.blockByNumber number)

def finalizedBlock : Sync (Except RpcError (Option Block)) :=
  consult .finalizedBlock

def blockNumber : Sync (Except RpcError ℕ) :=
  consult .blockNumber

def order (keys : List Address) :
    Sync {order : List Address // order.Perm keys} :=
  consult (.iterate keys)

def instantNow : Sync ℕ :=
  consult .instantNow

def unixNow : Sync ℕ :=
  consult .unixNow

def lifetime : Sync ℕ :=
  consult .lifetime

def save (map : BalanceMap) : Sync (Except IoError Unit) :=
  consult (.save map)

def send (batch : UpdateBatch) : Sync Bool :=
  consult (.send batch)

end Ask

/-- `?` on the result of a provider call, with the contexts added to it. -/
def liftRpc {α : Type} (contexts : List String) : Except RpcError α → Sync α
  | .ok a => pure a
  | .error e => .throw (.err (contexts ++ [e.message]))

/-- The entries of a hash map in the order in which it happens to iterate. -/
def iterate {υ : Type} (m : HashMap Address υ) : Sync (List (Address × υ)) := do
  let order ← Ask.order m.keys
  pure (order.val.filterMap fun a => (m.lookup a).map fun v => (a, v))

/-- `map.save(&cfg.snapshot_path)`: the file is replaced as a whole, or the
old one stays. -/
def saveMap : Sync (Except IoError Unit) := do
  let s ← Program.get
  let written ← Ask.save s.map
  match written with
  | .ok () => do
      Program.modify fun s => { s with saved := some s.map }
      pure (.ok ())
  | .error e => pure (.error e)

/-- `map.save(..)?`. -/
def saveMapOrFail : Sync Unit := do
  let written ← saveMap
  match written with
  | .ok () => pure ()
  | .error e => .throw (.err [e.message])

/-- `*last_snapshot = Instant::now()`. -/
def markSnapshot : Sync Unit := do
  let now ← Ask.instantNow
  Program.modify fun s => { s with lastSnapshot := now }

/-! ## Rules for the helpers -/

section Rules

open Program

variable {ω : Type} {env : Environment Request Answer ω} {world : ω}
    {s : Process} {α υ : Type} {ok : ω → α → Process → Prop}
    {err : ω → Failure → Process → Prop}

@[simp]
theorem meets_chainId {ok : ω → Except RpcError ℕ → Process → Prop} :
    Meets env Ask.chainId world s ok err ↔
      ∀ answer after, env world .chainId answer after → ok after answer s :=
  Iff.rfl

@[simp]
theorem meets_getLogs {f : Filter}
    {ok : ω → Except RpcError (List Log) → Process → Prop} :
    Meets env (Ask.getLogs f) world s ok err ↔
      ∀ answer after, env world (.getLogs f) answer after →
        ok after answer s :=
  Iff.rfl

@[simp]
theorem meets_owner {contract : Address} {block : ℕ}
    {ok : ω → Except RpcError Address → Process → Prop} :
    Meets env (Ask.owner contract block) world s ok err ↔
      ∀ answer after, env world (.owner contract block) answer after →
        ok after answer s :=
  Iff.rfl

@[simp]
theorem meets_aggregate3 {contract : Address} {calls : List Call3} {block : ℕ}
    {ok : ω → Except RpcError (List CallResult) → Process → Prop} :
    Meets env (Ask.aggregate3 contract calls block) world s ok err ↔
      ∀ answer after, env world (.aggregate3 contract calls block) answer after →
        ok after answer s :=
  Iff.rfl

@[simp]
theorem meets_blockByNumber {number : ℕ}
    {ok : ω → Except RpcError (Option Block) → Process → Prop} :
    Meets env (Ask.blockByNumber number) world s ok err ↔
      ∀ answer after, env world (.blockByNumber number) answer after →
        ok after answer s :=
  Iff.rfl

@[simp]
theorem meets_finalizedBlock
    {ok : ω → Except RpcError (Option Block) → Process → Prop} :
    Meets env Ask.finalizedBlock world s ok err ↔
      ∀ answer after, env world .finalizedBlock answer after →
        ok after answer s :=
  Iff.rfl

@[simp]
theorem meets_blockNumber {ok : ω → Except RpcError ℕ → Process → Prop} :
    Meets env Ask.blockNumber world s ok err ↔
      ∀ answer after, env world .blockNumber answer after →
        ok after answer s :=
  Iff.rfl

@[simp]
theorem meets_order {keys : List Address}
    {ok : ω → {order : List Address // order.Perm keys} → Process → Prop} :
    Meets env (Ask.order keys) world s ok err ↔
      ∀ answer after, env world (.iterate keys) answer after →
        ok after answer s :=
  Iff.rfl

@[simp]
theorem meets_instantNow {ok : ω → ℕ → Process → Prop} :
    Meets env Ask.instantNow world s ok err ↔
      ∀ now after, env world .instantNow now after → ok after now s :=
  Iff.rfl

@[simp]
theorem meets_unixNow {ok : ω → ℕ → Process → Prop} :
    Meets env Ask.unixNow world s ok err ↔
      ∀ now after, env world .unixNow now after → ok after now s :=
  Iff.rfl

@[simp]
theorem meets_lifetime {ok : ω → ℕ → Process → Prop} :
    Meets env Ask.lifetime world s ok err ↔
      ∀ chunks after, env world .lifetime chunks after → ok after chunks s :=
  Iff.rfl

@[simp]
theorem meets_save {map : BalanceMap}
    {ok : ω → Except IoError Unit → Process → Prop} :
    Meets env (Ask.save map) world s ok err ↔
      ∀ answer after, env world (.save map) answer after →
        ok after answer s :=
  Iff.rfl

@[simp]
theorem meets_send {batch : UpdateBatch} {ok : ω → Bool → Process → Prop} :
    Meets env (Ask.send batch) world s ok err ↔
      ∀ alive after, env world (.send batch) alive after →
        ok after alive s :=
  Iff.rfl

@[simp]
theorem meets_liftRpc {contexts : List String} {answer : Except RpcError α} :
    Meets env (liftRpc contexts answer) world s ok err ↔
      (∀ a, answer = .ok a → ok world a s) ∧
        ∀ e, answer = .error e → err world (.err (contexts ++ [e.message])) s := by
  cases answer with
  | ok a =>
      show ok world a s ↔ _
      simp
  | error e =>
      show err world _ s ↔ _
      simp

/-- What iteration may yield: each key once, with its value. -/
structure Listing (m : HashMap Address υ) (entries : List (Address × υ)) :
    Prop where
  mem_iff : ∀ a v, (a, v) ∈ entries ↔ m.lookup a = some v
  nodup : (entries.map Prod.fst).Nodup

theorem Listing.mem_keys {m : HashMap Address υ}
    {rows : List (Address × υ)} (h : Listing m rows) (a : Address) :
    a ∈ rows.map Prod.fst ↔ a ∈ m := by
  rw [← AList.lookup_isSome, List.mem_map]
  constructor
  · rintro ⟨⟨b, v⟩, hrow, rfl⟩
    rw [(h.mem_iff _ _).mp hrow]
    rfl
  · intro hsome
    obtain ⟨v, hv⟩ := Option.isSome_iff_exists.mp hsome
    exact ⟨(a, v), (h.mem_iff a v).mpr hv, rfl⟩

theorem listing_of_perm {m : HashMap Address υ} {order : List Address}
    (hperm : order.Perm m.keys) :
    Listing m (order.filterMap fun a => (m.lookup a).map fun v => (a, v)) := by
  constructor
  · intro a v
    simp only [List.mem_filterMap, Option.map_eq_some_iff, Prod.mk.injEq]
    constructor
    · rintro ⟨b, hb, w, hw, rfl, rfl⟩
      exact hw
    · intro hlookup
      refine ⟨a, ?_, v, hlookup, rfl, rfl⟩
      rw [hperm.mem_iff, ← AList.mem_keys, ← AList.lookup_isSome, hlookup]
      rfl
  · have hnodup : order.Nodup := hperm.nodup_iff.mpr m.keys_nodup
    have hsub : ((order.filterMap fun a =>
        (m.lookup a).map fun v => (a, v)).map Prod.fst).Sublist order := by
      clear hnodup hperm
      induction order with
      | nil => simp
      | cons a rest ih =>
          cases hlookup : m.lookup a with
          | none =>
              simp only [List.filterMap_cons, hlookup, Option.map_none]
              exact ih.cons a
          | some v =>
              simp only [List.filterMap_cons, hlookup, Option.map_some,
                List.map_cons]
              exact ih.cons_cons a
    exact hnodup.sublist hsub

/-- A save leaves the file as it was or with the map in it. -/
theorem meets_saveMap {ok : ω → Except IoError Unit → Process → Prop} :
    Meets env saveMap world s ok err ↔
      ∀ answer after, env world (.save s.map) answer after →
        ok after answer
          (match answer with
            | .ok () => { s with saved := some s.map }
            | .error _ => s) := by
  unfold saveMap
  simp only [meets_bind, meets_get, meets_save]
  refine forall_congr' fun answer => forall_congr' fun after => ?_
  cases answer with
  | ok written => simp
  | error e => simp

theorem meets_saveMapOrFail {ok : ω → Unit → Process → Prop} :
    Meets env saveMapOrFail world s ok err ↔
      ∀ answer after, env world (.save s.map) answer after →
        match answer with
        | .ok () => ok after () { s with saved := some s.map }
        | .error e => err after (.err [e.message]) s := by
  unfold saveMapOrFail
  simp only [meets_bind, meets_saveMap]
  refine forall_congr' fun answer => forall_congr' fun after => ?_
  cases answer with
  | ok written => simp
  | error e => simp

theorem meets_iterate {m : HashMap Address υ}
    {ok : ω → List (Address × υ) → Process → Prop}
    (hok : ∀ order (hperm : order.Perm m.keys) after,
      env world (.iterate m.keys) ⟨order, hperm⟩ after →
        ∀ entries, Listing m entries → ok after entries s) :
    Meets env (iterate m) world s ok err := by
  unfold iterate
  simp only [meets_bind, meets_order, meets_pure]
  rintro ⟨order, hperm⟩ after hanswer
  exact hok order hperm after hanswer _ (listing_of_perm hperm)

end Rules

end UsdtPir
