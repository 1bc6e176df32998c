import UsdtPir.FollowLoop

/-!
# The commands

A bounded sync loads the snapshot, decides where to start, and then attempts
the range until an attempt succeeds, until one that failed had reached the end
anyway, or until too many in a row have moved nothing.  After a failed attempt
the progress is written, and a write that fails is only logged.  The commands
that follow the tip open their map another way and then loop for good.
-/

namespace UsdtPir

open Interaction
open Program

def MAINNET_CHAIN_ID : ℕ := 1

def MULTICALL3_DEPLOY_BLOCK : ℕ := 14353601

/-! ## Before the first block -/

def ensureMainnet : Sync Unit := do
  let answer ← Ask.chainId
  let id ← liftRpc ["reading eth_chainId"] answer
  if id = MAINNET_CHAIN_ID then
    pure ()
  else
    .throw (.err
      [s!"RPC reports chain id {id}, not Ethereum mainnet ({MAINNET_CHAIN_ID})."])

def ensureMulticallAt (block : ℕ) : Sync Unit :=
  if MULTICALL3_DEPLOY_BLOCK ≤ block then
    pure ()
  else
    .throw (.err
      [s!"block {block} predates Multicall3's mainnet deployment at {MULTICALL3_DEPLOY_BLOCK}; bootstrap from a snapshot instead, then follow forward."])

/-- Errors are shown with their contexts, `{e:#}`. -/
def ensureStateAvailable (lo : ℕ) : Sync Unit := do
  let outcome ← attempt (readBalances [USDT] lo)
  match outcome with
  | .ok _ => pure ()
  | .error (.err chain) => .throw (.err
      [s!"provider will not serve historical balanceOf state at block {lo}: " ++
        ": ".intercalate chain])
  | .error failure => .throw failure

def ensureLogsAvailable (lo : ℕ) : Sync Unit := do
  let served ← Ask.getLogs (filter lo lo)
  match served with
  | .ok _ => pure ()
  | .error _ => do
      let answer ← Ask.blockNumber
      let head ← liftRpc [] answer
      let atHead ← Ask.getLogs (filter head head)
      match atHead with
      | .error _ => .throw (.err
          ["provider cannot serve logs at all; check the endpoint"])
      | .ok _ => .throw (.err
          [s!"provider will not serve logs at block {lo} ({head - lo} blocks behind head {head}), but does at the head."])

def preflight (lo : ℕ) : Sync Unit := do
  ensureMainnet
  ensureMulticallAt lo
  ensureStateAvailable lo
  ensureLogsAvailable lo

/-- Where a sync should stop. -/
inductive Target
  | finalized
  | latest
  | number (n : ℕ)

def Target.resolve : Target → Sync ℕ
  | .finalized => finalizedBlock
  | .latest => do
      let answer ← Ask.blockNumber
      liftRpc [] answer
  | .number n => pure n

def createMap (lo : Option ℕ) : Sync BalanceMap :=
  match lo with
  | some start => pure (BalanceMap.new (start - 1))
  | none => .throw (.err ["no snapshot at that path, so --from is required"])

def loadOrCreateMap (lo : Option ℕ) : Sync Unit := do
  let s ← Program.get
  match s.saved with
  | some map => Program.modify fun s => { s with map := map }
  | none => do
      let map ← createMap lo
      Program.modify fun s => { s with map := map }

/-- The first block to include, and the map with its cursor one before it when
old blocks are replayed. -/
def prepareReplay (word : Word) (balances : BalanceMap) (lo : Option ℕ) :
    ℕ × BalanceMap :=
  let first := lo.getD (word.add balances.cursor 1)
  if first ≤ balances.cursor then
    (first, { balances with cursor := first - 1 })
  else
    (first, balances)

/-- `open_map`; the path is given as it is shown in errors. -/
def openMap (state : String) (fromBlock : Option Target) : Sync Unit := do
  let s ← Program.get
  match s.saved, fromBlock with
  | some map, none => Program.modify fun s => { s with map := map }
  | some map, some _ => .throw (.err
      [s!"--from-block only applies when starting fresh, and {state} already holds a snapshot at cursor {map.cursor}. To replay, run: usdt-pir sync --from <BLOCK> --state {state}"])
  | none, some target => do
      let start ← target.resolve
      Program.modify fun s => { s with map := BalanceMap.new (start - 1) }
  | none, none => .throw (.err
      ["no snapshot at that path. A fresh start begins from an EMPTY map, which is not an authoritative holder set. Either bootstrap a snapshot first, or pass --from-block <BLOCK> (or --from-block finalized)."])

/-- The loop of `follow::run`; the fuel is the number of rounds the process
lives for. -/
def followRounds (cfg : FollowConfig) (updates : Bool) : ℕ → Sync Unit
  | 0 => .throw .killed
  | fuel + 1 => do
      let _ ← followRound cfg updates
      followRounds cfg updates fuel

/-- `follow` and `serve` from the opened map on, entering the loop at `now`. -/
def followFrom (cfg : FollowConfig) (updates : Bool) (now : ℕ) : Sync Unit := do
  let s ← Program.get
  preflight (cfg.word.add s.map.cursor 1)
  Program.modify fun s => s.startFollow now
  let lifetime ← Ask.lifetime
  followRounds cfg updates lifetime

/-! ## Attempts -/

def recordRetryProgress (word : Word) (advanced stalled : ℕ) : ℕ :=
  if 0 < advanced then 0 else word.bump stalled

/-- What is done after a failed attempt: the counter of attempts that moved
nothing, or the error with its context. -/
def waitToRetry (word : Word) (before retries : ℕ) (error : List String)
    (stalled : ℕ) : Sync ℕ := do
  let _ ← saveMap
  let s ← Program.get
  let stalled := recordRetryProgress word (s.map.cursor - before) stalled
  if retries < stalled then
    .throw (.err
      (s!"giving up after {retries} attempt(s) with no progress at block {s.map.cursor}; re-run to resume"
        :: error))
  else
    pure stalled

/-- One attempt, with a watch and a change set of its own. -/
def syncOnce (cfg : FollowConfig) (lo toBlock : ℕ) : Sync Unit := do
  markSnapshot
  Program.modify fun s => { s with watch := default, changed := ∅ }
  syncInto cfg lo toBlock

def setBlocks (origin : ℕ) : Sync SyncStats := do
  Program.modify fun s => { s with
    totals := { s.totals with blocks := s.map.cursor - origin } }
  let s ← Program.get
  pure s.totals

/-- The loop of `run_sync`; the fuel is the number of attempts the process
lives for. -/
def syncAttempts (cfg : FollowConfig) (toBlock retries origin : ℕ) :
    ℕ → ℕ → ℕ → Sync SyncStats
  | 0, _, _ => .throw .killed
  | fuel + 1, start, stalled => do
      let s ← Program.get
      let outcome ← attempt (syncOnce cfg start toBlock)
      match outcome with
      | .ok () => do
          let totals ← setBlocks origin
          saveMapOrFail
          pure totals
      | .error (.err chain) => do
          let stalled ← waitToRetry cfg.word s.map.cursor retries chain stalled
          let s ← Program.get
          let start := cfg.word.add s.map.cursor 1
          if toBlock < start then
            setBlocks origin
          else
            syncAttempts cfg toBlock retries origin fuel start stalled
      | .error failure => .throw failure

def runSync (cfg : FollowConfig) (lo toBlock retries : ℕ) :
    Sync SyncStats := do
  Program.modify fun s => { s with totals := default }
  let s ← Program.get
  let lifetime ← Ask.lifetime
  syncAttempts cfg toBlock retries s.map.cursor lifetime lo 0

/-- `run`, from the resolved target on. -/
def syncRange (cfg : FollowConfig) (lo : Option ℕ) (toBlock retries : ℕ) :
    Sync SyncStats := do
  loadOrCreateMap lo
  let s ← Program.get
  let prepared := prepareReplay cfg.word s.map lo
  Program.modify fun s => { s with map := prepared.2 }
  if prepared.1 ≤ toBlock then do
    preflight prepared.1
    runSync cfg prepared.1 toBlock retries
  else
    .throw (.err
      [s!"nothing to do: --from {prepared.1} is past --to {toBlock}"])

/-- The sync command, with the snapshot on disk in the state. -/
def syncCommand (cfg : FollowConfig) (lo : Option ℕ) (target : Target)
    (retries : ℕ) : Sync SyncStats := do
  let toBlock ← target.resolve
  syncRange cfg lo toBlock retries

end UsdtPir
