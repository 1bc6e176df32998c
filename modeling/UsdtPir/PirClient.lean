import UsdtPir.EthPir

/-!
# The client

What a client holds: its copy of the keyword directory, and the queries that
wait for their responses under ids that are 32-bit numbers.
-/

namespace UsdtPir

/-- What the client must fetch to be current with the server. -/
inductive SyncNeed
  | upToDate
  | tail (start : ℕ)
  | full
  deriving DecidableEq

structure TokenBalance where
  symbol : String
  raw : U128
  lastChangeBlock : U32
  deriving DecidableEq

structure Report where
  address : Address
  held : Bool
  usdt : TokenBalance
  usdc : TokenBalance
  deriving DecidableEq

namespace Report

def found (address : Address) (entry : Entry) : Report :=
  ⟨address, true, ⟨"USDT", entry.usdt, entry.usdtBlock⟩,
    ⟨"USDC", entry.usdc, entry.usdcBlock⟩⟩

def notHeld (address : Address) : Report :=
  ⟨address, false, ⟨"USDT", 0, 0⟩, ⟨"USDC", 0, 0⟩⟩

end Report

/-- What is needed to decrypt the response to a query, and the directory the
query was resolved by. -/
structure Lookup (P : EthPir) where
  address : Address
  directory : KeywordDirectory P.Mphf

/-- The slot a query asks for. -/
def Lookup.slot {P : EthPir} (lookup : Lookup P) : ℕ :=
  P.slot lookup.directory lookup.address

inductive DecryptError (P : EthPir)
  | notInSet
  | fault (e : P.Fault)

inductive ClientError (P : EthPir)
  | unknownQuery (id : ℕ)
  | pir (e : P.Fault)

structure Client (P : EthPir) where
  directory : KeywordDirectory P.Mphf
  pending : HashMap ℕ (Lookup P)
  nextId : ℕ

namespace Client

variable {P : EthPir}

def new (directory : KeywordDirectory P.Mphf) : Client P :=
  ⟨directory, ∅, 0⟩

def version (client : Client P) : ℕ :=
  client.directory.version

def tailLen (client : Client P) : ℕ :=
  client.directory.delta.length

def syncNeed (client : Client P) (serverVersion serverTailLen : ℕ) :
    SyncNeed :=
  if serverVersion ≠ client.version then .full
  else if client.tailLen < serverTailLen then .tail client.tailLen
  else .upToDate

def applyTail (client : Client P) (tail : DeltaEnvelope) :
    Except P.Fault (Client P) := do
  let directory ← P.applyTail client.directory tail
  pure { client with directory }

/-- Pending queries are dropped: they were resolved by the old directory. -/
def resync (client : Client P) (directory : P.Blob) :
    Except P.Fault (Client P) := do
  let directory ← P.readFrom directory
  pure { client with directory, pending := ∅ }

/-- The id of the query, and the client that waits for its response. -/
def query (client : Client P) (address : Address) : ℕ × Client P :=
  (client.nextId,
    { client with
      nextId := (client.nextId + 1) % 2 ^ 32
      pending :=
        client.pending.insert client.nextId ⟨address, client.directory⟩ })

/-- `decode` of a response, given what decrypting it yields for a query. -/
def decode (client : Client P) (id : ℕ)
    (decrypt : Lookup P → Except (DecryptError P) Entry) :
    Except (ClientError P) Report × Client P :=
  match client.pending.lookup id with
  | none => (.error (.unknownQuery id), client)
  | some lookup =>
      let client := { client with pending := client.pending.erase id }
      match decrypt lookup with
      | .ok entry => (.ok (.found lookup.address entry), client)
      | .error .notInSet => (.ok (.notHeld lookup.address), client)
      | .error (.fault e) => (.error (.pir e), client)

section Directories

variable {client client' : Client P}

theorem directory_resync {blob : P.Blob}
    (h : client.resync blob = .ok client') :
    P.readFrom blob = .ok client'.directory := by
  unfold resync at h
  cases hread : P.readFrom blob with
  | error fault =>
      rw [hread] at h
      cases h
  | ok directory =>
      rw [hread] at h
      cases h
      rfl

theorem directory_applyTail {tail : DeltaEnvelope}
    (h : client.applyTail tail = .ok client') :
    P.applyTail client.directory tail = .ok client'.directory := by
  unfold applyTail at h
  cases hcall : P.applyTail client.directory tail with
  | error fault =>
      rw [hcall] at h
      cases h
  | ok directory =>
      rw [hcall] at h
      cases h
      rfl

theorem directory_decode {id : ℕ}
    {decrypt : Lookup P → Except (DecryptError P) Entry}
    {result : Except (ClientError P) Report}
    (h : client.decode id decrypt = (result, client')) :
    client'.directory = client.directory := by
  unfold decode at h
  cases hlookup : client.pending.lookup id with
  | none =>
      rw [hlookup] at h
      cases h
      rfl
  | some lookup =>
      simp only [hlookup] at h
      split at h <;> cases h <;> rfl

end Directories

end Client

end UsdtPir
