import UsdtPir.PirClient
import UsdtPir.TableRuns

/-!
# A client beside the server

The requests of one client interleave with the steps of the PIR thread.  A
query is resolved by the directory that the client fetched, and answered by the
database that is installed when the answer is made; neither says which keyword
generation it is of.
-/

namespace UsdtPir

open Machine

namespace Database

variable {M : Type}

/-- The database has a record of the address. -/
def Holds (database : Database M) (a : Address) : Prop :=
  ∃ i e, database.record i = some (a, e)

end Database

/-- A query on its way to the server. -/
structure Exchange (P : EthPir) where
  id : ℕ
  lookup : Lookup P

/-- A response on its way to the client, and the database that gave it. -/
structure Response (P : EthPir) where
  exchange : Exchange P
  database : Database P.Mphf
  record : Option (Address × Entry)

/-- Decryption yields the record of the queried address. -/
def Response.decrypt {P : EthPir} (response : Response P) (lookup : Lookup P) :
    Except (DecryptError P) Entry :=
  match response.record with
  | none => .error .notInSet
  | some (a, entry) =>
      if a = lookup.address then .ok entry else .error .notInSet

/-- A report, and the database that answered the query. -/
structure Told (P : EthPir) where
  report : Report
  database : Database P.Mphf

/-- Who is told that an address is not held is told the truth. -/
def Told.Truthful {P : EthPir} (told : Told P) : Prop :=
  told.report.held = false → ¬ told.database.Holds told.report.address

structure Session (P : EthPir) where
  thread : PirThread P
  client : Option (Client P)
  plan : Option SyncNeed
  sent : List (Exchange P)
  responses : List (Response P)
  told : List (Told P)

inductive SessionEvent (P : EthPir)
  | server (e : PirEvent P)
  | bootstrap
  | status
  | fetchFull
  | fetchTail
  | ensureCurrent (current : Bool)
  | query (a : Address)
  | answer (exchange : Exchange P)
  | decode (response : Response P)

/-- What the status request says the client has to fetch. -/
def Session.need {P : EthPir} (s : Session P) (client : Client P) : SyncNeed :=
  client.syncNeed s.thread.exposed.version s.thread.exposed.tailLen

inductive SessionStep (P : EthPir) (cfg : PirConfig) :
    Session P → SessionEvent P → Session P → Prop
  | server {s : Session P} {e : PirEvent P} {thread : PirThread P}
      (hstep : PirStep P cfg s.thread e thread) :
      SessionStep P cfg s (.server e) { s with thread }
  | bootstrap {s : Session P} {directory : KeywordDirectory P.Mphf}
      (hnone : s.client = none)
      (hparse : P.readFrom s.thread.exposed.full = .ok directory) :
      SessionStep P cfg s .bootstrap
        { s with client := some (.new directory) }
  | status {s : Session P} {client : Client P}
      (hclient : s.client = some client) :
      SessionStep P cfg s .status { s with plan := some (s.need client) }
  | fetchFull {s : Session P} {client client' : Client P}
      (hclient : s.client = some client) (hplan : s.plan = some .full)
      (hcall : client.resync s.thread.exposed.full = .ok client') :
      SessionStep P cfg s .fetchFull
        { s with client := some client', plan := none }
  | fetchTail {s : Session P} {client client' : Client P} {start : ℕ}
      {tail : DeltaEnvelope} (hclient : s.client = some client)
      (hplan : s.plan = some (.tail start))
      (htail : P.deltaEnvelopeFrom s.thread.exposed.parsed start = .ok tail)
      (hcall : client.applyTail tail = .ok client') :
      SessionStep P cfg s .fetchTail
        { s with client := some client', plan := none }
  | ensureCurrent {s : Session P} {client : Client P}
      (hclient : s.client = some client) :
      SessionStep P cfg s
        (.ensureCurrent (decide (s.need client = .upToDate))) s
  | query {s : Session P} {client : Client P} {a : Address}
      (hclient : s.client = some client) :
      SessionStep P cfg s (.query a)
        { s with
          client := some (client.query a).2
          sent := s.sent ++ [⟨(client.query a).1, a, client.directory⟩] }
  | answer {s : Session P} {exchange : Exchange P}
      {before after : List (Exchange P)}
      (hsent : s.sent = before ++ exchange :: after) :
      SessionStep P cfg s (.answer exchange)
        { s with
          sent := before ++ after
          responses := s.responses ++
            [⟨exchange, P.database s.thread.server,
              (P.database s.thread.server).record exchange.lookup.slot⟩] }
  | decode {s : Session P} {client client' : Client P}
      {response : Response P} {before after : List (Response P)}
      {report : Report} (hclient : s.client = some client)
      (hresponses : s.responses = before ++ response :: after)
      (hcall : client.decode response.exchange.id response.decrypt =
        (.ok report, client')) :
      SessionStep P cfg s (.decode response)
        { s with
          client := some client'
          responses := before ++ after
          told := s.told ++ [⟨report, response.database⟩] }
  | decodeFails {s : Session P} {client client' : Client P}
      {response : Response P} {before after : List (Response P)}
      {failure : ClientError P} (hclient : s.client = some client)
      (hresponses : s.responses = before ++ response :: after)
      (hcall : client.decode response.exchange.id response.decrypt =
        (.error failure, client')) :
      SessionStep P cfg s (.decode response)
        { s with client := some client', responses := before ++ after }

section Sessions

variable {P : EthPir}

/-- A report is made from the pending query under the id. -/
theorem Client.decode_eq_ok {client client' : Client P} {id : ℕ}
    {decrypt : Lookup P → Except (DecryptError P) Entry} {report : Report}
    (h : client.decode id decrypt = (.ok report, client')) :
    ∃ lookup, client.pending.lookup id = some lookup ∧
      ((∃ entry, decrypt lookup = .ok entry ∧
          report = .found lookup.address entry) ∨
        (decrypt lookup = .error .notInSet ∧
          report = .notHeld lookup.address)) := by
  unfold decode at h
  cases hlookup : client.pending.lookup id with
  | none =>
      rw [hlookup] at h
      cases h
  | some lookup =>
      rw [hlookup] at h
      refine ⟨lookup, rfl, ?_⟩
      cases hdecrypt : decrypt lookup with
      | ok entry =>
          simp only [hdecrypt] at h
          cases h
          exact .inl ⟨entry, rfl, rfl⟩
      | error failure =>
          cases failure with
          | notInSet =>
              simp only [hdecrypt] at h
              cases h
              exact .inr ⟨rfl, rfl⟩
          | fault e =>
              simp only [hdecrypt] at h
              cases h

theorem Client.lookup_query (client : Client P) (a : Address) :
    (client.query a).2.pending.lookup (client.query a).1 =
      some ⟨a, client.directory⟩ :=
  AList.lookup_insert client.pending

/-- A pending query whose record is not that of the address. -/
theorem Client.decode_notHeld {client : Client P} {id : ℕ}
    {decrypt : Lookup P → Except (DecryptError P) Entry} {lookup : Lookup P}
    (hpending : client.pending.lookup id = some lookup)
    (hdecrypt : decrypt lookup = .error .notInSet) :
    ∃ client', client.decode id decrypt =
      (.ok (.notHeld lookup.address), client') := by
  unfold decode
  rw [hpending]
  simp only [hdecrypt]
  exact ⟨_, rfl⟩

theorem Response.decrypt_of_ne {response : Response P} {lookup : Lookup P}
    {a : Address} {entry : Entry} (h : response.record = some (a, entry))
    (hne : a ≠ lookup.address) :
    response.decrypt lookup = .error .notInSet := by
  unfold decrypt
  rw [h]
  exact if_neg hne

/-- The record of the queried address is decrypted. -/
theorem Response.decrypt_of_record {response : Response P} {lookup : Lookup P}
    {entry : Entry} (h : response.record = some (lookup.address, entry)) :
    response.decrypt lookup = .ok entry := by
  unfold decrypt
  rw [h]
  exact if_pos rfl

end Sessions

end UsdtPir
