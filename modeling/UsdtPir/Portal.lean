import UsdtPir.ClientSession
import UsdtPir.DirectoryVersions
import UsdtPir.HashMaps
import UsdtPir.PendingQueries

/-!
# The portal

The page synchronizes its directory over two requests, and looks up addresses
over two more.  Between any two of them the server may publish, compact, stop
and start again, other lookups go on, and any request may fail.  When the page is
opened and after each lookup it also asks for the status, only to show it.
-/

namespace UsdtPir

open Machine

/-- What the second request of `sync` is for. -/
inductive Fetch
  | bootstrap
  | full
  | tail (start : ℕ)
  deriving DecidableEq

/-- `sync`.  Of the directory that was exposed when a request was handled only
the response to that request is read. -/
inductive SyncTask (P : EthPir)
  | asking
  | asked (status : Directory P)
  | fetching (status : Directory P) (fetch : Fetch)
  | fetched (status : Directory P) (fetch : Fetch) (d : Directory P)

/-- `run`: `ensureCurrent`, then `lookup`. -/
inductive RunTask (P : EthPir)
  | asking (address : Address)
  | asked (address : Address) (status : Directory P)
  | current (address : Address) (status : Directory P)
  | sent (address : Address) (status : Directory P) (exchange : Exchange P)
  | answered (address : Address) (status : Directory P)
      (response : Response P)

/-- A `sync` that has returned: what it was told, what it has fetched, and what
the client had in the end. -/
structure SyncDone (P : EthPir) where
  status : Directory P
  fetched : Option (Directory P)
  left : KeywordDirectory P.Mphf

/-- A report on the page, and what it was made from. -/
structure Displayed (P : EthPir) where
  address : Address
  status : Directory P
  response : Response P
  report : Report

/-- `held`, `synced` and `shown` are ghosts: all the directories the client has
had, the last one first, and all that was synchronized and reported. -/
structure Portal (P : EthPir) where
  endpoint : Endpoint P
  listening : Bool
  client : Option (Client P)
  syncing : Option (SyncTask P)
  runs : HashMap ℕ (RunTask P)
  held : List (KeywordDirectory P.Mphf)
  synced : List (SyncDone P)
  shown : List (Displayed P)

def Portal.new (P : EthPir) : Portal P :=
  ⟨⟨.down ⟨none, none⟩, []⟩, false, none, none, ∅, [], [], []⟩

inductive PortalEvent (P : EthPir)
  | server (e : EndpointEvent P)
  | sync
  | serveStatus
  | plan
  | serveDirectory
  | install
  | syncFails
  | run (i : ℕ) (a : Address)
  | serveCheck (i : ℕ)
  | check (i : ℕ)
  | query (i : ℕ)
  | answer (i : ℕ)
  | refuse (i : ℕ)
  | decode (i : ℕ)
  | decodeFails (i : ℕ)
  | runFails (i : ℕ)
  | refreshStatus

section Page

variable {P : EthPir}

/-- What `sync` fetches after the status, if anything. -/
def planned (client : Option (Client P)) (status : Directory P) :
    Option Fetch :=
  match client with
  | none => some .bootstrap
  | some client =>
      match client.syncNeed status.version status.tailLen with
      | .full => some .full
      | .tail start => some (.tail start)
      | .upToDate => none

/-- What the client makes of the second response, if nothing is thrown. -/
def Fetch.install (fetch : Fetch) (client : Option (Client P))
    (d : Directory P) : Option (Client P) :=
  match fetch, client with
  | .bootstrap, _ => (P.readFrom d.full).toOption.map .new
  | .full, some client => (client.resync d.full).toOption
  | .tail start, some client => do
      let tail ← (P.deltaEnvelopeFrom d.parsed start).toOption
      (client.applyTail tail).toOption
  | _, none => none

/-- The server listens once `publish_directory` has returned. -/
def listens (listening : Bool) (host : Host P) : EndpointEvent P → Bool
  | .host (.work e) => listening || !(host.shown (.work e)).isEmpty
  | _ => false

theorem listens_work {listening : Bool} {host : Host P} {e : PirEvent P} :
    listens listening host (.host (.work e)) =
      (listening || !(host.shown (.work e)).isEmpty) :=
  rfl

def Portal.enter (s : Portal P) (i : ℕ) (task : RunTask P) : Portal P :=
  { s with runs := s.runs.insert i task }

def Portal.leave (s : Portal P) (i : ℕ) : Portal P :=
  { s with runs := s.runs.erase i }

end Page

/-- While it runs, `sync` cannot be started again; `run` can. -/
inductive PortalStep (P : EthPir) (cfg : PirConfig) :
    Portal P → PortalEvent P → Portal P → Prop
  | server {s : Portal P} {e : EndpointEvent P} {endpoint : Endpoint P}
      (hstep : EndpointStep P cfg s.endpoint e endpoint) :
      PortalStep P cfg s (.server e)
        { s with endpoint, listening := listens s.listening endpoint.host e }
  | sync {s : Portal P} (hidle : s.syncing = none) :
      PortalStep P cfg s .sync { s with syncing := some .asking }
  | serveStatus {s : Portal P} {thread : PirThread P} {left : Leftover}
      (hlistens : s.listening = true) (hup : s.endpoint.host = .up thread left)
      (hsync : s.syncing = some .asking) :
      PortalStep P cfg s .serveStatus
        { s with syncing := some (.asked thread.exposed) }
  | fetch {s : Portal P} {status : Directory P} {fetch : Fetch}
      (hsync : s.syncing = some (.asked status))
      (hplan : planned s.client status = some fetch) :
      PortalStep P cfg s .plan
        { s with syncing := some (.fetching status fetch) }
  | upToDate {s : Portal P} {status : Directory P} {client : Client P}
      (hsync : s.syncing = some (.asked status))
      (hclient : s.client = some client)
      (hplan : planned (some client) status = none) :
      PortalStep P cfg s .plan
        { s with
          syncing := none
          synced := ⟨status, none, client.directory⟩ :: s.synced }
  | serveDirectory {s : Portal P} {thread : PirThread P} {left : Leftover}
      {status : Directory P} {fetch : Fetch} (hlistens : s.listening = true)
      (hup : s.endpoint.host = .up thread left)
      (hsync : s.syncing = some (.fetching status fetch)) :
      PortalStep P cfg s .serveDirectory
        { s with syncing := some (.fetched status fetch thread.exposed) }
  | install {s : Portal P} {status d : Directory P} {fetch : Fetch}
      {client : Client P} (hsync : s.syncing = some (.fetched status fetch d))
      (hcall : fetch.install s.client d = some client) :
      PortalStep P cfg s .install
        { s with
          client := some client
          syncing := none
          held := client.directory :: s.held
          synced := ⟨status, some d, client.directory⟩ :: s.synced }
  | syncFails {s : Portal P} {task : SyncTask P}
      (hsync : s.syncing = some task) :
      PortalStep P cfg s .syncFails { s with syncing := none }
  | run {s : Portal P} {i : ℕ} {a : Address} (hnew : i ∉ s.runs) :
      PortalStep P cfg s (.run i a) (s.enter i (.asking a))
  | serveCheck {s : Portal P} {thread : PirThread P} {left : Leftover} {i : ℕ}
      {a : Address} (hlistens : s.listening = true)
      (hup : s.endpoint.host = .up thread left)
      (hrun : s.runs.lookup i = some (.asking a)) :
      PortalStep P cfg s (.serveCheck i) (s.enter i (.asked a thread.exposed))
  | check {s : Portal P} {i : ℕ} {a : Address} {status : Directory P}
      {client : Client P} (hrun : s.runs.lookup i = some (.asked a status))
      (hclient : s.client = some client)
      (hneed : client.syncNeed status.version status.tailLen = .upToDate) :
      PortalStep P cfg s (.check i) (s.enter i (.current a status))
  | query {s : Portal P} {i : ℕ} {a : Address} {status : Directory P}
      {client : Client P} (hrun : s.runs.lookup i = some (.current a status))
      (hclient : s.client = some client) :
      PortalStep P cfg s (.query i)
        { s.enter i
            (.sent a status ⟨(client.query a).1, a, client.directory⟩) with
          client := some (client.query a).2 }
  | answer {s : Portal P} {thread : PirThread P} {left : Leftover} {i : ℕ}
      {a : Address} {status : Directory P} {exchange : Exchange P}
      (hlistens : s.listening = true) (hup : s.endpoint.host = .up thread left)
      (hrun : s.runs.lookup i = some (.sent a status exchange)) :
      PortalStep P cfg s (.answer i)
        (s.enter i (.answered a status ⟨exchange, P.database thread.server,
          (P.database thread.server).record exchange.lookup.slot⟩))
  | refuse {s : Portal P} {i : ℕ} {a : Address} {status : Directory P}
      {exchange : Exchange P} {client : Client P}
      (hrun : s.runs.lookup i = some (.sent a status exchange))
      (hclient : s.client = some client) :
      PortalStep P cfg s (.refuse i)
        { s.leave i with client := some (client.cancel exchange.id).2 }
  | decode {s : Portal P} {i : ℕ} {a : Address} {status : Directory P}
      {response : Response P} {client client' : Client P} {report : Report}
      (hrun : s.runs.lookup i = some (.answered a status response))
      (hclient : s.client = some client)
      (hcall : client.decode response.exchange.id response.decrypt =
        (.ok report, client')) :
      PortalStep P cfg s (.decode i)
        { s.leave i with
          client := some client'
          shown := ⟨a, status, response, report⟩ :: s.shown }
  | decodeFails {s : Portal P} {i : ℕ} {a : Address} {status : Directory P}
      {response : Response P} {client client' : Client P}
      {decrypt : Lookup P → Except (DecryptError P) Entry}
      {failure : ClientError P}
      (hrun : s.runs.lookup i = some (.answered a status response))
      (hclient : s.client = some client)
      (hcall : client.decode response.exchange.id decrypt =
        (.error failure, client')) :
      PortalStep P cfg s (.decodeFails i)
        { s.leave i with client := some client' }
  | runFails {s : Portal P} {i : ℕ} :
      PortalStep P cfg s (.runFails i) (s.leave i)
  | refreshStatus {s : Portal P} {thread : PirThread P} {left : Leftover}
      (hlistens : s.listening = true)
      (hup : s.endpoint.host = .up thread left) :
      PortalStep P cfg s .refreshStatus s

/-- The server numbers its indices on. -/
def NumbersOn {P : EthPir} (s : Portal P) : PortalEvent P → Prop
  | .server e => KeepsNumbering s.endpoint e
  | _ => True

end UsdtPir
