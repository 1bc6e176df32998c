import UsdtPir.DirectoryEndpoint
import UsdtPir.PortalDirectories

/-!
# What the server is told

Which addresses are looked up does not show in what the page asks the server
for, except inside of its encrypted queries.  Whatever other addresses had been
typed in instead, the page could have sent the same requests at the same times,
and waited for the same replies.
-/

namespace UsdtPir

open Machine

section Alike

variable {P : EthPir}

/-! ## Up to addresses -/

structure Exchange.Alike (exchange exchange' : Exchange P) : Prop where
  id : exchange.id = exchange'.id
  directory : exchange.lookup.directory = exchange'.lookup.directory

structure Response.Alike (response response' : Response P) : Prop where
  exchange : response.exchange.Alike response'.exchange
  database : response.database = response'.database

inductive RunTask.Alike : RunTask P → RunTask P → Prop
  | asking (a a' : Address) : Alike (.asking a) (.asking a')
  | asked (a a' : Address) (status : Directory P) :
      Alike (.asked a status) (.asked a' status)
  | current (a a' : Address) (status : Directory P) :
      Alike (.current a status) (.current a' status)
  | sent {a a' : Address} {status : Directory P}
      {exchange exchange' : Exchange P} (h : exchange.Alike exchange') :
      Alike (.sent a status exchange) (.sent a' status exchange')
  | answered {a a' : Address} {status : Directory P}
      {response response' : Response P} (h : response.Alike response') :
      Alike (.answered a status response) (.answered a' status response')

structure Displayed.Alike (shown shown' : Displayed P) : Prop where
  status : shown.status = shown'.status
  response : shown.response.Alike shown'.response

structure Client.Alike (client client' : Client P) : Prop where
  directory : client.directory = client'.directory
  nextId : client.nextId = client'.nextId
  pending : ∀ id, (client.pending.lookup id).map Lookup.directory =
    (client'.pending.lookup id).map Lookup.directory

/-- The same, but for the addresses and the reports about them. -/
structure Portal.Alike (s s' : Portal P) : Prop where
  endpoint : s.endpoint = s'.endpoint
  listening : s.listening = s'.listening
  client : Option.Rel Client.Alike s.client s'.client
  syncing : s.syncing = s'.syncing
  runs : ∀ i, Option.Rel RunTask.Alike (s.runs.lookup i) (s'.runs.lookup i)
  held : s.held = s'.held
  synced : s.synced = s'.synced
  shown : List.Forall₂ Displayed.Alike s.shown s'.shown

/-- Another address is typed in, or the same happens. -/
inductive PortalEvent.Alike : PortalEvent P → PortalEvent P → Prop
  | run (i : ℕ) (a a' : Address) : Alike (.run i a) (.run i a')
  | same (e : PortalEvent P) : Alike e e

/-- The request that the server handles. -/
def Portal.request (s : Portal P) : PortalEvent P → Option String
  | .serveStatus | .serveCheck _ | .refreshStatus => some "/v1/status"
  | .serveDirectory =>
      match s.syncing with
      | some (.fetching _ fetch) => some fetch.target
      | _ => none
  | .answer _ | .refuse _ => some "/v1/query"
  | _ => none

/-- A step, with the request that it handles. -/
def Portal.Asks (cfg : PirConfig) (s : Portal P)
    (x : PortalEvent P × Option String) (s' : Portal P) : Prop :=
  PortalStep P cfg s x.1 s' ∧ s.request x.1 = x.2

/-! ## The client -/

variable {client client' after : Client P} {response : Response P} {id : ℕ}

theorem Client.Alike.drop (h : client.Alike client') (id : ℕ) :
    Client.Alike { client with pending := client.pending.erase id }
      { client' with pending := client'.pending.erase id } := by
  refine ⟨h.directory, h.nextId, ?_⟩
  intro other
  dsimp only
  by_cases heq : other = id
  · rw [heq, AList.lookup_erase, AList.lookup_erase]
  · rw [AList.lookup_erase_ne heq, AList.lookup_erase_ne heq]
    exact h.pending other

theorem Client.Alike.query (h : client.Alike client') (a a' : Address) :
    (client.query a).1 = (client'.query a').1 ∧
      (client.query a).2.Alike (client'.query a').2 := by
  refine ⟨h.nextId, h.directory, ?_, ?_⟩
  · exact congrArg (fun id => (id + 1) % 2 ^ 32) h.nextId
  · intro id
    unfold Client.query
    dsimp only
    rw [h.nextId]
    by_cases heq : id = client'.nextId
    · rw [heq, AList.lookup_insert, AList.lookup_insert, Option.map_some,
        Option.map_some, h.directory]
    · rw [AList.lookup_insert_ne heq, AList.lookup_insert_ne heq]
      exact h.pending id

theorem Client.Alike.waiting (h : client.Alike client') {lookup : Lookup P}
    (hlookup : client.pending.lookup id = some lookup) :
    ∃ lookup', client'.pending.lookup id = some lookup' := by
  have hsame := h.pending id
  rw [hlookup, Option.map_some] at hsame
  obtain ⟨lookup', hlookup', -⟩ := Option.map_eq_some_iff.mp hsame.symm
  exact ⟨lookup', hlookup'⟩

theorem Client.decode_of_waiting {lookup : Lookup P}
    {decrypt : Lookup P → Except (DecryptError P) Entry}
    (h : client.pending.lookup id = some lookup) :
    client.decode id decrypt = (lookup.report decrypt,
      { client with pending := client.pending.erase id }) := by
  unfold decode Lookup.report
  rw [h]
  dsimp only
  cases decrypt lookup with
  | ok entry => rfl
  | error failure =>
      cases failure with
      | notInSet => rfl
      | fault e => rfl

/-- A response that can be decrypted makes a report, whatever it says. -/
theorem Response.report_decrypt (response : Response P) (lookup : Lookup P) :
    ∃ report, lookup.report response.decrypt = .ok report := by
  unfold Lookup.report Response.decrypt
  cases response.record with
  | none => exact ⟨_, rfl⟩
  | some row =>
      obtain ⟨a, entry⟩ := row
      by_cases heq : a = lookup.address
      · simp only [if_pos heq]
        exact ⟨_, rfl⟩
      · simp only [if_neg heq]
        exact ⟨_, rfl⟩

theorem Client.Alike.decode {report : Report} (h : client.Alike client')
    (response' : Response P)
    (hcall : client.decode id response.decrypt = (.ok report, after)) :
    ∃ report' after', client'.decode id response'.decrypt =
      (.ok report', after') ∧ after.Alike after' := by
  cases hlookup : client.pending.lookup id with
  | none =>
      rw [Client.decode_of_none hlookup] at hcall
      cases hcall
  | some lookup =>
      rw [Client.decode_of_waiting hlookup, Prod.mk.injEq] at hcall
      obtain ⟨-, rfl⟩ := hcall
      obtain ⟨lookup', hlookup'⟩ := h.waiting hlookup
      obtain ⟨report', hreport'⟩ := response'.report_decrypt lookup'
      refine ⟨report', _, ?_, h.drop id⟩
      rw [Client.decode_of_waiting hlookup', hreport']

/-- What fails for one address may fail for any. -/
theorem Client.Alike.decodeFails {failure : ClientError P}
    {decrypt : Lookup P → Except (DecryptError P) Entry}
    (h : client.Alike client')
    (hcall : client.decode id decrypt = (.error failure, after)) :
    ∃ decrypt' after', client'.decode id decrypt' =
      (.error failure, after') ∧ after.Alike after' := by
  cases hlookup : client.pending.lookup id with
  | none =>
      rw [Client.decode_of_none hlookup] at hcall
      cases hcall
      have hnone : client'.pending.lookup id = none := by
        have hsame := h.pending id
        rw [hlookup, Option.map_none] at hsame
        exact Option.map_eq_none_iff.mp hsame.symm
      exact ⟨decrypt, client', Client.decode_of_none hnone, h⟩
  | some lookup =>
      rw [Client.decode_of_waiting hlookup, Prod.mk.injEq] at hcall
      obtain ⟨hfails, rfl⟩ := hcall
      obtain ⟨lookup', hlookup'⟩ := h.waiting hlookup
      have hreport : lookup'.report (fun _ => decrypt lookup) =
          .error failure := by
        unfold Lookup.report at hfails ⊢
        cases hdecrypt : decrypt lookup with
        | ok entry =>
            rw [hdecrypt] at hfails
            cases hfails
        | error reason =>
            rw [hdecrypt] at hfails
            cases reason with
            | notInSet => cases hfails
            | fault e => exact hfails
      refine ⟨fun _ => decrypt lookup, _, ?_, h.drop id⟩
      rw [Client.decode_of_waiting hlookup', hreport]

/-- The second response is installed over either. -/
theorem Client.Alike.install {held held' : Option (Client P)} {fetch : Fetch}
    {d : Directory P} (h : Option.Rel Client.Alike held held')
    (hcall : fetch.install held d = some client) :
    ∃ client', fetch.install held' d = some client' ∧
      client.Alike client' := by
  cases fetch with
  | bootstrap =>
      exact ⟨client, hcall, rfl, rfl, fun id => rfl⟩
  | full =>
      cases h with
      | none => cases hcall
      | @some before before' h =>
          have hresync := eq_ok_of_toOption hcall
          unfold Client.resync at hresync
          cases hread : P.readFrom d.full with
          | error e =>
              rw [hread] at hresync
              cases hresync
          | ok directory =>
              rw [hread] at hresync
              cases hresync
              refine ⟨{ before' with directory, pending := ∅ }, ?_, rfl,
                h.nextId, fun id => rfl⟩
              unfold Fetch.install Client.resync
              dsimp only
              rw [hread]
              rfl
  | tail start =>
      cases h with
      | none => cases hcall
      | @some before before' h =>
          obtain ⟨tail, henvelope, hjoin⟩ := Option.bind_eq_some_iff.mp hcall
          have happly := eq_ok_of_toOption hjoin
          unfold Client.applyTail at happly
          cases happlied : P.applyTail before.directory tail with
          | error e =>
              rw [happlied] at happly
              cases happly
          | ok directory =>
              rw [happlied] at happly
              cases happly
              refine ⟨{ before' with directory }, ?_, rfl, h.nextId, h.pending⟩
              unfold Fetch.install Client.applyTail
              dsimp only
              rw [henvelope, ← h.directory]
              dsimp only [Option.bind_eq_bind, Option.bind_some]
              rw [happlied]
              rfl

theorem Client.Alike.syncNeed (h : client.Alike client') (version tailLen : ℕ) :
    client.syncNeed version tailLen = client'.syncNeed version tailLen := by
  unfold Client.syncNeed Client.version Client.tailLen
  rw [h.directory]

theorem Client.Alike.planned {held held' : Option (Client P)}
    (h : Option.Rel Client.Alike held held') (status : Directory P) :
    planned held status = UsdtPir.planned held' status := by
  cases h with
  | none => rfl
  | some h =>
      unfold UsdtPir.planned
      dsimp only
      rw [h.syncNeed]

/-! ## The page -/

variable {cfg : PirConfig} {s s₁ s' : Portal P} {e e' : PortalEvent P} {i : ℕ}
    {task task' : RunTask P}

theorem Portal.Alike.enter (h : s.Alike s') (htask : task.Alike task') :
    (s.enter i task).Alike (s'.enter i task') := by
  refine ⟨h.endpoint, h.listening, h.client, h.syncing, ?_, h.held, h.synced,
    h.shown⟩
  intro j
  unfold Portal.enter
  dsimp only
  by_cases heq : j = i
  · rw [heq, AList.lookup_insert, AList.lookup_insert]
    exact .some htask
  · rw [AList.lookup_insert_ne heq, AList.lookup_insert_ne heq]
    exact h.runs j

theorem Portal.Alike.leave (h : s.Alike s') (i : ℕ) :
    (s.leave i).Alike (s'.leave i) := by
  refine ⟨h.endpoint, h.listening, h.client, h.syncing, ?_, h.held, h.synced,
    h.shown⟩
  intro j
  unfold Portal.leave
  dsimp only
  by_cases heq : j = i
  · rw [heq, AList.lookup_erase, AList.lookup_erase]
    exact .none
  · rw [AList.lookup_erase_ne heq, AList.lookup_erase_ne heq]
    exact h.runs j

theorem Portal.Alike.lookup (h : s.Alike s')
    (hrun : s.runs.lookup i = some task) :
    ∃ task', s'.runs.lookup i = some task' ∧ task.Alike task' := by
  have hsame := h.runs i
  rw [hrun] at hsame
  cases hlookup : s'.runs.lookup i with
  | none =>
      rw [hlookup] at hsame
      cases hsame
  | some task' =>
      rw [hlookup] at hsame
      cases hsame with
      | some halike => exact ⟨task', rfl, halike⟩

theorem Portal.Alike.holds (h : s.Alike s') (hclient : s.client = some client) :
    ∃ client', s'.client = some client' ∧ client.Alike client' := by
  have hsame := h.client
  rw [hclient] at hsame
  cases hheld : s'.client with
  | none =>
      rw [hheld] at hsame
      cases hsame
  | some client' =>
      rw [hheld] at hsame
      cases hsame with
      | some halike => exact ⟨client', rfl, halike⟩

theorem Portal.Alike.request (h : s.Alike s') (halike : e.Alike e') :
    s.request e = s'.request e' := by
  cases halike with
  | run i a a' => rfl
  | same e =>
      unfold Portal.request
      rw [h.syncing]

/-- Whatever address is asked for, the page can take its step. -/
theorem Portal.Alike.step (hstep : PortalStep P cfg s e s₁)
    (halike : e.Alike e') (h : s.Alike s') :
    ∃ s₁', PortalStep P cfg s' e' s₁' ∧ s₁.Alike s₁' := by
  cases hstep with
  | @server e endpoint hstep =>
      cases halike
      rw [h.endpoint] at hstep
      refine ⟨_, .server hstep, rfl, ?_, h.client, h.syncing, h.runs, h.held,
        h.synced, h.shown⟩
      dsimp only
      rw [h.listening]
  | sync hidle =>
      cases halike
      rw [h.syncing] at hidle
      exact ⟨_, .sync hidle, h.endpoint, h.listening, h.client, rfl, h.runs,
        h.held, h.synced, h.shown⟩
  | serveStatus hlistens hup hsync =>
      cases halike
      rw [h.listening] at hlistens
      rw [h.endpoint] at hup
      rw [h.syncing] at hsync
      exact ⟨_, .serveStatus hlistens hup hsync, h.endpoint, h.listening,
        h.client, rfl, h.runs, h.held, h.synced, h.shown⟩
  | fetch hsync hplan =>
      cases halike
      rw [h.syncing] at hsync
      rw [Client.Alike.planned h.client] at hplan
      exact ⟨_, .fetch hsync hplan, h.endpoint, h.listening, h.client, rfl,
        h.runs, h.held, h.synced, h.shown⟩
  | @upToDate status client hsync hclient hplan =>
      cases halike
      obtain ⟨client', hclient', hsame⟩ := h.holds hclient
      rw [h.syncing] at hsync
      rw [Client.Alike.planned (.some hsame)] at hplan
      refine ⟨_, .upToDate hsync hclient' hplan, h.endpoint, h.listening,
        h.client, rfl, h.runs, h.held, ?_, h.shown⟩
      dsimp only
      rw [hsame.directory, h.synced]
  | serveDirectory hlistens hup hsync =>
      cases halike
      rw [h.listening] at hlistens
      rw [h.endpoint] at hup
      rw [h.syncing] at hsync
      exact ⟨_, .serveDirectory hlistens hup hsync, h.endpoint, h.listening,
        h.client, rfl, h.runs, h.held, h.synced, h.shown⟩
  | @install status d fetch client hsync hcall =>
      cases halike
      obtain ⟨client', hcall', hsame⟩ := Client.Alike.install h.client hcall
      rw [h.syncing] at hsync
      refine ⟨_, .install hsync hcall', h.endpoint, h.listening, .some hsame,
        rfl, h.runs, ?_, ?_, h.shown⟩
      · dsimp only
        rw [hsame.directory, h.held]
      · dsimp only
        rw [hsame.directory, h.synced]
  | syncFails hsync =>
      cases halike
      rw [h.syncing] at hsync
      exact ⟨_, .syncFails hsync, h.endpoint, h.listening, h.client, rfl,
        h.runs, h.held, h.synced, h.shown⟩
  | @run i a hnew =>
      have hfresh : i ∉ s'.runs := by
        rw [← AList.lookup_eq_none] at hnew ⊢
        have hsame := h.runs i
        rw [hnew] at hsame
        cases hlookup : s'.runs.lookup i with
        | none => rfl
        | some task =>
            rw [hlookup] at hsame
            cases hsame
      cases halike with
      | run i a a' => exact ⟨_, .run hfresh, h.enter (.asking a a')⟩
      | same => exact ⟨_, .run hfresh, h.enter (.asking a a)⟩
  | serveCheck hlistens hup hrun =>
      cases halike
      obtain ⟨task', hrun', hsame⟩ := h.lookup hrun
      rw [h.listening] at hlistens
      rw [h.endpoint] at hup
      cases hsame with
      | asking a a' =>
          exact ⟨_, .serveCheck hlistens hup hrun', h.enter (.asked _ _ _)⟩
  | check hrun hclient hneed =>
      cases halike
      obtain ⟨task', hrun', hsame⟩ := h.lookup hrun
      obtain ⟨client', hclient', hclients⟩ := h.holds hclient
      rw [hclients.syncNeed] at hneed
      cases hsame with
      | asked a a' status =>
          exact ⟨_, .check hrun' hclient' hneed, h.enter (.current _ _ _)⟩
  | @query i a status client hrun hclient =>
      cases halike
      obtain ⟨task', hrun', hsame⟩ := h.lookup hrun
      obtain ⟨client', hclient', hclients⟩ := h.holds hclient
      cases hsame with
      | current _ a' _ =>
          obtain ⟨hid, hafter⟩ := hclients.query a a'
          have hsent : RunTask.Alike
              (.sent a status ⟨(client.query a).1, a, client.directory⟩)
              (.sent a' status ⟨(client'.query a').1, a', client'.directory⟩) :=
            .sent ⟨hid, hclients.directory⟩
          have hentered := h.enter (i := i) hsent
          exact ⟨_, .query hrun' hclient', hentered.endpoint,
            hentered.listening, .some hafter, hentered.syncing, hentered.runs,
            hentered.held, hentered.synced, hentered.shown⟩
  | answer hlistens hup hrun =>
      cases halike
      obtain ⟨task', hrun', hsame⟩ := h.lookup hrun
      rw [h.listening] at hlistens
      rw [h.endpoint] at hup
      cases hsame with
      | sent hexchange =>
          exact ⟨_, .answer hlistens hup hrun',
            h.enter (.answered ⟨hexchange, rfl⟩)⟩
  | @refuse i a status exchange client hrun hclient =>
      cases halike
      obtain ⟨task', hrun', hsame⟩ := h.lookup hrun
      obtain ⟨client', hclient', hclients⟩ := h.holds hclient
      cases hsame with
      | @sent a a' status exchange exchange' hexchange =>
          have hdropped := hclients.drop exchange.id
          have hleft := h.leave i
          refine ⟨_, .refuse hrun' hclient', hleft.endpoint, hleft.listening,
            .some ?_, hleft.syncing, hleft.runs, hleft.held, hleft.synced,
            hleft.shown⟩
          rw [← hexchange.id]
          exact hdropped
  | @decode i a status response client client₁ report hrun hclient hcall =>
      cases halike
      obtain ⟨task', hrun', hsame⟩ := h.lookup hrun
      obtain ⟨client', hclient', hclients⟩ := h.holds hclient
      cases hsame with
      | @answered a a' status response response' hresponse =>
          obtain ⟨report', after', hcall', hafter⟩ :=
            hclients.decode response' hcall
          rw [hresponse.exchange.id] at hcall'
          have hleft := h.leave i
          exact ⟨_, .decode hrun' hclient' hcall', hleft.endpoint,
            hleft.listening, .some hafter, hleft.syncing, hleft.runs,
            hleft.held, hleft.synced, .cons ⟨rfl, hresponse⟩ h.shown⟩
  | @decodeFails i a status response client client₁ decrypt failure hrun hclient
      hcall =>
      cases halike
      obtain ⟨task', hrun', hsame⟩ := h.lookup hrun
      obtain ⟨client', hclient', hclients⟩ := h.holds hclient
      cases hsame with
      | @answered a a' status response response' hresponse =>
          obtain ⟨decrypt', after', hcall', hafter⟩ := hclients.decodeFails hcall
          rw [hresponse.exchange.id] at hcall'
          have hleft := h.leave i
          exact ⟨_, .decodeFails hrun' hclient' hcall', hleft.endpoint,
            hleft.listening, .some hafter, hleft.syncing, hleft.runs,
            hleft.held, hleft.synced, hleft.shown⟩
  | @runFails i =>
      cases halike
      exact ⟨_, .runFails, h.leave i⟩
  | refreshStatus hlistens hup =>
      cases halike
      rw [h.listening] at hlistens
      rw [h.endpoint] at hup
      exact ⟨_, .refreshStatus hlistens hup, h⟩

/-- The page sends the same requests, whichever addresses are looked up: all
that the server is told of an address is inside of an encrypted query. -/
theorem addresses_stay_on_page
    {events events' : List (PortalEvent P × Option String)}
    (hrun : Run (Portal.Asks cfg) (.new P) events s)
    (hothers : List.Forall₂ (fun x x' => x.1.Alike x'.1 ∧ x.2 = x'.2) events
      events') :
    ∃ s', Run (Portal.Asks cfg) (.new P) events' s' ∧ s.Alike s' := by
  have hstart : (Portal.new P).Alike (.new P) :=
    ⟨rfl, rfl, .none, rfl, fun i => .none, rfl, rfl, .nil⟩
  apply hrun.relabel hothers hstart
  intro s x s₁ x' s' hstep hsame h
  obtain ⟨hstep, hrequest⟩ := hstep
  obtain ⟨halike, hlabel⟩ := hsame
  obtain ⟨s₁', hstep', hafter⟩ := Portal.Alike.step hstep halike h
  refine ⟨s₁', ⟨hstep', ?_⟩, hafter⟩
  rw [← h.request halike, hrequest, hlabel]

theorem Portal.asks_run {events : List (PortalEvent P)}
    (hrun : Run (PortalStep P cfg) s events s₁) :
    ∃ asked, Run (Portal.Asks cfg) s asked s₁ ∧
      asked.map Prod.fst = events := by
  induction hrun with
  | nil s => exact ⟨[], .nil s, rfl⟩
  | @cons s₀ _ _ e _ hstep hrest ih =>
      obtain ⟨asked, hasked, hevents⟩ := ih
      exact ⟨(e, s₀.request e) :: asked, .cons ⟨hstep, rfl⟩ hasked,
        congrArg (List.cons e) hevents⟩

end Alike

/-! ### Another holder is looked up -/

namespace RestoredTail

open Sample

/-- The same with `a` typed in. -/
def typed (a : Address) (x : PortalEvent Library × Option String) :
    PortalEvent Library × Option String :=
  match x with
  | (.run i _, request) => (.run i a, request)
  | x => x

theorem alike_typed (a : Address) (x : PortalEvent Library × Option String) :
    x.1.Alike (typed a x).1 ∧ x.2 = (typed a x).2 := by
  obtain ⟨e, request⟩ := x
  cases e with
  | run i b => exact ⟨.run i b a, rfl⟩
  | _ => exact ⟨.same _, rfl⟩

/-- The first holder could have been looked up instead of the second. -/
theorem addresses_stay_on_page_restored : ∃ events s s',
    Run (Portal.Asks cfg) (.new Library) events s ∧
    s.shown.map Displayed.report = [.found second entry] ∧
    Run (Portal.Asks cfg) (.new Library) (events.map (typed first)) s' ∧
    s'.shown.length = 1 := by
  obtain ⟨events, s, hrun, -, -, -, hreports⟩ := run
  obtain ⟨asked, hasked, -⟩ := Portal.asks_run (hrun.mono And.left)
  have hothers : List.Forall₂ (fun x x' => x.1.Alike x'.1 ∧ x.2 = x'.2) asked
      (asked.map (typed first)) := by
    rw [List.forall₂_map_right_iff]
    exact List.forall₂_same.mpr fun x _ => alike_typed first x
  obtain ⟨s', hrun', halike⟩ := addresses_stay_on_page hasked hothers
  refine ⟨asked, s, s', hasked, hreports, hrun', ?_⟩
  rw [← halike.shown.length_eq]
  have hone := congrArg List.length hreports
  rw [List.length_map] at hone
  exact hone

end RestoredTail

end UsdtPir
