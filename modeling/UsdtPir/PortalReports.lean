import UsdtPir.PortalDirectories

/-!
# The reports of the portal

Lookups overlap, and a new directory drops the queries that wait.  Still every
report on the page is about the address that was asked for, and says what the
answering database has in the slot of that very query; and only a request that
was never answered leaves a query behind.
-/

namespace UsdtPir

open Machine

section Reports

variable {P : EthPir} {cfg : PirConfig} {s s' : Portal P}

/-- What a database says of an address in a slot. -/
def Database.reportOf {M : Type} (database : Database M) (slot : ℕ)
    (a : Address) : Report :=
  match database.record slot with
  | some (b, entry) => if b = a then .found a entry else .notHeld a
  | none => .notHeld a

def RunTask.exchange : RunTask P → Option (Exchange P)
  | .sent _ _ exchange => some exchange
  | .answered _ _ response => some response.exchange
  | _ => none

/-- The exchange of a lookup whose query was made. -/
def Portal.exchangeOf (s : Portal P) (i : ℕ) : Option (Exchange P) :=
  (s.runs.lookup i).bind RunTask.exchange

def PortalEvent.isQuery : PortalEvent P → Bool
  | .query _ => true
  | _ => false

/-- No lookup fails while its query waits: no request is dropped. -/
def Portal.Attends (s : Portal P) : PortalEvent P → Prop
  | .runFails i => ∀ exchange client, s.exchangeOf i = some exchange →
      s.client = some client → client.pending.lookup exchange.id = none
  | _ => True

/-- The query is that of the address, and the response that of the query. -/
def RunTask.Own : RunTask P → Prop
  | .sent a _ exchange => exchange.lookup.address = a
  | .answered a _ response => response.exchange.lookup.address = a ∧
      response.record = response.database.record response.exchange.lookup.slot
  | _ => True

def Displayed.Own (shown : Displayed P) : Prop :=
  shown.report = shown.response.database.reportOf
    (P.slot shown.response.exchange.lookup.directory shown.address)
    shown.address

/-- After so many queries, and if no request was dropped. -/
structure Portal.Numbered (queries : ℕ) (tidy : Prop) (s : Portal P) :
    Prop where
  fetching : ∀ status, s.syncing = some (.fetching status .bootstrap) →
    s.client = none
  fetched : ∀ status d, s.syncing = some (.fetched status .bootstrap d) →
    s.client = none
  unasked : s.client = none → queries = 0
  nextId : ∀ client, s.client = some client →
    client.nextId = queries % 2 ^ 32
  asked : ∀ client id lookup, s.client = some client →
    client.pending.lookup id = some lookup → id < queries
  sent : ∀ i exchange, s.exchangeOf i = some exchange →
    exchange.id < queries ∧ ∀ client lookup, s.client = some client →
      client.pending.lookup exchange.id = some lookup →
      lookup = exchange.lookup
  attended : tidy → ∀ client id lookup, s.client = some client →
    client.pending.lookup id = some lookup →
    ∃ i exchange, s.exchangeOf i = some exchange ∧ exchange.id = id
  own : ∀ i task, s.runs.lookup i = some task → task.Own
  shown : ∀ shown ∈ s.shown, shown.Own

/-- While the ids last. -/
def Portal.Counted (tidy : Prop) (past : List (PortalEvent P)) (s : Portal P) :
    Prop :=
  past.countP PortalEvent.isQuery ≤ 2 ^ 32 →
    s.Numbered (past.countP PortalEvent.isQuery) tidy

variable {queries : ℕ} {tidy : Prop} {i j : ℕ} {task : RunTask P}
    {client client' : Client P} {exchange : Exchange P}

@[simp] theorem Portal.exchangeOf_enter : (s.enter i task).exchangeOf j =
    if j = i then task.exchange else s.exchangeOf j := by
  unfold exchangeOf enter
  by_cases heq : j = i
  · rw [if_pos heq, heq, AList.lookup_insert]
    rfl
  · rw [if_neg heq, AList.lookup_insert_ne heq]

@[simp] theorem Portal.exchangeOf_leave : (s.leave i).exchangeOf j =
    if j = i then none else s.exchangeOf j := by
  unfold exchangeOf leave
  by_cases heq : j = i
  · rw [if_pos heq, heq, AList.lookup_erase]
    rfl
  · rw [if_neg heq, AList.lookup_erase_ne heq]

theorem Portal.exchangeOf_of_lookup (h : s.runs.lookup i = some task) :
    s.exchangeOf i = task.exchange := by
  unfold exchangeOf
  rw [h]
  rfl

theorem Portal.numbered_new : (Portal.new P).Numbered 0 tidy := by
  constructor
  · intro status hsync
    cases hsync
  · intro status d hsync
    cases hsync
  · intro _
    rfl
  · intro client hclient
    cases hclient
  · intro client id lookup hclient
    cases hclient
  · intro i exchange hexchange
    cases hexchange
  · intro _ client id lookup hclient
    cases hclient
  · intro i task htask
    cases htask
  · intro shown hshown
    cases hshown

namespace Portal.Numbered

theorem turn {syncing : Option (SyncTask P)} (h : s.Numbered queries tidy)
    (hfetching : ∀ status, syncing = some (.fetching status .bootstrap) →
      s.client = none)
    (hfetched : ∀ status d, syncing = some (.fetched status .bootstrap d) →
      s.client = none) :
    Portal.Numbered queries tidy { s with syncing } := by
  obtain ⟨-, -, hunasked, hnextId, hasked, hsent, hattended, hown, hshown⟩ := h
  exact ⟨hfetching, hfetched, hunasked, hnextId, hasked, hsent, hattended, hown,
    hshown⟩

/-- A lookup goes on, with the exchange it has. -/
theorem enter (h : s.Numbered queries tidy) (hown : task.Own)
    (hsame : task.exchange = s.exchangeOf i) :
    (s.enter i task).Numbered queries tidy := by
  have hexchanges : (s.enter i task).exchangeOf = s.exchangeOf := by
    funext j
    rw [exchangeOf_enter, hsame]
    split
    · rename_i heq
      rw [heq]
    · rfl
  obtain ⟨hfetching, hfetched, hunasked, hnextId, hasked, hsent, hattended,
    howns, hshown⟩ := h
  refine ⟨hfetching, hfetched, hunasked, hnextId, hasked, ?_, ?_, ?_, hshown⟩
  · rw [hexchanges]
    exact hsent
  · rw [hexchanges]
    exact hattended
  · intro j other hother
    obtain ⟨-, hnew⟩ | ⟨-, hold⟩ := lookup_of_insert hother
    · rw [hnew]
      exact hown
    · exact howns j other hold

theorem asks (a : Address) (status : Directory P)
    (h : s.Numbered queries tidy) (hclient : s.client = some client)
    (hcurrent : s.exchangeOf i = none) (hroom : queries < 2 ^ 32) :
    Portal.Numbered (queries + 1) tidy
      { s.enter i (.sent a status ⟨(client.query a).1, a, client.directory⟩) with
        client := some (client.query a).2 } := by
  have hid : client.nextId = queries := by
    rw [h.nextId client hclient, Nat.mod_eq_of_lt hroom]
  have hlookup : ∀ id lookup,
      (client.query a).2.pending.lookup id = some lookup →
      (id = queries ∧ lookup = ⟨a, client.directory⟩) ∨
        (id ≠ queries ∧ client.pending.lookup id = some lookup) := by
    intro id lookup hpending
    rw [← hid]
    exact lookup_of_insert hpending
  constructor
  · intro status' hsync
    have hnone := h.fetching status' hsync
    rw [hclient] at hnone
    cases hnone
  · intro status' d hsync
    have hnone := h.fetched status' d hsync
    rw [hclient] at hnone
    cases hnone
  · intro hnone
    cases hnone
  · intro other hother
    cases hother
    change (client.nextId + 1) % 2 ^ 32 = (queries + 1) % 2 ^ 32
    rw [hid]
  · intro other id lookup hother hpending
    cases hother
    obtain ⟨heq, -⟩ | ⟨-, hold⟩ := hlookup id lookup hpending
    · omega
    · have hlt := h.asked client id lookup hclient hold
      omega
  · intro j exchange hexchange
    change (s.enter i _).exchangeOf j = some exchange at hexchange
    rw [exchangeOf_enter] at hexchange
    split at hexchange
    · cases hexchange
      refine ⟨by change client.nextId < queries + 1; omega, ?_⟩
      intro other lookup hother hpending
      cases hother
      obtain ⟨-, heq⟩ | ⟨hne, -⟩ := hlookup client.nextId lookup hpending
      · exact heq
      · exact absurd hid hne
    · obtain ⟨hlt, hsame⟩ := h.sent j exchange hexchange
      refine ⟨by omega, ?_⟩
      intro other lookup hother hpending
      cases hother
      obtain ⟨heq, -⟩ | ⟨-, hold⟩ := hlookup exchange.id lookup hpending
      · omega
      · exact hsame client lookup hclient hold
  · intro htidy other id lookup hother hpending
    cases hother
    obtain ⟨heq, -⟩ | ⟨-, hold⟩ := hlookup id lookup hpending
    · refine ⟨i, ⟨client.nextId, a, client.directory⟩, ?_, hid.trans heq.symm⟩
      exact exchangeOf_enter.trans (if_pos rfl)
    · obtain ⟨j, exchange, hexchange, hsame⟩ :=
        h.attended htidy client id lookup hclient hold
      have hne : j ≠ i := by
        intro heq
        rw [heq, hcurrent] at hexchange
        cases hexchange
      exact ⟨j, exchange, exchangeOf_enter.trans ((if_neg hne).trans hexchange),
        hsame⟩
  · intro j other hother
    obtain ⟨-, hnew⟩ | ⟨-, hold⟩ := lookup_of_insert hother
    · rw [hnew]
      rfl
    · exact h.own j other hold
  · exact h.shown

/-- A lookup is over, and nothing waits under its id. -/
theorem settle (h : s.Numbered queries tidy) (hclient : s.client = some client)
    (hexchange : s.exchangeOf i = some exchange)
    (hnextId : client'.nextId = client.nextId)
    (hpending : ∀ other, client'.pending.lookup other =
      if other = exchange.id then none else client.pending.lookup other) :
    Portal.Numbered queries tidy { s.leave i with client := some client' } := by
  have hlookup : ∀ id lookup, client'.pending.lookup id = some lookup →
      id ≠ exchange.id ∧ client.pending.lookup id = some lookup := by
    intro id lookup hsome
    rw [hpending] at hsome
    split at hsome
    · cases hsome
    · rename_i hne
      exact ⟨hne, hsome⟩
  have hleft : ∀ j other,
      Portal.exchangeOf { s.leave i with client := some client' } j =
        some other → s.exchangeOf j = some other := by
    intro j other hother
    change (s.leave i).exchangeOf j = some other at hother
    rw [exchangeOf_leave] at hother
    split at hother
    · cases hother
    · exact hother
  constructor
  · intro status hsync
    have hnone := h.fetching status hsync
    rw [hclient] at hnone
    cases hnone
  · intro status d hsync
    have hnone := h.fetched status d hsync
    rw [hclient] at hnone
    cases hnone
  · intro hnone
    cases hnone
  · intro other hother
    cases hother
    rw [hnextId]
    exact h.nextId client hclient
  · intro other id lookup hother hsome
    cases hother
    exact h.asked client id lookup hclient (hlookup id lookup hsome).2
  · intro j other hother
    obtain ⟨hlt, hsame⟩ := h.sent j other (hleft j other hother)
    refine ⟨hlt, ?_⟩
    intro client'' lookup hclient' hsome
    cases hclient'
    exact hsame client lookup hclient (hlookup other.id lookup hsome).2
  · intro htidy client'' id lookup hclient' hsome
    cases hclient'
    obtain ⟨hne, hold⟩ := hlookup id lookup hsome
    obtain ⟨j, other, hother, hid⟩ :=
      h.attended htidy client id lookup hclient hold
    have hdistinct : j ≠ i := by
      intro heq
      rw [heq, hexchange, Option.some.injEq] at hother
      rw [hother] at hne
      exact hne hid.symm
    exact ⟨j, other, exchangeOf_leave.trans ((if_neg hdistinct).trans hother),
      hid⟩
  · intro j other hother
    exact h.own j other (lookup_of_erase hother).2
  · exact h.shown

/-- A lookup fails; a query that waits is not its own, if none was dropped. -/
theorem fail (hattends : tidy → s.Attends (.runFails i))
    (h : s.Numbered queries tidy) : (s.leave i).Numbered queries tidy := by
  obtain ⟨hfetching, hfetched, hunasked, hnextId, hasked, hsent, hattended, hown,
    hshown⟩ := h
  refine ⟨hfetching, hfetched, hunasked, hnextId, hasked, ?_, ?_, ?_, hshown⟩
  · intro j exchange hexchange
    rw [exchangeOf_leave] at hexchange
    split at hexchange
    · cases hexchange
    · exact hsent j exchange hexchange
  · intro htidy client id lookup hclient hpending
    obtain ⟨j, exchange, hexchange, hid⟩ :=
      hattended htidy client id lookup hclient hpending
    have hdistinct : j ≠ i := by
      intro heq
      rw [heq] at hexchange
      have hnone := hattends htidy exchange client hexchange hclient
      rw [hid, hpending] at hnone
      cases hnone
    exact ⟨j, exchange, exchangeOf_leave.trans ((if_neg hdistinct).trans hexchange),
      hid⟩
  · intro j other hother
    exact hown j other (lookup_of_erase hother).2

/-- A new directory keeps the queries that wait, or drops them all. -/
theorem install_cases {held : Option (Client P)} {fetch : Fetch}
    {d : Directory P} (h : fetch.install held d = some client') :
    (fetch = .bootstrap ∧ client'.nextId = 0 ∧ client'.pending = ∅) ∨
      ∃ client, held = some client ∧ client'.nextId = client.nextId ∧
        ∀ id lookup, client'.pending.lookup id = some lookup →
          client.pending.lookup id = some lookup := by
  cases fetch with
  | bootstrap =>
      obtain ⟨directory, -, hnew⟩ := Option.map_eq_some_iff.mp h
      rw [← hnew]
      exact .inl ⟨rfl, rfl, rfl⟩
  | full =>
      cases held with
      | none => cases h
      | some client =>
          have hcall := eq_ok_of_toOption h
          obtain ⟨e, herror⟩ | ⟨directory, hok⟩ := client.resync_cases d.full
          · rw [herror] at hcall
            cases hcall
          · rw [hok] at hcall
            cases hcall
            refine .inr ⟨client, rfl, rfl, ?_⟩
            intro id lookup hlookup
            cases hlookup
  | tail start =>
      cases held with
      | none => cases h
      | some client =>
          obtain ⟨tail, -, hjoin⟩ := Option.bind_eq_some_iff.mp h
          have hcall := eq_ok_of_toOption hjoin
          obtain ⟨e, herror⟩ | ⟨directory, hok⟩ := client.applyTail_cases tail
          · rw [herror] at hcall
            cases hcall
          · rw [hok] at hcall
            cases hcall
            exact .inr ⟨client, rfl, rfl, fun id lookup hlookup => hlookup⟩

theorem install {status d : Directory P} {fetch : Fetch}
    {held : List (KeywordDirectory P.Mphf)} {synced : List (SyncDone P)}
    (h : s.Numbered queries tidy)
    (hsync : s.syncing = some (.fetched status fetch d))
    (hcall : fetch.install s.client d = some client') :
    Portal.Numbered queries tidy
      { s with client := some client', syncing := none, held, synced } := by
  have hnextId : client'.nextId = queries % 2 ^ 32 := by
    obtain ⟨hfetch, hzero, -⟩ | ⟨client, hclient, hsame, -⟩ :=
      install_cases hcall
    · rw [hfetch] at hsync
      rw [hzero, h.unasked (h.fetched status d hsync), Nat.zero_mod]
    · rw [hsame, h.nextId client hclient]
  have hpending : ∀ id lookup, client'.pending.lookup id = some lookup →
      ∃ client, s.client = some client ∧
        client.pending.lookup id = some lookup := by
    intro id lookup hlookup
    obtain ⟨-, -, hempty⟩ | ⟨client, hclient, -, hsub⟩ := install_cases hcall
    · rw [hempty] at hlookup
      cases hlookup
    · exact ⟨client, hclient, hsub id lookup hlookup⟩
  constructor
  · intro status' hfetching
    cases hfetching
  · intro status' d' hfetched
    cases hfetched
  · intro hnone
    cases hnone
  · intro other hother
    cases hother
    exact hnextId
  · intro other id lookup hother hlookup
    cases hother
    obtain ⟨client, hclient, hold⟩ := hpending id lookup hlookup
    exact h.asked client id lookup hclient hold
  · intro j exchange hexchange
    obtain ⟨hlt, hsame⟩ := h.sent j exchange hexchange
    refine ⟨hlt, ?_⟩
    intro other lookup hother hlookup
    cases hother
    obtain ⟨client, hclient, hold⟩ := hpending exchange.id lookup hlookup
    exact hsame client lookup hclient hold
  · intro htidy other id lookup hother hlookup
    cases hother
    obtain ⟨client, hclient, hold⟩ := hpending id lookup hlookup
    exact h.attended htidy client id lookup hclient hold
  · exact h.own
  · exact h.shown

/-- What is decoded is what the database has for the address. -/
theorem decoded {a : Address} {status : Directory P} {response : Response P}
    {report : Report} (h : s.Numbered queries tidy)
    (hrun : s.runs.lookup i = some (.answered a status response))
    (hclient : s.client = some client)
    (hcall : client.decode response.exchange.id response.decrypt =
      (.ok report, client')) :
    Displayed.Own ⟨a, status, response, report⟩ := by
  obtain ⟨haddress, hrecord⟩ := h.own i _ hrun
  obtain ⟨lookup, hlookup, hreport⟩ := Client.decode_eq_ok hcall
  have hown : lookup = response.exchange.lookup :=
    (h.sent i response.exchange (exchangeOf_of_lookup hrun)).2 client lookup
      hclient hlookup
  subst hown
  unfold Displayed.Own Database.reportOf
  dsimp only
  have hslot : P.slot response.exchange.lookup.directory a =
      response.exchange.lookup.slot := by
    rw [← haddress]
    rfl
  rw [hslot, ← hrecord]
  unfold Response.decrypt at hreport
  rw [haddress] at hreport
  cases hfound : response.record with
  | none => simpa [hfound] using hreport
  | some found =>
      obtain ⟨b, entry⟩ := found
      by_cases heq : b = a <;> simpa [hfound, heq] using hreport

/-- Whatever comes of it, a lookup that is decoded waits no longer. -/
theorem settled {a : Address} {status : Directory P} {response : Response P}
    {decrypt : Lookup P → Except (DecryptError P) Entry}
    {result : Except (ClientError P) Report} (h : s.Numbered queries tidy)
    (hrun : s.runs.lookup i = some (.answered a status response))
    (hclient : s.client = some client)
    (hcall : client.decode response.exchange.id decrypt = (result, client')) :
    Portal.Numbered queries tidy { s.leave i with client := some client' } := by
  have hnow : client' = (client.decode response.exchange.id decrypt).2 := by
    rw [hcall]
  apply h.settle hclient (exchangeOf_of_lookup hrun)
  · rw [hnow, Client.nextId_decode]
  · rw [hnow]
    exact Client.pending_decode

/-- One event asks at most one query. -/
theorem step {e : PortalEvent P} (hstep : PortalStep P cfg s e s')
    (hroom : e.isQuery = true → queries < 2 ^ 32)
    (hattends : tidy → s.Attends e) (h : s.Numbered queries tidy) :
    s'.Numbered (queries + if e.isQuery then 1 else 0) tidy := by
  have hstay : s'.Numbered queries tidy → e.isQuery = false →
      s'.Numbered (queries + if e.isQuery then 1 else 0) tidy := by
    intro hnumbered hquery
    rw [hquery]
    exact hnumbered
  cases hstep with
  | server hendpoint =>
      apply hstay _ rfl
      obtain ⟨hfetching, hfetched, hunasked, hnextId, hasked, hsent, hattended,
        hown, hshown⟩ := h
      exact ⟨hfetching, hfetched, hunasked, hnextId, hasked, hsent, hattended,
        hown, hshown⟩
  | sync hidle => exact hstay (h.turn nofun nofun) rfl
  | serveStatus hlistens hup hsync => exact hstay (h.turn nofun nofun) rfl
  | @fetch status fetch hsync hplan =>
      refine hstay (h.turn ?_ nofun) rfl
      intro status' hfetching
      cases hfetching
      unfold planned at hplan
      cases hclient : s.client with
      | none => rfl
      | some client =>
          rw [hclient] at hplan
          dsimp only at hplan
          split at hplan <;> cases hplan
  | upToDate hsync hclient hplan =>
      apply hstay _ rfl
      obtain ⟨-, -, hunasked, hnextId, hasked, hsent, hattended, hown, hshown⟩ :=
        h
      exact ⟨nofun, nofun, hunasked, hnextId, hasked, hsent, hattended, hown,
        hshown⟩
  | @serveDirectory thread left status fetch hlistens hup hsync =>
      refine hstay (h.turn nofun ?_) rfl
      intro status' d hfetched
      cases hfetched
      exact h.fetching status hsync
  | install hsync hcall => exact hstay (h.install hsync hcall) rfl
  | syncFails hsync => exact hstay (h.turn nofun nofun) rfl
  | @run i a hnew =>
      have hnone : s.exchangeOf i = none := by
        unfold Portal.exchangeOf
        rw [AList.lookup_eq_none.mpr hnew]
        rfl
      have hown : RunTask.Own (P := P) (.asking a) := trivial
      exact hstay (h.enter hown hnone.symm) rfl
  | @serveCheck thread left i a hlistens hup hrun =>
      have hown : RunTask.Own (.asked a thread.exposed) := trivial
      exact hstay (h.enter hown (exchangeOf_of_lookup hrun).symm) rfl
  | @check i a status client hrun hclient hneed =>
      have hown : RunTask.Own (.current a status) := trivial
      exact hstay (h.enter hown (exchangeOf_of_lookup hrun).symm) rfl
  | @query i a status client hrun hclient =>
      have hasks := h.asks a status hclient (exchangeOf_of_lookup hrun)
        (hroom rfl)
      exact hasks
  | answer hlistens hup hrun =>
      have hown := h.own _ _ hrun
      exact hstay (h.enter ⟨hown, rfl⟩ (exchangeOf_of_lookup hrun).symm) rfl
  | refuse hrun hclient =>
      exact hstay (h.settle hclient (exchangeOf_of_lookup hrun) rfl
        (Client.pending_cancel ·)) rfl
  | @decode i a status response client client' report hrun hclient hcall =>
      have hsettled := h.settled hrun hclient hcall
      have hown := h.decoded hrun hclient hcall
      apply hstay _ rfl
      obtain ⟨hfetching, hfetched, hunasked, hnextId, hasked, hsent, hattended,
        howns, -⟩ := hsettled
      refine ⟨hfetching, hfetched, hunasked, hnextId, hasked, hsent, hattended,
        howns, ?_⟩
      intro shown hshown
      obtain hnew | hold := List.mem_cons.mp hshown
      · rw [hnew]
        exact hown
      · exact h.shown shown hold
  | decodeFails hrun hclient hcall =>
      exact hstay (h.settled hrun hclient hcall) rfl
  | runFails => exact hstay (h.fail hattends) rfl
  | refreshStatus hlistens hup => exact hstay h rfl

end Portal.Numbered

theorem Portal.Counted.step {past : List (PortalEvent P)} {e : PortalEvent P}
    (hstep : PortalStep P cfg s e s') (hattends : tidy → s.Attends e)
    (h : Portal.Counted tidy past s) : Portal.Counted tidy (past ++ [e]) s' := by
  intro hfits
  rw [List.countP_append, List.countP_singleton] at hfits ⊢
  apply (h (by omega)).step hstep _ hattends
  intro hquery
  rw [if_pos hquery] at hfits
  omega

/-- Whatever overlaps, and whatever the server does meanwhile: a report is about
the address that was asked for, and says what the answering database has in the
slot where the client's directory, at the time of the query, sends that address.
If no request is dropped, every query that waits belongs to a lookup that goes
on. -/
theorem portal_reports_own_query {events : List (PortalEvent P)}
    (hrun : Run (PortalStep P cfg) (.new P) events s)
    (hroom : events.countP PortalEvent.isQuery ≤ 2 ^ 32) :
    (∀ shown ∈ s.shown, shown.Own) ∧
      (Run (fun s e s' => PortalStep P cfg s e s' ∧ s.Attends e) (.new P) events
          s → ∀ client id lookup, s.client = some client →
        client.pending.lookup id = some lookup →
        ∃ i exchange, s.exchangeOf i = some exchange ∧ exchange.id = id) := by
  have hstart : ∀ tidy, Portal.Counted tidy [] (.new P) :=
    fun tidy _ => Portal.numbered_new
  constructor
  · have hcounted : Portal.Counted False events s :=
      hrun.traced (hstart False) fun hstep h => h.step hstep False.elim
    exact (hcounted hroom).shown
  · intro hattended
    have hcounted : Portal.Counted True events s :=
      hattended.traced (hstart True) fun hstep h =>
        h.step hstep.1 fun _ => hstep.2
    exact (hcounted hroom).attended trivial

end Reports

/-- The holder that came last is found. -/
theorem portal_reports_own_query_restored : ∃ s : Portal RestoredTail.Library,
    s.shown.map Displayed.report = [.found Sample.second Sample.entry] ∧
      ∀ shown ∈ s.shown, shown.Own := by
  obtain ⟨events, s, hrun, hlength, -, -, hreports⟩ := RestoredTail.run
  have hroom : events.countP PortalEvent.isQuery ≤ 2 ^ 32 := by
    have hle : events.countP PortalEvent.isQuery ≤ events.length :=
      List.countP_le_length
    omega
  exact ⟨s, hreports,
    (portal_reports_own_query (hrun.mono And.left) hroom).1⟩

end UsdtPir
