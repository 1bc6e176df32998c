import UsdtPir.ListeningServer

/-!
# The directories of the portal

The client never holds a blend: whatever happens between two requests, it has a
directory that the server has exposed, each newer than the one before, and what
it checks or fetches is at least what its status request was told.
-/

namespace UsdtPir

open Machine

section Clients

variable {P : EthPir} {client client' : Client P} {d : Directory P}

theorem eq_ok_of_toOption {ε α : Type} {x : Except ε α} {a : α}
    (h : x.toOption = some a) : x = .ok a := by
  cases x with
  | error e => cases h
  | ok b =>
      cases h
      rfl

/-- Whatever was fetched, the client then has what was exposed. -/
theorem Fetch.install_directory (htails : P.Tails) {fetch : Fetch}
    {held : Option (Client P)} (hgenuine : d.Genuine)
    (hheld : ∀ client, held = some client →
      client.directory.Precedes d.parsed)
    (hcall : fetch.install held d = some client') :
    client'.directory = d.parsed := by
  cases fetch with
  | bootstrap =>
      unfold install at hcall
      rw [hgenuine.full] at hcall
      cases hcall
      rfl
  | full =>
      cases held with
      | none => cases hcall
      | some client =>
          have hread := Client.directory_resync (eq_ok_of_toOption hcall)
          rw [hgenuine.full] at hread
          exact (Except.ok.inj hread).symm
  | tail start =>
      cases held with
      | none => cases hcall
      | some client =>
          obtain ⟨tail, hcut, hjoin⟩ := Option.bind_eq_some_iff.mp hcall
          exact htails.joined (eq_ok_of_toOption hcut)
            (Client.directory_applyTail (eq_ok_of_toOption hjoin))
            (hheld client rfl)

theorem Client.syncNeed_eq_upToDate {version tailLen : ℕ} :
    client.syncNeed version tailLen = .upToDate ↔
      version = client.directory.version ∧
        tailLen ≤ client.directory.delta.length := by
  unfold syncNeed Client.version Client.tailLen
  split
  · simp_all
  · split
    · rename_i hlt
      simp only [reduceCtorEq, false_iff, not_and]
      intro _
      omega
    · rename_i hversion hlen
      simp only [true_iff]
      exact ⟨not_not.mp hversion, by omega⟩

theorem planned_eq_none {status : Directory P} :
    planned (some client) status = none ↔
      client.syncNeed status.version status.tailLen = .upToDate := by
  unfold planned
  dsimp only
  cases client.syncNeed status.version status.tailLen <;> simp

end Clients

section Tracks

variable {P : EthPir} {cfg : PirConfig} {s s' : Portal P}

/-- What the query was resolved by, and what its check was told. -/
def Resolved (held : List (KeywordDirectory P.Mphf)) (status : Directory P)
    (exchange : Exchange P) : Prop :=
  exchange.lookup.directory ∈ held ∧
    status.parsed.Precedes exchange.lookup.directory

def SyncTask.Tracked (seen : List (Directory P))
    (held : List (KeywordDirectory P.Mphf)) : SyncTask P → Prop
  | .asking => True
  | .asked status | .fetching status _ => status ∈ seen
  | .fetched status _ d =>
      d ∈ seen ∧ status.parsed.Precedes d.parsed ∧
        ∀ x ∈ held, x.Precedes d.parsed

def RunTask.Tracked (seen : List (Directory P))
    (held : List (KeywordDirectory P.Mphf)) : RunTask P → Prop
  | .asking _ => True
  | .asked _ status => status ∈ seen
  | .current _ status => ∃ x ∈ held, status.parsed.Precedes x
  | .sent _ status exchange => Resolved held status exchange
  | .answered _ status response => Resolved held status response.exchange

/-- The client has what was fetched, or what it had already is enough. -/
def SyncDone.Exact (done : SyncDone P) : Prop :=
  match done.fetched with
  | some d => done.left = d.parsed ∧ done.status.parsed.Precedes d.parsed
  | none => done.status.parsed.Extends done.left

structure Portal.Tracks (s : Portal P) : Prop where
  serves : Serves s.endpoint s.listening
  head : s.held.head? = s.client.map Client.directory
  shown : ∀ x ∈ s.held, ∃ d ∈ s.endpoint.seen, d.parsed = x
  chain : s.held.Pairwise fun newer older => older.Precedes newer
  syncing : ∀ task, s.syncing = some task →
    task.Tracked s.endpoint.seen s.held
  synced : ∀ done ∈ s.synced, done.left ∈ s.held ∧ done.Exact
  runs : ∀ i task, s.runs.lookup i = some task →
    task.Tracked s.endpoint.seen s.held
  reports : ∀ report ∈ s.shown,
    Resolved s.held report.status report.response.exchange

theorem RunTask.Tracked.mono {seen seen' : List (Directory P)}
    {held held' : List (KeywordDirectory P.Mphf)} {task : RunTask P}
    (hseen : ∀ d ∈ seen, d ∈ seen') (hheld : ∀ x ∈ held, x ∈ held')
    (h : task.Tracked seen held) : task.Tracked seen' held' := by
  cases task with
  | asking a => trivial
  | asked a status => exact hseen status h
  | current a status =>
      obtain ⟨x, hx, hprecedes⟩ := h
      exact ⟨x, hheld x hx, hprecedes⟩
  | sent a status exchange => exact ⟨hheld _ h.1, h.2⟩
  | answered a status response => exact ⟨hheld _ h.1, h.2⟩

theorem SyncTask.Tracked.mono {seen seen' : List (Directory P)}
    {held : List (KeywordDirectory P.Mphf)} {task : SyncTask P}
    (hseen : ∀ d ∈ seen, d ∈ seen') (h : task.Tracked seen held) :
    task.Tracked seen' held := by
  cases task with
  | asking => trivial
  | asked status => exact hseen status h
  | fetching status fetch => exact hseen status h
  | fetched status fetch d => exact ⟨hseen d h.1, h.2⟩

theorem Portal.tracks_new : (Portal.new P).Tracks := by
  constructor
  · exact serves_new
  · rfl
  · intro x hx
    cases hx
  · exact .nil
  · intro task htask
    cases htask
  · intro done hdone
    cases hdone
  · intro i task htask
    cases htask
  · intro report hreport
    cases hreport

namespace Portal.Tracks

theorem server {event : EndpointEvent P} {endpoint : Endpoint P}
    (hlaws : P.Versioned) (hwrites : P.Serializes)
    (hstep : EndpointStep P cfg s.endpoint event endpoint)
    (hkeeps : KeepsNumbering s.endpoint event) (h : s.Tracks) :
    Portal.Tracks { s with
      endpoint
      listening := listens s.listening endpoint.host event } := by
  have hseen : ∀ d ∈ s.endpoint.seen, d ∈ endpoint.seen := by
    intro d hd
    exact hstep.seen_subset hd
  constructor
  · exact h.serves.step hlaws hwrites hstep hkeeps
  · exact h.head
  · intro x hx
    obtain ⟨d, hd, hparsed⟩ := h.shown x hx
    exact ⟨d, hseen d hd, hparsed⟩
  · exact h.chain
  · intro task htask
    exact (h.syncing task htask).mono hseen
  · exact h.synced
  · intro i task htask
    exact (h.runs i task htask).mono hseen fun x hx => hx
  · exact h.reports

/-- `sync` goes on. -/
theorem turn {syncing : Option (SyncTask P)} (h : s.Tracks)
    (hnext : ∀ task, syncing = some task →
      task.Tracked s.endpoint.seen s.held) :
    Portal.Tracks { s with syncing } := by
  obtain ⟨hserves, hhead, hshown, hchain, -, hsynced, hruns, hreports⟩ := h
  exact ⟨hserves, hhead, hshown, hchain, hnext, hsynced, hruns, hreports⟩

theorem enter {i : ℕ} {task : RunTask P} (h : s.Tracks)
    (htask : task.Tracked s.endpoint.seen s.held) : (s.enter i task).Tracks := by
  obtain ⟨hserves, hhead, hshown, hchain, hsyncing, hsynced, hruns, hreports⟩ :=
    h
  refine ⟨hserves, hhead, hshown, hchain, hsyncing, hsynced, ?_, hreports⟩
  intro j other hother
  obtain ⟨-, hnew⟩ | ⟨-, hold⟩ := lookup_of_insert hother
  · rw [hnew]
    exact htask
  · exact hruns j other hold

theorem leave {i : ℕ} (h : s.Tracks) : (s.leave i).Tracks := by
  obtain ⟨hserves, hhead, hshown, hchain, hsyncing, hsynced, hruns, hreports⟩ :=
    h
  refine ⟨hserves, hhead, hshown, hchain, hsyncing, hsynced, ?_, hreports⟩
  intro j other hother
  exact hruns j other (lookup_of_erase hother).2

/-- Only the pending queries of the client change. -/
theorem pending {client client' : Client P} (h : s.Tracks)
    (hclient : s.client = some client)
    (hsame : client'.directory = client.directory) :
    Portal.Tracks { s with client := some client' } := by
  obtain ⟨hserves, hhead, hshown, hchain, hsyncing, hsynced, hruns, hreports⟩ :=
    h
  refine ⟨hserves, ?_, hshown, hchain, hsyncing, hsynced, hruns, hreports⟩
  rw [hhead, hclient, Option.map_some, Option.map_some, hsame]

theorem holds {client : Client P} (h : s.Tracks)
    (hclient : s.client = some client) :
    ∃ older, s.held = client.directory :: older := by
  have hhead := h.head
  rw [hclient] at hhead
  exact List.head?_eq_some_iff.mp hhead

/-- The client need not fetch anything. -/
theorem current {client : Client P} {status : Directory P} (h : s.Tracks)
    (hclient : s.client = some client) (hstatus : status ∈ s.endpoint.seen)
    (hneed : client.syncNeed status.version status.tailLen = .upToDate) :
    client.directory ∈ s.held ∧ status.parsed.Extends client.directory := by
  obtain ⟨older, hheld⟩ := h.holds hclient
  have hmem : client.directory ∈ s.held := by
    rw [hheld]
    exact List.mem_cons_self
  obtain ⟨d, hd, hparsed⟩ := h.shown client.directory hmem
  obtain ⟨hversion, hlen⟩ := Client.syncNeed_eq_upToDate.mp hneed
  have hgenuine := h.serves.genuine status hstatus
  rw [hgenuine.version, ← hparsed] at hversion
  rw [hgenuine.tailLen, ← hparsed] at hlen
  rw [← hparsed] at hmem ⊢
  exact ⟨hmem, h.serves.extends_of_longer hstatus hd hversion hlen⟩

theorem precedes {status : Directory P} {x : KeywordDirectory P.Mphf}
    (h : status.parsed.Extends x) : status.parsed.Precedes x :=
  ⟨h.version.ge, fun _ => h⟩

/-- What comes after the directory of a check is still at least as new. -/
theorem resolved {client : Client P} {status : Directory P}
    {x : KeywordDirectory P.Mphf} {id : ℕ} {a : Address} (h : s.Tracks)
    (hclient : s.client = some client) (hx : x ∈ s.held)
    (hprecedes : status.parsed.Precedes x) :
    Resolved s.held status ⟨id, a, client.directory⟩ := by
  obtain ⟨older, hheld⟩ := h.holds hclient
  have hchain := h.chain
  rw [hheld] at hx hchain ⊢
  refine ⟨List.mem_cons_self, ?_⟩
  obtain hlast | hearlier := List.mem_cons.mp hx
  · rw [← hlast]
    exact hprecedes
  · exact hprecedes.trans ((List.pairwise_cons.mp hchain).1 x hearlier)

theorem install {status d : Directory P} {fetch : Fetch} {client : Client P}
    (htails : P.Tails) (h : s.Tracks)
    (hsync : s.syncing = some (.fetched status fetch d))
    (hcall : fetch.install s.client d = some client) :
    Portal.Tracks { s with
      client := some client
      syncing := none
      held := client.directory :: s.held
      synced := ⟨status, some d, client.directory⟩ :: s.synced } := by
  obtain ⟨hd, hstatus, hnewer⟩ := h.syncing _ hsync
  have hdirectory : client.directory = d.parsed := by
    apply Fetch.install_directory htails (h.serves.genuine d hd) _ hcall
    intro other hother
    obtain ⟨older, hheld⟩ := h.holds hother
    apply hnewer
    rw [hheld]
    exact List.mem_cons_self
  constructor
  · exact h.serves
  · rfl
  · intro x hx
    obtain hnew | hold := List.mem_cons.mp hx
    · exact ⟨d, hd, hnew.trans hdirectory |>.symm⟩
    · exact h.shown x hold
  · rw [hdirectory]
    exact .cons hnewer h.chain
  · intro task htask
    cases htask
  · intro done hdone
    obtain hnew | hold := List.mem_cons.mp hdone
    · rw [hnew]
      exact ⟨List.mem_cons_self, hdirectory, hstatus⟩
    · obtain ⟨hmem, hexact⟩ := h.synced done hold
      exact ⟨List.mem_cons_of_mem _ hmem, hexact⟩
  · intro i task htask
    exact (h.runs i task htask).mono (fun d hd => hd)
      fun x hx => List.mem_cons_of_mem _ hx
  · intro report hreport
    obtain ⟨hmem, hprecedes⟩ := h.reports report hreport
    exact ⟨List.mem_cons_of_mem _ hmem, hprecedes⟩

theorem step (hlaws : P.Versioned) (hwrites : P.Serializes) (htails : P.Tails)
    {event : PortalEvent P} (hstep : PortalStep P cfg s event s')
    (hkeeps : NumbersOn s event) (h : s.Tracks) : s'.Tracks := by
  cases hstep with
  | server hendpoint => exact h.server hlaws hwrites hendpoint hkeeps
  | sync hidle =>
      apply h.turn
      intro task htask
      cases htask
      trivial
  | serveStatus hlistens hup hsync =>
      apply h.turn
      intro task htask
      cases htask
      exact h.serves.exposed _ _ hup hlistens
  | fetch hsync hplan =>
      have hstatus := h.syncing _ hsync
      apply h.turn
      intro task htask
      cases htask
      exact hstatus
  | @upToDate status client hsync hclient hplan =>
      have hstatus : status ∈ s.endpoint.seen := h.syncing _ hsync
      obtain ⟨hmem, hextends⟩ :=
        h.current hclient hstatus (planned_eq_none.mp hplan)
      have hturned : Portal.Tracks { s with syncing := none } := by
        apply h.turn
        intro task htask
        cases htask
      refine ⟨hturned.serves, hturned.head, hturned.shown, hturned.chain,
        hturned.syncing, ?_, hturned.runs, hturned.reports⟩
      intro done hdone
      obtain hnew | hold := List.mem_cons.mp hdone
      · rw [hnew]
        exact ⟨hmem, hextends⟩
      · exact h.synced done hold
  | @serveDirectory thread left status fetch hlistens hup hsync =>
      have hnewest := h.serves.newest _ _ hup hlistens
      apply h.turn
      intro task htask
      cases htask
      refine ⟨h.serves.exposed _ _ hup hlistens, ?_, ?_⟩
      · exact hnewest status (h.syncing _ hsync)
      · intro x hx
        obtain ⟨d, hd, hparsed⟩ := h.shown x hx
        rw [← hparsed]
        exact hnewest d hd
  | install hsync hcall => exact h.install htails hsync hcall
  | syncFails hsync =>
      apply h.turn
      intro task htask
      cases htask
  | run hnew => exact h.enter trivial
  | serveCheck hlistens hup hrun =>
      exact h.enter (h.serves.exposed _ _ hup hlistens)
  | check hrun hclient hneed =>
      obtain ⟨hmem, hextends⟩ := h.current hclient (h.runs _ _ hrun) hneed
      exact h.enter ⟨_, hmem, precedes hextends⟩
  | @query i a status client hrun hclient =>
      obtain ⟨x, hx, hprecedes⟩ := h.runs _ _ hrun
      have hresolved : RunTask.Tracked s.endpoint.seen s.held
          (.sent a status ⟨(client.query a).1, a, client.directory⟩) :=
        h.resolved hclient hx hprecedes
      exact (h.enter hresolved).pending hclient rfl
  | answer hlistens hup hrun =>
      have hresolved := h.runs _ _ hrun
      exact h.enter hresolved
  | refuse hrun hclient => exact h.leave.pending hclient rfl
  | @decode i a status response client client' report hrun hclient hcall =>
      have hsame := Client.directory_decode hcall
      have hleft := (h.leave (i := i)).pending hclient hsame
      refine ⟨hleft.serves, hleft.head, hleft.shown, hleft.chain, hleft.syncing,
        hleft.synced, hleft.runs, ?_⟩
      intro shown hshown
      obtain hnew | hold := List.mem_cons.mp hshown
      · rw [hnew]
        exact h.runs i _ hrun
      · exact h.reports shown hold
  | decodeFails hrun hclient hcall =>
      exact h.leave.pending hclient (Client.directory_decode hcall)
  | runFails => exact h.leave
  | refreshStatus hlistens hup => exact h

end Portal.Tracks

/-- Over any number of server lives, and whatever fails: the client has a
directory that was exposed, each newer than the one before; a `sync` that
returns leaves exactly what was exposed when it fetched, or what extends what
was exposed when it asked; and a query is resolved by a directory that is no
older than what its check was told. -/
theorem portal_keeps_up (hlaws : P.Versioned) (hwrites : P.Serializes)
    (htails : P.Tails) {events : List (PortalEvent P)}
    (hrun : Run (fun s e s' => PortalStep P cfg s e s' ∧ NumbersOn s e)
      (.new P) events s) :
    s.held.head? = s.client.map Client.directory ∧
      (∀ x ∈ s.held, ∃ d ∈ s.endpoint.seen, d.parsed = x) ∧
      (s.held.Pairwise fun newer older => older.Precedes newer) ∧
      (∀ done ∈ s.synced, done.left ∈ s.held ∧ done.Exact) ∧
      ∀ report ∈ s.shown,
        Resolved s.held report.status report.response.exchange := by
  have htracks : s.Tracks :=
    hrun.invariant (P := Portal.Tracks) Portal.tracks_new fun hstep h =>
      h.step hlaws hwrites htails hstep.1 hstep.2
  exact ⟨htracks.head, htracks.shown, htracks.chain, htracks.synced,
    htracks.reports⟩

end Tracks

namespace RestoredTail

open Sample

def cfg : PirConfig := ⟨1, 0⟩

abbrev Library : EthPir := tablePir 2

theorem go {s s' : PirThread Library} {e : PirEvent Library}
    (h : tableNext cfg s .go = some (e, s')) : PirStep Library cfg s e s' :=
  tableNext_step h

/-- The second holder arrives between two processes: the client, which has the
directory of the first process, fetches the tail and looks the holder up. -/
theorem run : ∃ events s,
    Run (fun s e s' => PortalStep Library cfg s e s' ∧ NumbersOn s e)
      (.new Library) events s ∧ events.length = 28 ∧
    s.held = [⟨0, [first], [second]⟩, ⟨0, [first], []⟩] ∧
    s.synced.map SyncDone.left = s.held ∧
    s.shown.map Displayed.report = [.found second entry] := by
  refine ⟨_, _,
    .cons ⟨.server (.host (.start (opens_built (a := first) rfl))), ⟨rfl, trivial⟩⟩
    (.cons ⟨.server (.host (.work (go rfl))), ⟨trivial, trivial⟩⟩
    (.cons ⟨.server (.host (.work (go rfl))), ⟨trivial, trivial⟩⟩
    (.cons ⟨.server (.host (.work (go rfl))), ⟨trivial, trivial⟩⟩
    (.cons ⟨.server (.host (.work (go rfl))), ⟨trivial, trivial⟩⟩
    (.cons ⟨.server (.host (.work (go rfl))), ⟨trivial, trivial⟩⟩
    (.cons ⟨.server (.host (.work (go rfl))), ⟨trivial, trivial⟩⟩
    (.cons ⟨.sync rfl, trivial⟩ (.cons ⟨.serveStatus rfl rfl rfl, trivial⟩
    (.cons ⟨.fetch rfl rfl, trivial⟩
    (.cons ⟨.serveDirectory rfl rfl rfl, trivial⟩
    (.cons ⟨.install rfl rfl, trivial⟩
    (.cons ⟨.server (.host .stop), ⟨trivial, trivial⟩⟩
    (.cons ⟨.server (.host (.start (@opens_restored 2 _ _ (holders second)
      rfl))), ⟨trivial, trivial⟩⟩
    (.cons ⟨.server (.host (.work (go rfl))), ⟨trivial, trivial⟩⟩
    (.cons ⟨.server (.host (.work (go rfl))), ⟨trivial, trivial⟩⟩
    (.cons ⟨.server (.host (.work (go rfl))), ⟨trivial, trivial⟩⟩
    (.cons ⟨.sync rfl, trivial⟩ (.cons ⟨.serveStatus rfl rfl rfl, trivial⟩
    (.cons ⟨.fetch rfl rfl, trivial⟩
    (.cons ⟨.serveDirectory rfl rfl rfl, trivial⟩
    (.cons ⟨.install rfl rfl, trivial⟩
    (.cons ⟨.run (i := 0) (a := second) (AList.notMem_empty 0), trivial⟩
    (.cons ⟨.serveCheck (i := 0) rfl rfl rfl, trivial⟩
    (.cons ⟨.check (i := 0) rfl rfl rfl, trivial⟩
    (.cons ⟨.query (i := 0) rfl rfl, trivial⟩
    (.cons ⟨.answer (i := 0) rfl rfl rfl, trivial⟩
    (.cons ⟨.decode (i := 0) rfl rfl rfl, trivial⟩
    (.nil _)))))))))))))))))))))))))))), rfl, rfl, rfl, rfl⟩

theorem portal_keeps_up_restored : ∃ s : Portal Library,
    s.held = [⟨0, [first], [second]⟩, ⟨0, [first], []⟩] ∧
    s.shown.map Displayed.report = [.found second entry] ∧
    (∀ x ∈ s.held, ∃ d ∈ s.endpoint.seen, d.parsed = x) ∧
    (∀ done ∈ s.synced, done.left ∈ s.held ∧ done.Exact) ∧
    ∀ report ∈ s.shown,
      Resolved s.held report.status report.response.exchange := by
  obtain ⟨events, s, hrun, -, hheld, -, hreports⟩ := run
  obtain ⟨-, hshown, -, hsynced, hresolved⟩ := portal_keeps_up tablePir_versioned
    tablePir_serializes tablePir_tails hrun
  exact ⟨s, hheld, hreports, hshown, hsynced, hresolved⟩

end RestoredTail

end UsdtPir
