import UsdtPir.HolderMap

/-!
# The records that are served

Queries are answered from the database that was installed last.  It has what
the server had absorbed by then: the initial snapshot overlaid with the updates
that were accepted before the last publish or keyword rebuild that succeeded.
-/

namespace UsdtPir

open Machine

namespace Database

variable {M : Type}

/-- The database has this record of the address. -/
def Says (database : Database M) (a : Address) (e : Entry) : Prop :=
  ∃ i, database.record i = some (a, e)

/-- There is a record of everything, and of nothing else. -/
def Stores (database : Database M) (content : Address → Option Entry) : Prop :=
  ∀ a e, database.Says a e ↔ content a = some e

/-- A record of two zero balances says no more than no record. -/
def Shows (database : Database M) (view : Address → Option Entry) : Prop :=
  ∀ a e, e.isZero = false → (database.Says a e ↔ view a = some e)

end Database

/-- What the server has absorbed, and that a database is made of it. -/
structure EthPir.Absorbs (P : EthPir) (content : P.Server → Address → Option Entry) :
    Prop where
  init_content : ∀ {map server}, P.init map (.ok server) →
    content server = fun a => map.lookup a
  restore_content : ∀ {blob keys map server},
    P.restore blob keys map (.ok server) →
    content server = fun a => map.lookup a
  update_content : ∀ {server a e server'}, P.update server a e (.ok ()) server' →
    content server' = Function.update (content server) a (some e)
  update_fails : ∀ {server a e fault server'},
    P.update server a e (.error fault) server' → content server' = content server
  publish_content : ∀ {server answer server'},
    P.tryRebuildDatabase server answer server' → content server' = content server
  rebuild_content : ∀ {server map server'},
    P.rebuildKeywordIndexFrom server map (.ok ()) server' →
    content server' = fun a => map.lookup a
  rebuild_fails : ∀ {server map fault server'},
    P.rebuildKeywordIndexFrom server map (.error fault) server' →
    content server' = content server
  init_database : ∀ {map server}, P.init map (.ok server) →
    (P.database server).Stores (content server)
  restore_database : ∀ {blob keys map server},
    P.restore blob keys map (.ok server) →
    (P.database server).Stores (content server)
  publish_database : ∀ {server done server'},
    P.tryRebuildDatabase server (.ok done) server' →
    (P.database server').Stores (content server')
  rebuild_database : ∀ {server map server'},
    P.rebuildKeywordIndexFrom server map (.ok ()) server' →
    (P.database server').Stores (content server')

section Served

variable {P : EthPir} {content : P.Server → Address → Option Entry}
    {cfg : PirConfig} {s s' start : PirThread P} {e : PirEvent P}
    {es past : List (PirEvent P)} {initial : PirSnapshot} {files : KeywordFiles P}
    {fresh : Bool}

/-- The database is that of everything absorbed. -/
def PirEvent.installs : PirEvent P → Bool
  | .publish (.ok _) | .rebuild true => true
  | _ => false

/-- The run up to the last database that was installed. -/
def installed (es : List (PirEvent P)) : List (PirEvent P) :=
  es.rdropWhile fun e => !e.installs

/-- Two contents that differ in zero entries only. -/
def SameHolders (content view : Address → Option Entry) : Prop :=
  ∀ a e, e.isZero = false → (content a = some e ↔ view a = some e)

/-- After a run: what is absorbed is what the worker holds, and what is served
what was absorbed when it was installed. -/
structure Served (content : P.Server → Address → Option Entry)
    (view : Address → Option Entry) (past : List (PirEvent P))
    (s : PirThread P) : Prop where
  absorbed : SameHolders (content s.server) (viewAfter view (accepted past))
  served : (P.database s.server).Shows
    (viewAfter view (accepted (installed past)))

theorem SameHolders.update {held view : Address → Option Entry} {a : Address}
    {entry : Entry} (h : SameHolders held view) :
    SameHolders (Function.update held a (some entry))
      (viewAfter view [(a, entry)]) := by
  intro b e hzero
  by_cases heq : a = b
  · subst heq
    rw [Function.update_self, viewAfter_single_self]
    unfold present
    by_cases hentry : entry.isZero = true
    · simp only [hentry, if_true, Option.some.injEq, reduceCtorEq, iff_false]
      intro hsame
      rw [hsame, hzero] at hentry
      cases hentry
    · simp [hentry]
  · rw [Function.update_of_ne (Ne.symm heq), viewAfter_single_ne heq]
    exact h b e hzero

theorem SameHolders.shows {M : Type} {database : Database M}
    {held view : Address → Option Entry} (h : SameHolders held view)
    (hstores : database.Stores held) : database.Shows view := by
  intro a e hzero
  exact (hstores a e).trans (h a e hzero)

theorem installed_concat : installed (past ++ [e]) =
    if e.installs then past ++ [e] else installed past := by
  unfold installed
  rw [List.rdropWhile_concat]
  cases e.installs <;> rfl

theorem accepted_installed (h : e.installs = true) :
    accepted (past ++ [e]) = accepted past := by
  rw [accepted_concat]
  cases e with
  | publish answer => exact List.append_nil _
  | rebuild done => exact List.append_nil _
  | _ => cases h

/-- Nothing is installed. -/
theorem Served.absorb (h : Served content (fun a => initial.lookup a) past s)
    (hquiet : e.installs = false)
    (hdatabase : P.database s'.server = P.database s.server)
    (habsorbed : SameHolders (content s'.server)
      (viewAfter (fun a => initial.lookup a) (accepted (past ++ [e])))) :
    Served content (fun a => initial.lookup a) (past ++ [e]) s' := by
  refine ⟨habsorbed, ?_⟩
  rw [installed_concat, hquiet, hdatabase]
  exact h.served

theorem Served.install
    (hloud : e.installs = true)
    (habsorbed : SameHolders (content s'.server)
      (viewAfter (fun a => initial.lookup a) (accepted past)))
    (hstores : (P.database s'.server).Stores (content s'.server)) :
    Served content (fun a => initial.lookup a) (past ++ [e]) s' := by
  have hsame : SameHolders (content s'.server)
      (viewAfter (fun a => initial.lookup a) (accepted (past ++ [e]))) := by
    rw [accepted_installed hloud]
    exact habsorbed
  refine ⟨hsame, ?_⟩
  rw [installed_concat, if_pos hloud]
  exact hsame.shows hstores

theorem Served.step (hlaws : P.Absorbs content) (hinstalls : P.Installs)
    (hstep : PirStep P cfg s e s')
    (hholders : s.worker.holders =
      viewAfter (fun a => initial.lookup a) (accepted past))
    (h : Served content (fun a => initial.lookup a) past s) :
    Served content (fun a => initial.lookup a) (past ++ [e]) s' := by
  have hquiet : e.installs = false → accepted [e] = [] →
      content s'.server = content s.server →
      P.database s'.server = P.database s.server →
      Served content (fun a => initial.lookup a) (past ++ [e]) s' := by
    intro hnone hrows hcontent hdatabase
    apply h.absorb hnone hdatabase
    rw [accepted_concat, hrows, List.append_nil, hcontent]
    exact h.absorbed
  cases hstep with
  | @update addr entry rest answer server hphase hcall =>
      have hdatabase := hinstalls.update_database hcall
      cases answer with
      | ok done =>
          apply h.absorb rfl hdatabase
          rw [accepted_concat, viewAfter_append]
          dsimp only
          rw [hlaws.update_content hcall]
          exact h.absorbed.update
      | error fault =>
          exact hquiet rfl rfl (hlaws.update_fails hcall) hdatabase
  | @publish answer server hphase hcall =>
      have hcontent := hlaws.publish_content hcall
      cases answer with
      | ok done =>
          refine Served.install rfl ?_ (hlaws.publish_database hcall)
          dsimp only
          rw [hcontent]
          exact h.absorbed
      | error fault => exact hquiet rfl rfl hcontent (hinstalls.publish_fails hcall)
  | rebuilt hphase htest hcall =>
      refine Served.install rfl ?_ (hlaws.rebuild_database hcall)
      dsimp only
      rw [hlaws.rebuild_content hcall, ← hholders]
      intro a e hzero
      exact Iff.rfl
  | rebuildFails hphase htest hcall =>
      exact hquiet rfl rfl (hlaws.rebuild_fails hcall)
        (hinstalls.rebuild_keeps hcall)
  | _ => exact hquiet rfl rfl rfl rfl

theorem Opens.served (hlaws : P.Absorbs content)
    (hopen : Opens P initial files fresh start) :
    Served content (fun a => initial.lookup a) [] start := by
  have hstart : content start.server = (fun a => initial.lookup a) ∧
      (P.database start.server).Stores (content start.server) := by
    cases hopen with
    | restored hload hcall hempty =>
        exact ⟨hlaws.restore_content hcall, hlaws.restore_database hcall⟩
    | built hload hcall hempty =>
        exact ⟨hlaws.init_content hcall, hlaws.init_database hcall⟩
  obtain ⟨hcontent, hstores⟩ := hstart
  have hsame : SameHolders (content start.server) (fun a => initial.lookup a) := by
    rw [hcontent]
    intro a e hzero
    exact Iff.rfl
  exact ⟨hsame, hsame.shows hstores⟩

theorem served_run (hlaws : P.Absorbs content) (hinstalls : P.Installs)
    (hopen : Opens P initial files fresh start)
    (hrun : Run (PirStep P cfg) start es s) :
    Served content (fun a => initial.lookup a) es s := by
  have hstart : HoldersAfter start [] start ∧
      Served content (fun a => initial.lookup a) [] start :=
    ⟨rfl, hopen.served hlaws⟩
  have hlast : HoldersAfter start es s ∧
      Served content (fun a => initial.lookup a) es s := by
    apply hrun.traced (P := fun past s => HoldersAfter start past s ∧
      Served content (fun a => initial.lookup a) past s) hstart
    intro past s e s' hstep hbefore
    refine ⟨hbefore.1.step hstep, hbefore.2.step hlaws hinstalls hstep ?_⟩
    rw [← hopen.holders]
    exact hbefore.1
  exact hlast.2

/-- Whatever fails in between, queries are answered from the initial snapshot
overlaid with the updates accepted before the last database was installed. -/
theorem served_records (hlaws : P.Absorbs content) (hinstalls : P.Installs)
    (hopen : Opens P initial files fresh start)
    (hrun : Run (PirStep P cfg) start es s) :
    (P.database s.server).Shows
      (viewAfter (fun a => initial.lookup a) (accepted (installed es))) :=
  (served_run hlaws hinstalls hopen hrun).served

end Served

section Tables

variable {capacity : ℕ}

/-- The records of the addresses that the index knows. -/
def TableServer.content (server : TableServer) (a : Address) : Option Entry :=
  if server.keyword.Knows a then server.records.lookup a else none

theorem KeywordDirectory.addressAt_slotOf {directory : KeywordDirectory Table}
    {a : Address} (h : directory.Knows a) :
    directory.addressAt (directory.slotOf a) = some a := by
  unfold addressAt slotOf
  rw [if_pos h]
  exact List.getElem?_idxOf h

theorem KeywordDirectory.knows_of_addressAt {directory : KeywordDirectory Table}
    {a : Address} {i : ℕ} (h : directory.addressAt i = some a) :
    directory.Knows a :=
  List.mem_of_getElem? h

theorem TableServer.record_eq_some {server : TableServer} {i : ℕ} {a : Address}
    {e : Entry} : server.database.record i = some (a, e) ↔
      server.layout.addressAt i = some a ∧ server.layout.slotOf a = i ∧
        server.installed.lookup a = some e := by
  change (do
    let b ← server.layout.addressAt i
    if server.layout.slotOf b = i then
      let e ← server.installed.lookup b
      some (b, e)
    else none) = some (a, e) ↔ _
  constructor
  · intro hrecord
    obtain ⟨b, haddress, hslot⟩ := Option.bind_eq_some_iff.mp hrecord
    split at hslot
    · rename_i hself
      obtain ⟨e', hlookup, hsame⟩ := Option.bind_eq_some_iff.mp hslot
      cases hsame
      exact ⟨haddress, hself, hlookup⟩
    · cases hslot
  · intro hrecord
    obtain ⟨haddress, hslot, hlookup⟩ := hrecord
    simp [haddress, hslot, hlookup]

/-- The database of a server after a rebuild, and of one that needs none. -/
theorem TableServer.stores_content {server : TableServer}
    (hlayout : server.layout = server.keyword)
    (hinstalled : server.installed = server.records) :
    server.database.Stores server.content := by
  intro a e
  unfold content
  constructor
  · intro hsays
    obtain ⟨i, hrecord⟩ := hsays
    obtain ⟨haddress, -, hlookup⟩ := record_eq_some.mp hrecord
    rw [hlayout] at haddress
    rw [hinstalled] at hlookup
    rw [if_pos (KeywordDirectory.knows_of_addressAt haddress)]
    exact hlookup
  · intro hcontent
    split at hcontent
    · rename_i hknown
      refine ⟨server.keyword.slotOf a, record_eq_some.mpr ?_⟩
      rw [hlayout, hinstalled]
      exact ⟨KeywordDirectory.addressAt_slotOf hknown, rfl, hcontent⟩
    · cases hcontent

theorem TableServer.content_build {keyword : KeywordDirectory Table}
    {records : PirSnapshot} (h : ∀ a ∈ records, keyword.Knows a) :
    (build keyword records).content = fun a => records.lookup a := by
  funext a
  unfold content
  split
  · rfl
  · rename_i hunknown
    have habsent : a ∉ records := fun hmem => hunknown (h a hmem)
    exact (AList.lookup_eq_none.mpr habsent).symm

theorem TableServer.content_absorb (server : TableServer) (a : Address)
    (e : Entry) : (server.absorb a e).content =
      Function.update server.content a (some e) := by
  funext b
  have hknown : (server.absorb a e).keyword.Knows b ↔
      b = a ∨ server.keyword.Knows b := by
    unfold absorb
    dsimp only
    split
    · rename_i hold
      constructor
      · exact .inr
      · intro h
        obtain rfl | h := h
        · exact hold
        · exact h
    · unfold KeywordDirectory.Knows KeywordDirectory.push
      simp only [List.mem_append, List.mem_singleton]
      tauto
  unfold content
  by_cases heq : b = a
  · subst heq
    rw [if_pos (hknown.mpr (.inl rfl)), Function.update_self]
    exact AList.lookup_insert _
  · rw [Function.update_of_ne heq]
    have hlookup : (server.absorb a e).records.lookup b =
        server.records.lookup b := AList.lookup_insert_ne heq
    simp [hknown, heq, hlookup]

theorem TableServer.knows_reopen {saved : KeywordDirectory Table}
    {map : PirSnapshot} {a : Address} (h : a ∈ map) :
    (reopen saved map).keyword.Knows a := by
  change a ∈ saved.mphf ++
    (saved.delta ++ map.keys.filter fun a => ¬ saved.Knows a)
  by_cases hsaved : saved.Knows a
  · have hmem : a ∈ saved.mphf ++ saved.delta := hsaved
    rw [List.mem_append] at hmem
    simp only [List.mem_append]
    tauto
  · have hkey : a ∈ map.keys := AList.mem_keys.mp h
    simp [hkey, hsaved]

theorem tablePir_absorbs : (tablePir capacity).Absorbs TableServer.content where
  init_content := by
    intro map server hcall
    obtain ⟨table, hperm, hserver⟩ := hcall
    rw [hserver]
    apply TableServer.content_build
    intro a ha
    change a ∈ table ++ []
    rw [List.append_nil]
    exact hperm.mem_iff.mpr (AList.mem_keys.mp ha)
  restore_content := by
    intro blob keys map server hcall
    have hserver : server = .reopen blob map := hcall
    rw [hserver]
    exact TableServer.content_build fun a ha => TableServer.knows_reopen ha
  update_content := by
    intro server a e server' hcall
    have hserver : server' = server.absorb a e := hcall.2
    rw [hserver]
    exact server.content_absorb a e
  update_fails := by
    intro server a e fault server' hcall
    exact congrArg TableServer.content hcall.2
  publish_content := by
    intro server answer server' hcall
    cases answer with
    | ok installed =>
        cases installed with
        | some done =>
            have hserver : server' = server.refresh := hcall
            rw [hserver]
            rfl
        | none => exact congrArg TableServer.content hcall.2
    | error fault => exact congrArg TableServer.content hcall
  rebuild_content := by
    intro server map server' hcall
    obtain ⟨table, hperm, hserver⟩ := hcall
    rw [hserver]
    apply TableServer.content_build
    intro a ha
    change a ∈ table ++ []
    rw [List.append_nil]
    exact hperm.mem_iff.mpr (AList.mem_keys.mp ha)
  rebuild_fails := by
    intro server map fault server' hcall
    exact congrArg TableServer.content hcall
  init_database := by
    intro map server hcall
    obtain ⟨table, -, hserver⟩ := hcall
    rw [hserver]
    exact TableServer.stores_content rfl rfl
  restore_database := by
    intro blob keys map server hcall
    have hserver : server = .reopen blob map := hcall
    rw [hserver]
    exact TableServer.stores_content rfl rfl
  publish_database := by
    intro server done server' hcall
    cases done with
    | some done =>
        have hserver : server' = server.refresh := hcall
        rw [hserver]
        exact TableServer.stores_content rfl rfl
    | none =>
        have hserver : server' = server.refresh := hcall.2.trans hcall.1
        rw [hserver]
        exact TableServer.stores_content rfl rfl
  rebuild_database := by
    intro server map server' hcall
    obtain ⟨table, -, hserver⟩ := hcall
    rw [hserver]
    exact TableServer.stores_content rfl rfl

end Tables

namespace SecondHolder

open Sample

def cfg : PirConfig := ⟨0, 0⟩

def start : PirThread (tablePir 2) := built 2 first (noFiles 2)

/-- A second holder is absorbed, and the database is rebuilt. -/
def choices : List Choice :=
  [.go, .go, .go, .go, .go, .go, .receive [(second, entry)], .go, .go, .go, .go]

theorem driven : ∃ es s, drive cfg choices start = some (es, s) ∧
    accepted (installed es) = [(second, entry)] :=
  ⟨_, _, rfl, rfl⟩

theorem served_records_second : ∃ es s,
    drive cfg choices start = some (es, s) ∧
      ((tablePir 2).database s.server).Says second entry ∧
      ((tablePir 2).database s.server).Says first entry := by
  obtain ⟨es, s, hdrive, haccepted⟩ := driven
  have hshows := served_records tablePir_absorbs tablePir_installs
    (opens_built rfl) (drive_run hdrive)
  rw [haccepted] at hshows
  refine ⟨es, s, hdrive, ?_, ?_⟩
  · exact (hshows second entry rfl).mpr rfl
  · exact (hshows first entry rfl).mpr rfl

end SecondHolder

end UsdtPir
