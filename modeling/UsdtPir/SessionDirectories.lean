import Mathlib.Data.List.Infix
import UsdtPir.ClientSession
import UsdtPir.HashMaps
import UsdtPir.PendingQueries
import UsdtPir.ThreadInvariants

/-!
# What a client is told

The directory of a client was live once, and so was the one by which the
database is laid out.  Of one generation the two differ only in what one of them
lacks at its end, so an address with a record is sent to the same slot by both,
unless it was appended after the client had fetched its directory.
-/

namespace UsdtPir

open Machine

/-! ## What the thread exposes and serves -/

/-- No address past the layout has a record, and what is exposed is a directory
that was live. -/
structure PirThread.Sends {P : EthPir} (s : PirThread P) : Prop where
  inStep : s.InStep
  unheld : ∀ i b e, (P.database s.server).record i = some (b, e) →
    b ∉ s.live.delta.drop s.layout.delta.length
  genuine : s.published ≠ [] → s.exposed.Genuine
  older : s.published ≠ [] → s.exposed.parsed.Precedes s.live

section Threads

variable {P : EthPir} {cfg : PirConfig} {s s' start : PirThread P}
    {e : PirEvent P}

theorem Opens.sends {initial : PirSnapshot} {files : KeywordFiles P}
    {fresh : Bool} (hinstalls : P.Installs)
    (hopen : Opens P initial files fresh start) : start.Sends := by
  have hnone := hopen.published
  constructor
  · exact hopen.inStep hinstalls
  · intro i b e _
    rw [hopen.layout hinstalls, List.drop_length]
    exact List.not_mem_nil
  · intro hsome
    exact absurd hnone hsome
  · intro hsome
    exact absurd hnone hsome

/-- What is exposed stays, or becomes the live directory. -/
theorem exposed_step (hstep : PirStep P cfg s e s') (h : s.Carries) :
    (s'.exposed = s.exposed ∧ s'.published = s.published) ∨
      (s'.published ≠ [] ∧ s'.exposed.Genuine ∧
        s'.exposed.parsed = s.live ∧ s'.live = s.live) := by
  cases hstep with
  | expose hphase hparse =>
      exact .inr ⟨List.cons_ne_nil _ _, Directory.genuine_fromBlob hparse,
        h.exposed hphase hparse, rfl⟩
  | _ => exact .inl ⟨rfl, rfl⟩

/-- What grows past a prefix of it was there or is appended. -/
theorem mem_drop_of_extends {M : Type} {older newer : KeywordDirectory M}
    {k : ℕ} {b : Address} (h : older.Extends newer)
    (hk : k ≤ older.delta.length) (hb : b ∈ newer.delta.drop k) :
    b ∈ older.delta.drop k ∨ b ∈ newer.delta.drop older.delta.length := by
  obtain ⟨rest, hrest⟩ := h.delta
  rw [← hrest, List.drop_append_of_le_length hk] at hb
  rw [← hrest, List.drop_left]
  exact List.mem_append.mp hb

theorem unheld_step (hlaws : P.Versioned) (hinstalls : P.Installs)
    (hkeeps : P.Keeps) (hstep : PirStep P cfg s e s') (h : s.Sends) :
    ∀ i b e, (P.database s'.server).record i = some (b, e) →
      b ∉ s'.live.delta.drop s'.layout.delta.length := by
  have hinstalled : s'.layout = s'.live →
      ∀ i b e, (P.database s'.server).record i = some (b, e) →
        b ∉ s'.live.delta.drop s'.layout.delta.length := by
    intro hlayout i b e _
    rw [hlayout, List.drop_length]
    exact List.not_mem_nil
  cases hstep with
  | @update addr entry rest answer server hphase hcall =>
      intro i b e hrecord hmem
      have hdatabase : P.database server = P.database s.server :=
        hinstalls.update_database hcall
      change b ∈ (P.keyword server).delta.drop
        (P.database server).layout.delta.length at hmem
      change (P.database server).record i = some (b, e) at hrecord
      rw [hdatabase] at hrecord hmem
      have hextends := hlaws.update_extends hcall
      have hlayout := h.inStep.layout
      obtain hold | hnew := mem_drop_of_extends hextends
        hlayout.delta.length_le hmem
      · exact h.unheld i b e hrecord hold
      · exact hkeeps.update_appends hcall hlayout hrecord hnew
  | @publish answer server hphase hcall =>
      cases answer with
      | ok done => exact hinstalled (hinstalls.publish_layout hcall)
      | error fault =>
          have hdatabase := hinstalls.publish_fails hcall
          have hkeyword := hlaws.publish_keyword hcall
          intro i b e hrecord
          change b ∉ (P.keyword server).delta.drop
            (P.database server).layout.delta.length
          change (P.database server).record i = some (b, e) at hrecord
          rw [hdatabase] at hrecord ⊢
          rw [hkeyword]
          exact h.unheld i b e hrecord
  | rebuilt hphase htest hcall =>
      exact hinstalled (hinstalls.rebuild_layout hcall)
  | @rebuildFails fault server hphase htest hcall =>
      have hdatabase := hinstalls.rebuild_keeps hcall
      have hkeyword := hlaws.rebuild_fails hcall
      intro i b e hrecord
      change b ∉ (P.keyword server).delta.drop
        (P.database server).layout.delta.length
      change (P.database server).record i = some (b, e) at hrecord
      rw [hdatabase] at hrecord ⊢
      rw [hkeyword]
      exact h.unheld i b e hrecord
  | _ => exact h.unheld

theorem PirThread.Sends.step (hlaws : P.Versioned) (hinstalls : P.Installs)
    (hfaithful : P.Faithful) (hkeeps : P.Keeps)
    (hstep : PirStep P cfg s e s') (h : s.Sends) : s'.Sends := by
  constructor
  · exact h.inStep.step hlaws hinstalls hfaithful hstep
  · exact unheld_step hlaws hinstalls hkeeps hstep h
  · intro hsome
    obtain ⟨hexposed, hpublished⟩ | ⟨-, hgenuine, -, -⟩ :=
      exposed_step hstep h.inStep.carries
    · rw [hpublished] at hsome
      rw [hexposed]
      exact h.genuine hsome
    · exact hgenuine
  · intro hsome
    obtain ⟨hexposed, hpublished⟩ | ⟨-, -, hparsed, hlive⟩ :=
      exposed_step hstep h.inStep.carries
    · rw [hpublished] at hsome
      rw [hexposed]
      exact (h.older hsome).step hlaws hstep
    · rw [hparsed, hlive]
      exact .refl _

/-- What precedes the exposed directory still does after a step. -/
theorem PirThread.Sends.precedes_step {older : KeywordDirectory P.Mphf}
    (h : s.Sends) (hstep : PirStep P cfg s e s') (hsome : s.published ≠ [])
    (hprecedes : older.Precedes s.exposed.parsed) :
    s'.published ≠ [] ∧ older.Precedes s'.exposed.parsed := by
  obtain ⟨hexposed, hpublished⟩ | ⟨hnext, -, hparsed, -⟩ :=
    exposed_step hstep h.inStep.carries
  · rw [hpublished, hexposed]
    exact ⟨hsome, hprecedes⟩
  · rw [hparsed]
    exact ⟨hnext, hprecedes.trans (h.older hsome)⟩

/-- A directory that was live sends an address with a record where the layout
does, if it is of the same generation and the address was not appended to it
since. -/
theorem PirThread.Sends.slot_eq (h : s.Sends) (hkeeps : P.Keeps)
    {directory : KeywordDirectory P.Mphf} {a : Address}
    (holder : directory.Precedes s.live)
    (hversion : directory.version = s.layout.version)
    (hnew : a ∉ s.layout.delta.drop directory.delta.length)
    (hholds : (P.database s.server).Holds a) :
    P.slot directory a = P.slot s.layout a := by
  have hlayout := h.inStep.layout
  have hextends : directory.Extends s.live :=
    holder.2 (hversion.trans hlayout.version.symm)
  have hmphf : s.layout.mphf = directory.mphf :=
    hlayout.mphf.symm.trans hextends.mphf
  obtain hshorter | hlonger :=
    List.prefix_or_prefix_of_prefix hextends.delta hlayout.delta
  · exact (hkeeps.slot_appended ⟨hversion.symm, hmphf, hshorter⟩ hnew).symm
  · obtain ⟨i, e, hrecord⟩ := hholds
    apply hkeeps.slot_appended ⟨hversion, hmphf.symm, hlonger⟩
    intro hmem
    apply h.unheld i a e hrecord
    exact (List.IsPrefix.drop hextends.delta _).subset hmem

end Threads

/-! ## The directories of a session -/

section Sessions

variable {P : EthPir} {cfg : PirConfig} {s s' start : Session P}
    {e : SessionEvent P} {es : List (SessionEvent P)}

/-- The queries that are not decoded yet. -/
def Session.flying (s : Session P) : List (Exchange P) :=
  s.sent ++ s.responses.map Response.exchange

/-- The client fetches its first directory after the thread has exposed one,
and no query id is handed out while a query under it is on its way.  Between
the client's directory and the database that answers a query for an address
with a record there was no keyword rebuild, and the address was not appended. -/
def InTime (s : Session P) : SessionEvent P → Prop
  | .bootstrap => s.thread.published ≠ []
  | .query _ => ∀ client, s.client = some client →
      ∀ exchange ∈ s.flying, exchange.id ≠ client.nextId
  | .answer exchange =>
      (P.database s.thread.server).Holds exchange.lookup.address →
      exchange.lookup.directory.version = s.thread.layout.version ∧
        exchange.lookup.address ∉ s.thread.layout.delta.drop
          exchange.lookup.directory.delta.length
  | _ => True

/-- The client and its queries have directories that were exposed. -/
structure Session.Held (s : Session P) : Prop where
  sends : s.thread.Sends
  client : ∀ client, s.client = some client → s.thread.published ≠ [] ∧
    client.directory.Precedes s.thread.exposed.parsed
  flying : ∀ exchange ∈ s.flying,
    exchange.lookup.directory.Precedes s.thread.live

/-- What is pending under the id of a query is that query. -/
def Session.Own (s : Session P) : Prop :=
  ∀ client, s.client = some client → ∀ exchange ∈ s.flying, ∀ lookup,
    client.pending.lookup exchange.id = some lookup →
    lookup = exchange.lookup

theorem Session.mem_flying_of_sent {before after : List (Exchange P)}
    {exchange : Exchange P} (hsent : s.sent = before ++ exchange :: after) :
    exchange ∈ s.flying ∧ ∀ other ∈ before ++ after, other ∈ s.sent := by
  constructor
  · apply List.mem_append_left
    rw [hsent]
    exact List.mem_append_right _ List.mem_cons_self
  · intro other hother
    rw [hsent]
    obtain hbefore | hafter := List.mem_append.mp hother
    · exact List.mem_append_left _ hbefore
    · exact List.mem_append_right _ (List.mem_cons_of_mem _ hafter)

theorem Session.mem_responses_of {before after : List (Response P)}
    {response : Response P}
    (hresponses : s.responses = before ++ response :: after) :
    response ∈ s.responses ∧ ∀ other ∈ before ++ after,
      other ∈ s.responses := by
  constructor
  · rw [hresponses]
    exact List.mem_append_right _ List.mem_cons_self
  · intro other hother
    rw [hresponses]
    obtain hbefore | hafter := List.mem_append.mp hother
    · exact List.mem_append_left _ hbefore
    · exact List.mem_append_right _ (List.mem_cons_of_mem _ hafter)

/-- Only a query adds to what is on its way. -/
theorem flying_step (hstep : SessionStep P cfg s e s') :
    ((∀ a, e ≠ .query a) ∧ ∀ exchange ∈ s'.flying, exchange ∈ s.flying) ∨
      ∃ client a, s.client = some client ∧ e = .query a ∧
        s' = { s with
          client := some (client.query a).2
          sent := s.sent ++ [⟨(client.query a).1, a, client.directory⟩] } := by
  cases hstep with
  | @query client a hclient => exact .inr ⟨client, a, hclient, rfl, rfl⟩
  | @answer exchange before after hsent =>
      obtain ⟨hmem, hrest⟩ := Session.mem_flying_of_sent hsent
      refine .inl ⟨fun a h => (by cases h), ?_⟩
      intro other hother
      obtain hstill | hanswered := List.mem_append.mp hother
      · exact List.mem_append_left _ (hrest other hstill)
      · rw [List.map_append, List.mem_append] at hanswered
        obtain hold | hnew := hanswered
        · exact List.mem_append_right _ hold
        · rw [List.mem_singleton.mp hnew]
          exact hmem
  | decode hclient hresponses hcall
  | decodeFails hclient hresponses hcall =>
      obtain ⟨-, hrest⟩ := Session.mem_responses_of hresponses
      refine .inl ⟨fun a h => (by cases h), ?_⟩
      intro other hother
      obtain hsent | hdecoded := List.mem_append.mp hother
      · exact List.mem_append_left _ hsent
      · obtain ⟨response, hresponse, rfl⟩ := List.mem_map.mp hdecoded
        exact List.mem_append_right _
          (List.mem_map_of_mem (hrest response hresponse))
  | _ => exact .inl ⟨fun a h => (by cases h), fun _ hexchange => hexchange⟩

/-- What the client has after a step is what it had, or was exposed. -/
theorem client_step (hfits : P.Tails) (hstep : SessionStep P cfg s e s')
    (htime : InTime s e) (h : s.Held) {client' : Client P}
    (hclient' : s'.client = some client') :
    (∃ client, s.client = some client ∧
        client'.directory = client.directory) ∨
      (s.thread.published ≠ [] ∧
        client'.directory = s.thread.exposed.parsed) := by
  cases hstep with
  | bootstrap hnone hparse =>
      cases hclient'
      have hread := (h.sends.genuine htime).full
      rw [hread] at hparse
      exact .inr ⟨htime, (Except.ok.inj hparse).symm⟩
  | fetchFull hclient hplan hcall =>
      cases hclient'
      obtain ⟨hsome, -⟩ := h.client _ hclient
      have hread := (h.sends.genuine hsome).full
      have hgot := Client.directory_resync hcall
      rw [hread] at hgot
      exact .inr ⟨hsome, (Except.ok.inj hgot).symm⟩
  | fetchTail hclient hplan htail hcall =>
      cases hclient'
      obtain ⟨hsome, hprecedes⟩ := h.client _ hclient
      exact .inr ⟨hsome, hfits.joined htail
        (Client.directory_applyTail hcall) hprecedes⟩
  | query hclient =>
      cases hclient'
      exact .inl ⟨_, hclient, rfl⟩
  | decode hclient hresponses hcall
  | decodeFails hclient hresponses hcall =>
      cases hclient'
      exact .inl ⟨_, hclient, Client.directory_decode hcall⟩
  | _ => exact .inl ⟨client', hclient', rfl⟩

/-- Only the thread moves what it exposes, and it leaves the rest. -/
theorem thread_step (hstep : SessionStep P cfg s e s') :
    s'.thread = s.thread ∨ ∃ inner,
      PirStep P cfg s.thread inner s'.thread ∧ s'.client = s.client ∧
        s'.flying = s.flying := by
  cases hstep with
  | server hstep => exact .inr ⟨_, hstep, rfl, rfl⟩
  | _ => exact .inl rfl

theorem Session.Held.step (hlaws : P.Versioned) (hinstalls : P.Installs)
    (hfaithful : P.Faithful) (hkeeps : P.Keeps) (hfits : P.Tails)
    (hstep : SessionStep P cfg s e s') (htime : InTime s e) (h : s.Held) :
    s'.Held := by
  obtain hthread | ⟨inner, hinner, hsame, hflying⟩ := thread_step hstep
  · constructor
    · rw [hthread]
      exact h.sends
    · intro client' hclient'
      rw [hthread]
      obtain ⟨client, hclient, hdirectory⟩ | ⟨hsome, hdirectory⟩ :=
        client_step hfits hstep htime h hclient'
      · rw [hdirectory]
        exact h.client client hclient
      · rw [hdirectory]
        exact ⟨hsome, .refl _⟩
    · rw [hthread]
      obtain ⟨-, hsubset⟩ | ⟨client, a, hclient, -, hasked⟩ :=
        flying_step hstep
      · intro exchange hexchange
        exact h.flying exchange (hsubset exchange hexchange)
      · obtain ⟨hsome, hprecedes⟩ := h.client client hclient
        intro exchange hexchange
        rw [hasked] at hexchange
        obtain hsent | hanswered := List.mem_append.mp hexchange
        · obtain hold | hnew := List.mem_append.mp hsent
          · exact h.flying exchange (List.mem_append_left _ hold)
          · rw [List.mem_singleton.mp hnew]
            exact hprecedes.trans (h.sends.older hsome)
        · exact h.flying exchange (List.mem_append_right _ hanswered)
  · constructor
    · exact h.sends.step hlaws hinstalls hfaithful hkeeps hinner
    · intro client hclient
      rw [hsame] at hclient
      obtain ⟨hsome, hprecedes⟩ := h.client client hclient
      exact h.sends.precedes_step hinner hsome hprecedes
    · intro exchange hexchange
      rw [hflying] at hexchange
      exact (h.flying exchange hexchange).step hlaws hinner

/-- Only a query adds to what is pending. -/
theorem pending_step (hstep : SessionStep P cfg s e s')
    (hquery : ∀ a, e ≠ .query a) {client' : Client P}
    (hclient' : s'.client = some client') {id : ℕ} {lookup : Lookup P}
    (hpending : client'.pending.lookup id = some lookup) :
    ∃ client, s.client = some client ∧
      client.pending.lookup id = some lookup := by
  cases hstep with
  | bootstrap hnone hparse =>
      cases hclient'
      cases hpending
  | @fetchFull client _ hclient hplan hcall =>
      cases hclient'
      obtain ⟨fault, hfails⟩ | ⟨directory, hread⟩ :=
        client.resync_cases s.thread.exposed.full
      · rw [hfails] at hcall
        cases hcall
      · rw [hread] at hcall
        cases hcall
        cases hpending
  | @fetchTail client _ start tail hclient hplan htail hcall =>
      cases hclient'
      obtain ⟨fault, hfails⟩ | ⟨directory, hjoined⟩ :=
        client.applyTail_cases tail
      · rw [hfails] at hcall
        cases hcall
      · rw [hjoined] at hcall
        cases hcall
        exact ⟨client, hclient, hpending⟩
  | query hclient => exact absurd rfl (hquery _)
  | @decode client _ response _ _ _ hclient hresponses hcall
  | @decodeFails client _ response _ _ _ hclient hresponses hcall =>
      cases hclient'
      have hleft := @Client.pending_decode P client response.exchange.id
        response.decrypt id
      rw [hcall, hpending] at hleft
      by_cases hself : id = response.exchange.id
      · rw [if_pos hself] at hleft
        cases hleft
      · rw [if_neg hself] at hleft
        exact ⟨client, hclient, hleft.symm⟩
  | _ => exact ⟨client', hclient', hpending⟩

theorem Session.Own.step (hstep : SessionStep P cfg s e s')
    (htime : InTime s e) (h : s.Own) : s'.Own := by
  intro client' hclient' exchange hexchange lookup hpending
  obtain ⟨hquery, hsubset⟩ | ⟨client, a, hclient, rfl, hasked⟩ :=
    flying_step hstep
  · obtain ⟨client, hclient, hold⟩ :=
      pending_step hstep hquery hclient' hpending
    exact h client hclient exchange (hsubset exchange hexchange) lookup hold
  · rw [hasked] at hclient' hexchange
    cases hclient'
    have hstill : ∀ exchange ∈ s.flying,
        (client.query a).2.pending.lookup exchange.id = some lookup →
        lookup = exchange.lookup := by
      intro exchange hexchange hpending
      obtain ⟨hid, -⟩ | ⟨-, hold⟩ := lookup_of_insert hpending
      · exact absurd hid (htime client hclient exchange hexchange)
      · exact h client hclient exchange hexchange lookup hold
    obtain hsent | hanswered := List.mem_append.mp hexchange
    · obtain hold | hnew := List.mem_append.mp hsent
      · exact hstill exchange (List.mem_append_left _ hold) hpending
      · rw [List.mem_singleton.mp hnew] at hpending ⊢
        rw [client.lookup_query a] at hpending
        exact (Option.some.inj hpending).symm
    · exact hstill exchange (List.mem_append_right _ hanswered) hpending

/-- A response holds the record of the address, if its database has one. -/
def Response.Exact (response : Response P) : Prop :=
  response.database.Holds response.exchange.lookup.address →
  ∃ entry, response.record = some (response.exchange.lookup.address, entry)

/-- The responses and the reports that were made say what the databases
hold. -/
structure Session.Honest (s : Session P) : Prop where
  held : s.Held
  own : s.Own
  responses : ∀ response ∈ s.responses, response.Exact
  told : ∀ told ∈ s.told, told.Truthful

namespace Session.Honest

theorem answered (hkeeps : P.Keeps) (hplaces : P.Places) (h : s.Held)
    {exchange : Exchange P} (hflying : exchange ∈ s.flying)
    (htime : InTime s (.answer exchange)) :
    Response.Exact ⟨exchange, P.database s.thread.server,
      (P.database s.thread.server).record exchange.lookup.slot⟩ := by
  intro hholds
  obtain ⟨hversion, hnew⟩ := htime hholds
  have hslot := h.sends.slot_eq hkeeps (h.flying exchange hflying) hversion
    hnew hholds
  obtain ⟨i, entry, hrecord⟩ := hholds
  have hplace := hplaces.record_slot hrecord
  refine ⟨entry, ?_⟩
  change (P.database s.thread.server).record
    (P.slot exchange.lookup.directory exchange.lookup.address) = _
  rw [hslot, hplace]
  exact hrecord

theorem decoded {client client' : Client P} {response : Response P}
    {report : Report} (hexact : response.Exact)
    (hown : ∀ lookup, client.pending.lookup response.exchange.id =
      some lookup → lookup = response.exchange.lookup)
    (hcall : client.decode response.exchange.id response.decrypt =
      (.ok report, client')) :
    Told.Truthful ⟨report, response.database⟩ := by
  obtain ⟨lookup, hpending, ⟨entry, -, rfl⟩ | ⟨hdecrypt, rfl⟩⟩ :=
    Client.decode_eq_ok hcall
  · intro hheld
    cases hheld
  · intro _ hholds
    have hlookup := hown lookup hpending
    subst hlookup
    obtain ⟨entry, hrecord⟩ := hexact hholds
    rw [Response.decrypt_of_record hrecord] at hdecrypt
    cases hdecrypt

theorem responses_step (hkeeps : P.Keeps) (hplaces : P.Places)
    (hstep : SessionStep P cfg s e s') (htime : InTime s e) (h : s.Honest) :
    ∀ response ∈ s'.responses, response.Exact := by
  cases hstep with
  | answer hsent =>
      obtain ⟨hflying, -⟩ := Session.mem_flying_of_sent hsent
      intro response hresponse
      obtain hold | hnew := List.mem_append.mp hresponse
      · exact h.responses response hold
      · rw [List.mem_singleton.mp hnew]
        exact answered hkeeps hplaces h.held hflying htime
  | decode hclient hresponses hcall
  | decodeFails hclient hresponses hcall =>
      obtain ⟨-, hrest⟩ := Session.mem_responses_of hresponses
      intro other hother
      exact h.responses other (hrest other hother)
  | _ => exact h.responses

theorem told_step (hstep : SessionStep P cfg s e s') (h : s.Honest) :
    ∀ told ∈ s'.told, told.Truthful := by
  cases hstep with
  | @decode client client' response before after report hclient hresponses
      hcall =>
      obtain ⟨hmem, -⟩ := Session.mem_responses_of hresponses
      have hflying : response.exchange ∈ s.flying :=
        List.mem_append_right _ (List.mem_map_of_mem hmem)
      intro told htold
      obtain hold | hnew := List.mem_append.mp htold
      · exact h.told told hold
      · rw [List.mem_singleton.mp hnew]
        exact decoded (h.responses response hmem)
          (h.own client hclient response.exchange hflying) hcall
  | _ => exact h.told

theorem step (hlaws : P.Versioned) (hinstalls : P.Installs)
    (hfaithful : P.Faithful) (hkeeps : P.Keeps) (hfits : P.Tails)
    (hplaces : P.Places) (hstep : SessionStep P cfg s e s')
    (htime : InTime s e) (h : s.Honest) : s'.Honest := by
  constructor
  · exact h.held.step hlaws hinstalls hfaithful hkeeps hfits hstep htime
  · exact h.own.step hstep htime
  · exact h.responses_step hkeeps hplaces hstep htime
  · exact h.told_step hstep

end Session.Honest

/-- No client is told that an address is not held while the database that
answered has a record of it. -/
theorem told_truthfully (hlaws : P.Versioned) (hinstalls : P.Installs)
    (hfaithful : P.Faithful) (hkeeps : P.Keeps) (hfits : P.Tails)
    (hplaces : P.Places) {initial : PirSnapshot} {files : KeywordFiles P}
    {fresh : Bool} (hopen : Opens P initial files fresh start.thread)
    (hclient : start.client = none) (hsent : start.sent = [])
    (hresponses : start.responses = []) (htold : start.told = [])
    (hrun : Run (fun s e s' => SessionStep P cfg s e s' ∧ InTime s e)
      start es s) : ∀ told ∈ s.told, told.Truthful := by
  have hflying : start.flying = [] := by
    unfold Session.flying
    rw [hsent, hresponses]
    rfl
  have hstart : start.Honest := by
    constructor
    · constructor
      · exact hopen.sends hinstalls
      · intro client hsome
        rw [hclient] at hsome
        cases hsome
      · rw [hflying]
        intro exchange hexchange
        cases hexchange
    · intro client hsome
      rw [hclient] at hsome
      cases hsome
    · rw [hresponses]
      intro response hresponse
      cases hresponse
    · rw [htold]
      intro told hmem
      cases hmem
  exact (hrun.invariant (P := Session.Honest) hstart fun hstep h =>
    h.step hlaws hinstalls hfaithful hkeeps hfits hplaces hstep.1
      hstep.2).told

/-- The steps of the server, with the client doing nothing. -/
theorem Session.server_run {thread thread' : PirThread P}
    {es : List (PirEvent P)} (s : Session P)
    (hrun : Run (PirStep P cfg) thread es thread') :
    Run (fun s e s' => SessionStep P cfg s e s' ∧ InTime s e)
      { s with thread } (es.map .server) { s with thread := thread' } := by
  induction hrun with
  | nil thread => exact .nil _
  | cons hstep hrest ih => exact .cons ⟨.server hstep, trivial⟩ ih

end Sessions

namespace MovedSlot

open Sample

def cfg : PirConfig := ⟨0, 0⟩

def start : Session (tablePir 2) :=
  ⟨built 2 first (noFiles 2), none, none, [], [], []⟩

/-- Checkpoint and directory are written, and the directory is exposed. -/
def opening : List Choice :=
  [.go, .go, .go, .go, .go, .go]

/-- The second holder arrives, and the index is rebuilt over both. -/
def compaction : List Choice :=
  [.receive [(second, entry)], .go, .go, .go, .go, .go]

/-- The directory over the first holder. -/
def directory : KeywordDirectory Table :=
  ⟨0, [first], []⟩

/-- The client has fetched the directory, found it current, and asks. -/
def asking (thread : PirThread (tablePir 2)) (a : Address) :
    Session (tablePir 2) :=
  { start with
    thread
    client := some ((Client.new directory : Client (tablePir 2)).query a).2
    plan := some .upToDate
    sent := [⟨0, a, directory⟩] }

/-- What the thread shows is the directory over the first holder. -/
structure Shows (thread : PirThread (tablePir 2)) : Prop where
  published : thread.published ≠ []
  parse : (tablePir 2).readFrom thread.exposed.full = .ok directory
  version : thread.exposed.version = 0
  tailLen : thread.exposed.tailLen = 0

theorem run_asking {thread : PirThread (tablePir 2)} {s : Session (tablePir 2)}
    {es : List (SessionEvent (tablePir 2))} (hshows : Shows thread)
    (hs : s = { start with thread }) (a : Address)
    (hrun : Run (fun s e s' => SessionStep (tablePir 2) cfg s e s' ∧
      InTime s e) start es s) :
    Run (fun s e s' => SessionStep (tablePir 2) cfg s e s' ∧ InTime s e) start
      (es ++ [.bootstrap, .status, .ensureCurrent true, .query a])
      (asking thread a) := by
  subst hs
  have hneed : ∀ s : Session (tablePir 2), s.thread = thread →
      s.need (.new directory) = .upToDate := by
    intro s hs
    unfold Session.need
    rw [hs, hshows.version, hshows.tailLen]
    rfl
  apply hrun.append
  apply Run.cons ⟨.bootstrap rfl hshows.parse, hshows.published⟩
  apply Run.cons ⟨.status rfl, trivial⟩
  rw [hneed _ rfl]
  have hcurrent := decide_eq_true (hneed
    { start with
      thread
      client := some (.new directory)
      plan := some .upToDate } rfl)
  rw [← hcurrent]
  apply Run.cons ⟨.ensureCurrent rfl, trivial⟩
  refine .cons ⟨.query rfl, ?_⟩ (.nil _)
  intro client _ exchange hexchange
  cases hexchange

/-- The answer arrives, and it is not the record of the address. -/
theorem steps_answered {thread : PirThread (tablePir 2)} {a b : Address}
    (hrecord : ((tablePir 2).database thread.server).record
      ((tablePir 2).slot directory a) = some (b, entry)) (hne : b ≠ a) :
    ∃ s₁ s₂ response,
      SessionStep (tablePir 2) cfg (asking thread a)
        (.answer ⟨0, a, directory⟩) s₁ ∧
      SessionStep (tablePir 2) cfg s₁ (.decode response) s₂ ∧
      ⟨.notHeld a, (tablePir 2).database thread.server⟩ ∈ s₂.told := by
  let client : Client (tablePir 2) := (Client.new directory).query a |>.2
  let response : Response (tablePir 2) :=
    ⟨⟨0, a, directory⟩, (tablePir 2).database thread.server,
      ((tablePir 2).database thread.server).record
        ((tablePir 2).slot directory a)⟩
  have hpending : client.pending.lookup 0 = some ⟨a, directory⟩ :=
    Client.lookup_query _ a
  have hdecrypt : response.decrypt ⟨a, directory⟩ = .error .notInSet :=
    Response.decrypt_of_ne hrecord hne
  obtain ⟨client', hcall⟩ := Client.decode_notHeld hpending hdecrypt
  have hanswer : SessionStep (tablePir 2) cfg (asking thread a)
      (.answer ⟨0, a, directory⟩)
      { asking thread a with sent := [], responses := [response] } :=
    @SessionStep.answer (tablePir 2) cfg (asking thread a) ⟨0, a, directory⟩
      [] [] rfl
  have hdecode : SessionStep (tablePir 2) cfg
      { asking thread a with sent := [], responses := [response] }
      (.decode response)
      { asking thread a with
        sent := []
        client := some client'
        responses := []
        told := [⟨.notHeld a, (tablePir 2).database thread.server⟩] } :=
    @SessionStep.decode (tablePir 2) cfg _ client client' response [] []
      (.notHeld a) rfl rfl hcall
  exact ⟨_, _, response, hanswer, hdecode, List.mem_cons_self⟩

theorem driven_opening : ∃ es thread,
    drive cfg opening start.thread = some (es, thread) ∧ Shows thread ∧
      thread.layout = directory ∧
      ((tablePir 2).database thread.server).record 0 = some (first, entry) ∧
      ∃ es' thread', drive cfg compaction thread = some (es', thread') ∧
        ((tablePir 2).database thread'.server).record 0 =
          some (second, entry) ∧
        ((tablePir 2).database thread'.server).record 1 =
          some (first, entry) :=
  ⟨_, _, rfl, ⟨List.cons_ne_nil _ _, rfl, rfl, rfl⟩, rfl, rfl, _, _, rfl, rfl,
    rfl⟩

theorem told_truthfully_unmoved : ∃ es s told,
    Run (fun s e s' => SessionStep (tablePir 2) cfg s e s' ∧ InTime s e)
      start es s ∧ told ∈ s.told ∧ told.report = .notHeld second ∧
      told.Truthful := by
  obtain ⟨es, thread, hdrive, hshows, hlayout, hrecord, -⟩ := driven_opening
  have hopen := Session.server_run start (drive_run hdrive)
  have hasking := run_asking hshows rfl second hopen
  obtain ⟨s₁, s₂, response, hanswer, hdecode, htold⟩ :=
    steps_answered (a := second) hrecord (by decide)
  have htime : InTime (asking thread second)
      (.answer ⟨0, second, directory⟩) := by
    intro _
    change directory.version = thread.layout.version ∧
      second ∉ thread.layout.delta.drop directory.delta.length
    rw [hlayout]
    exact ⟨rfl, List.not_mem_nil⟩
  have hrun := (hasking.snoc ⟨hanswer, htime⟩).snoc ⟨hdecode, trivial⟩
  exact ⟨_, s₂, _, hrun, htold, rfl,
    told_truthfully tablePir_versioned tablePir_installs
      tablePir_serializes.faithful tablePir_keeps tablePir_tails
      tablePir_places (opens_built rfl) rfl rfl rfl rfl hrun _ htold⟩

/-- The index is rebuilt between the query and its answer: the client, whose
directory was current when it asked, is told that a held address is not held. -/
theorem held_address_reported_not_held : ∃ es s told,
    Run (SessionStep (tablePir 2) cfg) start es s ∧ told ∈ s.told ∧
      told.report = .notHeld first ∧ told.database.Holds first := by
  obtain ⟨es, thread, hdrive, hshows, -, -, es', thread', hcompact, hzero,
    hone⟩ := driven_opening
  have hopen := Session.server_run start (drive_run hdrive)
  have hasking := run_asking hshows rfl first hopen
  have hmoved := Session.server_run (asking thread first) (drive_run hcompact)
  obtain ⟨s₁, s₂, response, hanswer, hdecode, htold⟩ :=
    steps_answered (a := first) hzero (by decide)
  have hrun := ((hasking.append hmoved).mono fun hstep => hstep.1).snoc hanswer
  exact ⟨_, s₂, _, hrun.snoc hdecode, htold, rfl, 1, entry, hone⟩

end MovedSlot

end UsdtPir
