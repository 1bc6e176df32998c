import UsdtPir.KeywordPair
import UsdtPir.PirClient

/-!
# The versions that clients compare

A client asks for the whole directory only when the version has changed.  Over
any number of process lives two directories of one version that were shown to
clients come from one MPHF, as long as no index is built afresh once a directory
was shown and the placeholder is never shown.
-/

namespace UsdtPir

open Machine

/-- A host and every directory that its endpoint has shown. -/
structure Endpoint (P : EthPir) where
  host : Host P
  seen : List (Directory P)

inductive EndpointEvent (P : EthPir)
  | host (e : HostEvent P)
  | delete

/-- `publish_directory` has returned: what is in the handle is shown, the
placeholder too. -/
def Host.shown {P : EthPir} : Host P → HostEvent P → List (Directory P)
  | .up thread _, .work (.serialize false)
  | .up thread _, .work (.persist false)
  | .up thread _, .work (.expose _) => [thread.exposed]
  | _, _ => []

/-- Both keyword files can be deleted between two processes. -/
inductive EndpointStep (P : EthPir) (cfg : PirConfig) :
    Endpoint P → EndpointEvent P → Endpoint P → Prop
  | host {s : Endpoint P} {e : HostEvent P} {host' : Host P}
      (hstep : HostStep P cfg s.host e host') :
      EndpointStep P cfg s (.host e) ⟨host', host'.shown e ++ s.seen⟩
  | delete {s : Endpoint P} {files : KeywordFiles P}
      (hdown : s.host = .down files) :
      EndpointStep P cfg s .delete ⟨.down ⟨none, none⟩, s.seen⟩

/-- An index is built afresh only before the first directory was shown. -/
def FreshFirst {P : EthPir} (s : Endpoint P) : EndpointEvent P → Prop
  | .host (.start true) => s.seen = []
  | _ => True

/-- `publish_directory` fails only in a process that has exposed a directory. -/
def ExposesFirst {P : EthPir} (s : Endpoint P) : EndpointEvent P → Prop
  | .host (.work (.serialize false)) | .host (.work (.persist false))
  | .host (.work (.expose none)) =>
      ∀ thread left, s.host = .up thread left → thread.published ≠ []
  | _ => True

/-- No version is given twice. -/
structure KeepsNumbering {P : EthPir} (s : Endpoint P) (e : EndpointEvent P) :
    Prop where
  fresh : FreshFirst s e
  exposes : ExposesFirst s e

/-- One MPHF, and tails of which one continues the other. -/
def KeywordDirectory.Alike {M : Type} (d d' : KeywordDirectory M) : Prop :=
  d.mphf = d'.mphf ∧ (d.delta <+: d'.delta ∨ d'.delta <+: d.delta)

section Versions

variable {P : EthPir} {cfg : PirConfig} {thread thread' : PirThread P}
    {left left' : Leftover} {e : PirEvent P} {files : KeywordFiles P}
    {seen seen' : List (Directory P)} {s s' : Endpoint P}

/-- The index on disk is not behind what was shown. -/
def IndexKeeps (index : Option P.Blob) (seen : List (Directory P)) : Prop :=
  ∀ blob parsed, index = some blob → P.readFrom blob = .ok parsed →
    ∀ d ∈ seen, d.parsed.Precedes parsed

/-- Neither the server nor its index is behind what was shown. -/
structure Ahead (thread : PirThread P) (seen : List (Directory P)) :
    Prop where
  inHand : thread.InHand
  live : ∀ d ∈ seen, d.parsed.Precedes thread.live
  index : IndexKeeps thread.files.index seen
  next : ∀ blob, thread.phase = .exposing blob →
    thread.files.index = some blob
  current : thread.published ≠ [] → thread.exposed ∈ seen

theorem IndexKeeps.mono {index : Option P.Blob} (h : IndexKeeps index seen)
    (hsub : ∀ d ∈ seen', d ∈ seen) : IndexKeeps index seen' := by
  intro blob parsed hindex hparse d hd
  exact h blob parsed hindex hparse d (hsub d hd)

theorem IndexKeeps.written {index : Option P.Blob} {blob : P.Blob}
    {live : KeywordDirectory P.Mphf} (hindex : index = some blob)
    (hparse : P.readFrom blob = .ok live)
    (hlive : ∀ d ∈ seen, d.parsed.Precedes live) : IndexKeeps index seen := by
  intro blob' parsed hindex' hparse' d hd
  rw [hindex, Option.some.injEq] at hindex'
  rw [← hindex', hparse, Except.ok.injEq] at hparse'
  rw [← hparse']
  exact hlive d hd

theorem Ahead.of_opens {initial : PirSnapshot} {fresh : Bool}
    (hlaws : P.Versioned) (hopen : Opens P initial files fresh thread)
    (hfresh : fresh = true → seen = []) (h : IndexKeeps files.index seen) :
    Ahead thread seen := by
  have hinHand := hopen.inHand
  have hnone := hopen.published
  cases hopen with
  | restored hload hcall hempty =>
      rcases KeywordStore.of_load hload with ⟨-, parsed, hindex, -, hparse, -⟩
      have hextends := hlaws.restore_extends hcall hparse
      constructor
      · exact hinHand
      · intro d hd
        exact (h _ parsed hindex hparse d hd).extend hextends
      · exact h
      · intro blob hphase
        cases hphase
      · intro hsome
        exact absurd hnone hsome
  | built hload hcall hempty =>
      rw [hfresh rfl]
      constructor
      · exact hinHand
      · intro d hd
        cases hd
      · intro _ _ _ _ d hd
        cases hd
      · intro blob hphase
        cases hphase
      · intro hsome
        exact absurd hnone hsome

theorem Ahead.moved (h : Ahead thread seen) (hlaws : P.Versioned)
    (hstep : PirStep P cfg thread e thread') (hinHand : thread'.InHand)
    (hindex : thread'.files.index = thread.files.index)
    (hpublished : thread'.published = thread.published)
    (hexposed : thread'.exposed = thread.exposed)
    (hexposing : ∀ blob, thread'.phase ≠ .exposing blob)
    (hsame : ∀ d, d ∈ seen' ↔ d ∈ seen) : Ahead thread' seen' := by
  constructor
  · exact hinHand
  · intro d hd
    exact (h.live d ((hsame d).mp hd)).step hlaws hstep
  · rw [hindex]
    exact h.index.mono fun d hd => (hsame d).mp hd
  · intro blob hphase
    exact absurd hphase (hexposing blob)
  · rw [hpublished, hexposed]
    intro hsome
    exact (hsame _).mpr (h.current hsome)

theorem Ahead.index_written {blob : P.Blob} (h : Ahead thread seen)
    (hparse : P.readFrom blob = .ok thread.live)
    (hinHand : thread'.InHand) (hlive : thread'.live = thread.live)
    (hindex : thread'.files.index = some blob)
    (hpublished : thread'.published = thread.published)
    (hexposed : thread'.exposed = thread.exposed)
    (hexposing : ∀ blob', thread'.phase = .exposing blob' → blob' = blob) :
    Ahead thread' seen := by
  constructor
  · exact hinHand
  · rw [hlive]
    exact h.live
  · exact .written hindex hparse h.live
  · intro blob' hphase
    rw [hexposing blob' hphase]
    exact hindex
  · rw [hpublished, hexposed]
    exact h.current

theorem Ahead.step (hlaws : P.Versioned) (hwrites : P.Serializes)
    (hstep : PirStep P cfg thread e thread')
    (hkeeps : KeepsNumbering ⟨.up thread left, seen⟩ (.host (.work e)))
    (h : Ahead thread seen) :
    Ahead thread' ((Host.up thread' left').shown (.work e) ++ seen) := by
  have hagain := hstep
  have hinHand := inHand_step hwrites hstep h.inHand
  have hfailed : thread.published ≠ [] → ∀ d,
      d ∈ [thread.exposed] ++ seen ↔ d ∈ seen := by
    intro hsome d
    constructor
    · intro hd
      rcases List.mem_cons.mp hd with rfl | hold
      · exact h.current hsome
      · exact hold
    · exact List.mem_cons_of_mem _
  cases hstep with
  | @saveIndex saved hphase =>
      apply h.index_written (PirThread.inHand_index h.inHand hphase).2 hinHand
        rfl rfl rfl rfl
      intro blob' hexposing
      cases hexposing
  | @persist blob hphase =>
      apply h.index_written (PirThread.inHand_persisting h.inHand hphase)
        hinHand rfl rfl rfl rfl
      intro blob' hexposing
      cases hexposing
      rfl
  | @expose blob directory hphase hparse =>
      have hhand := PirThread.inHand_exposing h.inHand hphase
      have hread := Directory.parsed_fromBlob hparse
      have hlive : directory.parsed = thread.live := by
        rw [hhand] at hread
        exact (Except.ok.inj hread).symm
      have hall : ∀ d ∈ directory :: seen, d.parsed.Precedes thread.live := by
        intro d hd
        rcases List.mem_cons.mp hd with rfl | hold
        · rw [hlive]
          exact .refl _
        · exact h.live d hold
      constructor
      · exact hinHand
      · exact hall
      · exact .written (h.next blob hphase) hhand hall
      · intro blob' hexposing
        cases hexposing
      · intro _
        exact List.mem_cons_self
  | serializeFails hphase hcall =>
      apply h.moved hlaws hagain hinHand rfl rfl rfl nofun
      exact hfailed (hkeeps.exposes thread left rfl)
  | persistFails hphase =>
      apply h.moved hlaws hagain hinHand rfl rfl rfl nofun
      exact hfailed (hkeeps.exposes thread left rfl)
  | exposeFails hphase hparse =>
      apply h.moved hlaws hagain hinHand rfl rfl rfl nofun
      exact hfailed (hkeeps.exposes thread left rfl)
  | _ =>
      apply h.moved hlaws hagain hinHand rfl rfl rfl nofun
      intro d
      exact Iff.rfl

/-- What a step shows was shown before, or is the live directory. -/
theorem Ahead.shown (hstep : PirStep P cfg thread e thread')
    (hkeeps : KeepsNumbering ⟨.up thread left, seen⟩ (.host (.work e)))
    (h : Ahead thread seen) {d : Directory P}
    (hd : d ∈ (Host.up thread' left').shown (.work e)) :
    d ∈ seen ∨ (d.version = d.parsed.version ∧ d.parsed = thread.live) := by
  cases hstep with
  | expose hphase hparse =>
      have hhand := PirThread.inHand_exposing h.inHand hphase
      have hread := Directory.parsed_fromBlob hparse
      rw [hhand] at hread
      have hdirectory := List.mem_singleton.mp hd
      rw [hdirectory]
      exact .inr ⟨Directory.version_fromBlob hparse, (Except.ok.inj hread).symm⟩
  | serializeFails hphase hcall | persistFails hphase
  | exposeFails hphase hparse =>
      left
      rw [List.mem_singleton.mp hd]
      exact h.current (hkeeps.exposes thread left rfl)
  | _ => cases hd

/-- Directories that are in order are alike when they have one version. -/
theorem KeywordDirectory.Precedes.alike {M : Type}
    {older newer : KeywordDirectory M} (h : older.Precedes newer)
    (hversion : older.version = newer.version) :
    older.Alike newer ∧ newer.Alike older := by
  have hextends := h.2 hversion
  constructor
  · exact ⟨hextends.mphf.symm, .inl hextends.delta⟩
  · exact ⟨hextends.mphf, .inr hextends.delta⟩

structure Endpoint.Sound (s : Endpoint P) : Prop where
  versions : ∀ d ∈ s.seen, d.version = d.parsed.version
  alike : ∀ d ∈ s.seen, ∀ d' ∈ s.seen, d.parsed.version = d'.parsed.version →
    d.parsed.Alike d'.parsed
  down : ∀ files, s.host = .down files → IndexKeeps files.index s.seen
  up : ∀ thread left, s.host = .up thread left → Ahead thread s.seen

/-- More is shown, and it is the live directory or was shown before. -/
theorem Endpoint.Sound.show {host' : Host P} {shown : List (Directory P)}
    {live : KeywordDirectory P.Mphf} (h : s.Sound)
    (hlive : ∀ d ∈ s.seen, d.parsed.Precedes live)
    (hshown : ∀ d ∈ shown, d ∈ s.seen ∨
      (d.version = d.parsed.version ∧ d.parsed = live))
    (hdown : ∀ files, host' = .down files →
      IndexKeeps files.index (shown ++ s.seen))
    (hup : ∀ thread left, host' = .up thread left →
      Ahead thread (shown ++ s.seen)) :
    Endpoint.Sound ⟨host', shown ++ s.seen⟩ := by
  have hall : ∀ d ∈ shown ++ s.seen, d ∈ s.seen ∨
      (d.version = d.parsed.version ∧ d.parsed = live) := by
    intro d hd
    rcases List.mem_append.mp hd with hnew | hold
    · exact hshown d hnew
    · exact .inl hold
  constructor
  · intro d hd
    rcases hall d hd with hold | ⟨hversion, -⟩
    · exact h.versions d hold
    · exact hversion
  · intro d hd d' hd' heq
    rcases hall d hd with hold | ⟨-, hnew⟩
    · rcases hall d' hd' with hold' | ⟨-, hnew'⟩
      · exact h.alike d hold d' hold' heq
      · rw [hnew'] at heq ⊢
        exact ((hlive d hold).alike heq).1
    · rcases hall d' hd' with hold' | ⟨-, hnew'⟩
      · rw [hnew] at heq ⊢
        exact ((hlive d' hold').alike heq.symm).2
      · rw [hnew, hnew']
        exact ((KeywordDirectory.Precedes.refl live).alike rfl).1
  · exact hdown
  · exact hup

theorem Endpoint.Sound.step {e : EndpointEvent P} (hlaws : P.Versioned)
    (hwrites : P.Serializes) (hstep : EndpointStep P cfg s e s')
    (hkeeps : KeepsNumbering s e) (h : s.Sound) : s'.Sound := by
  cases hstep with
  | @host event host' hhost =>
      rcases s with ⟨host, seen⟩
      cases hhost with
      | @start files initial fresh thread hopen =>
          have hindex := h.down files rfl
          constructor
          · exact h.versions
          · exact h.alike
          · intro files' hdown
            cases hdown
          · intro thread' left' hup
            cases hup
            apply Ahead.of_opens hlaws hopen _ hindex
            intro hfresh
            rw [hfresh] at hkeeps
            exact hkeeps.fresh
      | @work thread thread' left e hwork =>
          have hahead := h.up thread left rfl
          apply h.show hahead.live
          · intro d hd
            exact hahead.shown hwork hkeeps hd
          · intro files hdown
            cases hdown
          · intro thread'' left'' hup
            cases hup
            exact hahead.step hlaws hwrites hwork hkeeps
      | @stop thread left =>
          have hahead := h.up thread left rfl
          constructor
          · exact h.versions
          · exact h.alike
          · intro files hdown
            cases hdown
            exact hahead.index
          · intro thread' left' hup
            cases hup
  | delete hdown =>
      constructor
      · exact h.versions
      · exact h.alike
      · intro files hfiles blob parsed hindex
        cases hfiles
        cases hindex
      · intro thread left hup
        cases hup

/-- Directories of one version that clients were shown are of one keyword
generation, and a client that need not fetch the whole directory holds the
MPHF of the server. -/
theorem shown_versions_agree (hlaws : P.Versioned) (hwrites : P.Serializes)
    {es : List (EndpointEvent P)} {d d' : Directory P}
    (hrun : Run (fun s e s' => EndpointStep P cfg s e s' ∧ KeepsNumbering s e)
      ⟨.down ⟨none, none⟩, []⟩ es s) (hd : d ∈ s.seen) (hd' : d' ∈ s.seen) :
    (d.version = d'.version → d.parsed.Alike d'.parsed) ∧
      ∀ client : Client P, d.parsed.Extends client.directory →
        client.syncNeed d'.version d'.tailLen ≠ .full →
        client.directory.mphf = d'.parsed.mphf := by
  have hstart : Endpoint.Sound (P := P) ⟨.down ⟨none, none⟩, []⟩ := by
    constructor
    · intro d hd
      cases hd
    · intro d hd
      cases hd
    · intro files hdown blob parsed hindex
      cases hdown
      cases hindex
    · intro thread left hup
      cases hup
  have hsound := hrun.invariant (P := Endpoint.Sound) hstart fun hstep h =>
    h.step hlaws hwrites hstep.1 hstep.2
  have halike : d.version = d'.version → d.parsed.Alike d'.parsed := by
    intro hversion
    apply hsound.alike d hd d' hd'
    rw [← hsound.versions d hd, ← hsound.versions d' hd']
    exact hversion
  constructor
  · exact halike
  · intro client hclient hneed
    have hversion : d.version = d'.version := by
      by_contra hne
      apply hneed
      unfold Client.syncNeed Client.version
      rw [hclient.version, ← hsound.versions d hd]
      exact if_pos (Ne.symm hne)
    rw [hclient.mphf]
    exact (halike hversion).1

end Versions

namespace RebuiltIndex

open Sample

def cfg : PirConfig := ⟨1, 0⟩

theorem go {s s' : PirThread (tablePir 2)} {e : PirEvent (tablePir 2)}
    (h : tableNext cfg s .go = some (e, s')) : PirStep (tablePir 2) cfg s e s' :=
  tableNext_step h

theorem fail {s s' : PirThread (tablePir 2)} {e : PirEvent (tablePir 2)}
    (h : tableNext cfg s .fail = some (e, s')) :
    PirStep (tablePir 2) cfg s e s' :=
  tableNext_step h

/-- The second process restores the index of the first, over another holder. -/
theorem shown_versions_agree_restored : ∃ es s d d',
    Run (EndpointStep (tablePir 2) cfg) ⟨.down (noFiles 2), []⟩ es s ∧
      d ∈ s.seen ∧ d' ∈ s.seen ∧ d.parsed.delta = [] ∧
      d'.parsed.delta = [second] ∧ d.parsed.Alike d'.parsed ∧
      (Client.new d.parsed).directory.mphf = d'.parsed.mphf := by
  have hrun : ∃ es s d d', Run (fun s e s' =>
      EndpointStep (tablePir 2) cfg s e s' ∧ KeepsNumbering s e)
      ⟨.down (noFiles 2), []⟩ es s ∧ d ∈ s.seen ∧ d' ∈ s.seen ∧
      d.version = d'.version ∧ d.parsed.delta = [] ∧
      d'.parsed.delta = [second] ∧
      (Client.new d.parsed).syncNeed d'.version d'.tailLen = .tail 0 := by
    refine ⟨_, _, _, _,
      .cons ⟨.host (.start (opens_built (a := first) rfl)), ⟨rfl, trivial⟩⟩
      (.cons ⟨.host (.work (go rfl)), ⟨trivial, trivial⟩⟩
      (.cons ⟨.host (.work (go rfl)), ⟨trivial, trivial⟩⟩
      (.cons ⟨.host (.work (go rfl)), ⟨trivial, trivial⟩⟩
      (.cons ⟨.host (.work (go rfl)), ⟨trivial, trivial⟩⟩
      (.cons ⟨.host (.work (go rfl)), ⟨trivial, trivial⟩⟩
      (.cons ⟨.host (.work (go rfl)), ⟨trivial, trivial⟩⟩
      (.cons ⟨.host .stop, ⟨trivial, trivial⟩⟩
      (.cons ⟨.host (.start (@opens_restored 2 _ _ (holders second) rfl)),
        ⟨trivial, trivial⟩⟩
      (.cons ⟨.host (.work (go rfl)), ⟨trivial, trivial⟩⟩
      (.cons ⟨.host (.work (go rfl)), ⟨trivial, trivial⟩⟩
      (.cons ⟨.host (.work (go rfl)), ⟨trivial, trivial⟩⟩ (.nil _)))))))))))),
      List.mem_cons_of_mem _ List.mem_cons_self, List.mem_cons_self, rfl, rfl,
      rfl, ?_⟩
    rfl
  rcases hrun with ⟨es, s, d, d', hrun, hd, hd', hversion, hold, hnew, hneed⟩
  rcases shown_versions_agree tablePir_versioned tablePir_serializes hrun hd hd'
    with ⟨halike, hclient⟩
  have hnot : (Client.new d.parsed).syncNeed d'.version d'.tailLen ≠ .full := by
    rw [hneed]
    exact nofun
  exact ⟨es, s, d, d', hrun.mono And.left, hd, hd', hold, hnew,
    halike hversion, hclient _ (.refl _) hnot⟩

/-- The first process cannot write `.keys`, and exposes its index.  The second
one finds no pair and builds an index of its own, at version 0 again. -/
theorem versions_collide : ∃ es s d d' client,
    Run (EndpointStep (tablePir 2) cfg) ⟨.down (noFiles 2), []⟩ es s ∧
      d ∈ s.seen ∧ d' ∈ s.seen ∧ d.version = d'.version ∧
      d.parsed.mphf = ([first] : Table) ∧ d'.parsed.mphf = ([second] : Table) ∧
      d.parsed.Extends (Client.directory client) ∧
      client.syncNeed d'.version d'.tailLen = .upToDate := by
  refine ⟨_, _, _, _, .new ⟨0, [first], []⟩,
    .cons (.host (.start (opens_built (a := first) rfl)))
    (.cons (.host (.work (go rfl))) (.cons (.host (.work (fail rfl)))
    (.cons (.host (.work (go rfl))) (.cons (.host (.work (go rfl)))
    (.cons (.host (.work (go rfl))) (.cons (.host .stop)
    (.cons (.host (.start (opens_built (a := second) rfl)))
    (.cons (.host (.work (go rfl))) (.cons (.host (.work (go rfl)))
    (.cons (.host (.work (go rfl))) (.cons (.host (.work (go rfl)))
    (.cons (.host (.work (go rfl))) (.cons (.host (.work (go rfl)))
    (.nil _)))))))))))))), List.mem_cons_of_mem _ List.mem_cons_self,
    List.mem_cons_self, rfl, rfl, rfl, .refl _, ?_⟩
  rfl

end RebuiltIndex

end UsdtPir
