import UsdtPir.PirThread

/-!
# What the thread has in hand

What one step can do to the live directory, and what the checkpoint or the blob
that is on its way to disk says about it.
-/

namespace UsdtPir

open Machine

variable {P : EthPir} {cfg : PirConfig} {s s' start : PirThread P}
    {e : PirEvent P} {es : List (PirEvent P)}

/-- The live directory of the server. -/
abbrev PirThread.live (s : PirThread P) : KeywordDirectory P.Mphf :=
  P.keyword s.server

/-- What is on its way to disk is the live directory. -/
def PirThread.InHand (s : PirThread P) : Prop :=
  match s.phase with
  | .savingKeys saved | .savingIndex saved =>
      saved.version = s.live.version ∧
        P.readFrom saved.directory = .ok s.live
  | .persisting blob | .exposing blob => P.readFrom blob = .ok s.live
  | _ => True

theorem PirThread.inHand_keys (h : s.InHand)
    {saved : KeywordCheckpoint P.Blob} (hphase : s.phase = .savingKeys saved) :
    saved.version = s.live.version ∧ P.readFrom saved.directory = .ok s.live := by
  unfold InHand at h
  rw [hphase] at h
  exact h

theorem PirThread.inHand_index (h : s.InHand)
    {saved : KeywordCheckpoint P.Blob} (hphase : s.phase = .savingIndex saved) :
    saved.version = s.live.version ∧ P.readFrom saved.directory = .ok s.live := by
  unfold InHand at h
  rw [hphase] at h
  exact h

theorem PirThread.inHand_persisting (h : s.InHand) {blob : P.Blob}
    (hphase : s.phase = .persisting blob) : P.readFrom blob = .ok s.live := by
  unfold InHand at h
  rw [hphase] at h
  exact h

theorem PirThread.inHand_exposing (h : s.InHand) {blob : P.Blob}
    (hphase : s.phase = .exposing blob) : P.readFrom blob = .ok s.live := by
  unfold InHand at h
  rw [hphase] at h
  exact h

theorem inHand_step (hwrites : P.Serializes) (hstep : PirStep P cfg s e s')
    (h : s.InHand) : s'.InHand := by
  cases hstep with
  | checkpoint hphase hcall =>
      exact ⟨hwrites.checkpoint_version hcall, hwrites.checkpoint_directory hcall⟩
  | saveKeys hphase => exact PirThread.inHand_keys h hphase
  | serialize hphase hcall => exact hwrites.full_directory hcall
  | persist hphase => exact PirThread.inHand_persisting h hphase
  | _ => trivial

theorem Opens.inHand {initial : PirSnapshot} {files : KeywordFiles P}
    {fresh : Bool} (hopen : Opens P initial files fresh start) :
    start.InHand := by
  cases hopen <;> trivial

theorem Opens.published {initial : PirSnapshot} {files : KeywordFiles P}
    {fresh : Bool} (hopen : Opens P initial files fresh start) :
    start.published = [] := by
  cases hopen <;> rfl

/-- A step extends the live directory, unless it is a keyword rebuild, which
makes the next version. -/
theorem live_step (hlaws : P.Versioned) (hstep : PirStep P cfg s e s') :
    s.live.Extends s'.live ∨
      (e = .rebuild true ∧ s'.live.version = s.live.version + 1) := by
  cases hstep with
  | update hphase hcall => exact .inl (hlaws.update_extends hcall)
  | publish hphase hcall => exact .inl (.of_eq (hlaws.publish_keyword hcall))
  | rebuilt hphase htest hcall =>
      exact .inr ⟨rfl, hlaws.rebuild_version hcall⟩
  | rebuildFails hphase htest hcall =>
      exact .inl (.of_eq (hlaws.rebuild_fails hcall))
  | _ => exact .inl (.refl _)

/-- The directory by which the served database is laid out. -/
abbrev PirThread.layout (s : PirThread P) : KeywordDirectory P.Mphf :=
  (P.database s.server).layout

/-- A database was installed. -/
def PirEvent.Rebuilds {P : EthPir} : PirEvent P → Prop
  | .publish (.ok (some ())) | .rebuild true => True
  | _ => False

/-- A database that is installed is laid out by the live directory; otherwise
the database stays, and the live directory is only extended. -/
theorem layout_step (hlaws : P.Versioned) (hinstalls : P.Installs)
    (hstep : PirStep P cfg s e s') :
    (s'.layout = s.layout ∧ s.live.Extends s'.live) ∨
      (e.Rebuilds ∧ s'.layout = s'.live) := by
  cases hstep with
  | update hphase hcall =>
      exact .inl ⟨congrArg Database.layout (hinstalls.update_database hcall),
        hlaws.update_extends hcall⟩
  | @publish answer server hphase hcall =>
      have hkeyword := hlaws.publish_keyword hcall
      rcases answer with fault | done
      · exact .inl ⟨congrArg Database.layout (hinstalls.publish_fails hcall),
          .of_eq hkeyword⟩
      · cases done with
        | none =>
            exact .inl ⟨congrArg Database.layout
              (hinstalls.publish_skips hcall), .of_eq hkeyword⟩
        | some done => exact .inr ⟨trivial, hinstalls.publish_layout hcall⟩
  | rebuilt hphase htest hcall =>
      exact .inr ⟨trivial, hinstalls.rebuild_layout hcall⟩
  | rebuildFails hphase htest hcall =>
      exact .inl ⟨congrArg Database.layout (hinstalls.rebuild_keeps hcall),
        .of_eq (hlaws.rebuild_fails hcall)⟩
  | _ => exact .inl ⟨rfl, .refl _⟩

theorem Opens.layout {initial : PirSnapshot} {files : KeywordFiles P}
    {fresh : Bool} (hinstalls : P.Installs)
    (hopen : Opens P initial files fresh start) :
    start.layout = start.live := by
  cases hopen with
  | restored hload hcall hempty => exact hinstalls.restore_layout hcall
  | built hload hcall hempty => exact hinstalls.init_layout hcall

/-- The served database is never ahead of the live directory. -/
theorem layout_extends_step (hlaws : P.Versioned) (hinstalls : P.Installs)
    (hstep : PirStep P cfg s e s') (h : s.layout.Extends s.live) :
    s'.layout.Extends s'.live := by
  rcases layout_step hlaws hinstalls hstep with ⟨hsame, hextends⟩ | ⟨-, hlive⟩
  · rw [hsame]
    exact h.trans hextends
  · rw [hlive]
    exact .refl _

/-- A blob on its way to the clients, if it can be read, is the live
directory. -/
def PirThread.Carries (s : PirThread P) : Prop :=
  match s.phase with
  | .persisting blob | .exposing blob =>
      ∀ directory, P.readFrom blob = .ok directory → directory = s.live
  | _ => True

theorem PirThread.carries_persisting (h : s.Carries) {blob : P.Blob}
    (hphase : s.phase = .persisting blob) :
    ∀ directory, P.readFrom blob = .ok directory → directory = s.live := by
  unfold Carries at h
  rw [hphase] at h
  exact h

theorem PirThread.carries_exposing (h : s.Carries) {blob : P.Blob}
    (hphase : s.phase = .exposing blob) :
    ∀ directory, P.readFrom blob = .ok directory → directory = s.live := by
  unfold Carries at h
  rw [hphase] at h
  exact h

theorem Opens.carries {initial : PirSnapshot} {files : KeywordFiles P}
    {fresh : Bool} (hopen : Opens P initial files fresh start) :
    start.Carries := by
  cases hopen <;> trivial

theorem carries_step (hfaithful : P.Faithful) (hstep : PirStep P cfg s e s')
    (h : s.Carries) : s'.Carries := by
  cases hstep with
  | serialize hphase hcall =>
      intro directory hparse
      exact hfaithful hcall hparse
  | persist hphase => exact PirThread.carries_persisting h hphase
  | _ => trivial

/-- What is exposed is the live directory. -/
theorem PirThread.Carries.exposed (h : s.Carries) {blob : P.Blob}
    {directory : Directory P} (hphase : s.phase = .exposing blob)
    (hparse : Directory.fromBlob blob = .ok directory) :
    directory.parsed = s.live :=
  PirThread.carries_exposing h hphase _ (Directory.parsed_fromBlob hparse)

/-- The database is not ahead of the live directory, and a blob on its way to
the clients is that directory. -/
structure PirThread.InStep (s : PirThread P) : Prop where
  carries : s.Carries
  layout : s.layout.Extends s.live

theorem Opens.inStep {initial : PirSnapshot} {files : KeywordFiles P}
    {fresh : Bool} (hinstalls : P.Installs)
    (hopen : Opens P initial files fresh start) : start.InStep := by
  constructor
  · exact hopen.carries
  · rw [hopen.layout hinstalls]
    exact .refl _

theorem PirThread.InStep.step (hlaws : P.Versioned) (hinstalls : P.Installs)
    (hfaithful : P.Faithful) (hstep : PirStep P cfg s e s') (h : s.InStep) :
    s'.InStep := by
  constructor
  · exact carries_step hfaithful hstep h.carries
  · exact layout_extends_step hlaws hinstalls hstep h.layout

/-- The numbers and the blob of a directory are those of what it parses to. -/
structure Directory.Genuine (d : Directory P) : Prop where
  version : d.version = d.parsed.version
  tailLen : d.tailLen = d.parsed.delta.length
  full : P.readFrom d.full = .ok d.parsed

theorem Directory.genuine_fromBlob {d : Directory P} {blob : P.Blob}
    (h : Directory.fromBlob blob = .ok d) : d.Genuine := by
  unfold Directory.fromBlob at h
  cases hread : P.readFrom blob with
  | error fault =>
      rw [hread] at h
      cases h
  | ok parsed =>
      rw [hread] at h
      cases h
      exact ⟨rfl, rfl, hread⟩

/-- The directory is not ahead of the live one, and of its generation it is a
part. -/
def KeywordDirectory.Precedes {M : Type}
    (older newer : KeywordDirectory M) : Prop :=
  older.version ≤ newer.version ∧
    (older.version = newer.version → older.Extends newer)

theorem KeywordDirectory.Precedes.refl {M : Type}
    (directory : KeywordDirectory M) : directory.Precedes directory :=
  ⟨Nat.le_refl _, fun _ => .refl directory⟩

theorem KeywordDirectory.Precedes.extend {M : Type}
    {older middle newer : KeywordDirectory M} (h : older.Precedes middle)
    (h' : middle.Extends newer) : older.Precedes newer := by
  constructor
  · rw [h'.version]
    exact h.1
  · intro heq
    rw [h'.version] at heq
    exact (h.2 heq).trans h'

/-- What precedes the live directory still does after a step. -/
theorem KeywordDirectory.Precedes.step {older : KeywordDirectory P.Mphf}
    (h : older.Precedes s.live) (hlaws : P.Versioned)
    (hstep : PirStep P cfg s e s') : older.Precedes s'.live := by
  rcases live_step hlaws hstep with hextends | ⟨-, hversion⟩
  · exact h.extend hextends
  · constructor
    · have hle := h.1
      omega
    · intro heq
      have hle := h.1
      omega

theorem KeywordDirectory.Precedes.trans {M : Type}
    {older middle newer : KeywordDirectory M} (h : older.Precedes middle)
    (h' : middle.Precedes newer) : older.Precedes newer := by
  refine ⟨h.1.trans h'.1, ?_⟩
  intro heq
  have hle := h.1
  have hle' := h'.1
  exact (h.2 (by omega)).trans (h'.2 (by omega))

/-- A tail of a later directory makes up all that is missing of it. -/
theorem EthPir.Tails.joined (htails : P.Tails)
    {older newer joined : KeywordDirectory P.Mphf} {start : ℕ}
    {tail : DeltaEnvelope} (hcut : P.deltaEnvelopeFrom newer start = .ok tail)
    (hjoin : P.applyTail older tail = .ok joined)
    (hprecedes : older.Precedes newer) : joined = newer := by
  have htail := htails.envelope hcut
  obtain ⟨hversion, hstart, hjoined⟩ := htails.apply hjoin
  rw [htail] at hversion hstart hjoined
  have hextends := hprecedes.2 hversion.symm
  obtain ⟨rest, hrest⟩ := hextends.delta
  have hdrop : older.delta ++ newer.delta.drop start = newer.delta := by
    dsimp only at hstart
    rw [hstart, ← hrest, List.drop_left]
  rw [hjoined, hdrop, ← hextends.version, ← hextends.mphf]

end UsdtPir
