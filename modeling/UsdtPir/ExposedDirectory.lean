import UsdtPir.TableRuns
import UsdtPir.ThreadInvariants

/-!
# The directory that is exposed and the database that is served

A cycle publishes, compacts and then exposes the live directory, and each of
the three can fail alone.  The exposed directory is of the generation of the
served database as long as no cycle keeps an older directory, and its tail is
in that database as long as nothing is exposed that was absorbed after the last
rebuild.
-/

namespace UsdtPir

open Machine

/-- The thread waits for updates, absorbs them or has stopped. -/
def Phase.Resting {P : EthPir} : Phase P → Prop
  | .waiting | .absorbing _ | .stopped => True
  | _ => False

/-- `publish_directory` fails. -/
def PirEvent.ExposeFails {P : EthPir} : PirEvent P → Prop
  | .serialize false | .persist false | .expose none => True
  | _ => False

/-- Whether `publish_directory` has succeeded since the last keyword rebuild
that has. -/
def noteShown {P : EthPir} (shown : Bool) (_ : PirThread P) (e : PirEvent P)
    (_ : PirThread P) : Bool :=
  match e with
  | .rebuild true => false
  | .expose (some _) => true
  | _ => shown

/-- `publish_directory` fails only if it has succeeded since the last keyword
rebuild. -/
def FailsAfterShown {P : EthPir} (noted : PirThread P × Bool)
    (e : PirEvent P) : Prop :=
  e.ExposeFails → noted.2 = true

section Generation

variable {P : EthPir} {cfg : PirConfig} {s s' s₀ start : PirThread P}
    {e : PirEvent P} {es before past : List (PirEvent P)}
    {initial : PirSnapshot} {files : KeywordFiles P} {fresh : Bool}

theorem Opens.placeholder (hopen : Opens P initial files fresh start) :
    ∃ directory : Directory P,
      Directory.empty = .ok directory ∧ start.exposed = directory := by
  cases hopen with
  | restored hload hcall hdirectory => exact ⟨_, hdirectory, rfl⟩
  | built hload hcall hdirectory => exact ⟨_, hdirectory, rfl⟩

/-- The note says whether the exposed directory is of the live generation. -/
structure Announced (noted : PirThread P × Bool) : Prop where
  inStep : noted.1.InStep
  behind : noted.1.exposed.version ≤ noted.1.live.version
  shown : noted.1.exposed.version = noted.1.live.version ↔ noted.2 = true

theorem Opens.announced (hinstalls : P.Installs)
    (hempty : P.StartsEmpty) (hopen : Opens P initial files fresh start) :
    Announced (start, decide (start.live.version = 0)) := by
  have hzero : start.exposed.version = 0 := by
    obtain ⟨directory, hdirectory, hexposed⟩ := hopen.placeholder
    obtain ⟨full, hindex, hversion⟩ := Directory.parsed_empty hdirectory
    rw [hexposed, hversion]
    exact hempty.empty_version hindex
  constructor
  · exact hopen.inStep hinstalls
  · dsimp only
    rw [hzero]
    exact Nat.zero_le _
  · dsimp only
    rw [hzero, decide_eq_true_iff, eq_comm]

theorem Announced.step {noted noted' : PirThread P × Bool}
    (hlaws : P.Versioned) (hinstalls : P.Installs) (hfaithful : P.Faithful)
    (hstep : Noting (PirStep P cfg) noteShown noted e noted')
    (h : Announced noted) : Announced noted' := by
  obtain ⟨s, shown⟩ := noted
  obtain ⟨s', shown'⟩ := noted'
  obtain ⟨hmove, rfl⟩ := noting_iff.mp hstep
  have hinStep := h.inStep.step hlaws hinstalls hfaithful hmove
  obtain ⟨hbefore, hbehind, hshown⟩ := h
  cases hmove with
  | @update addr entry rest answer server hphase hcall =>
      have hversion := (hlaws.update_extends hcall).version
      refine ⟨hinStep, ?_, ?_⟩
      · exact hbehind.trans hversion.ge
      · exact Eq.congr_right hversion |>.trans hshown
  | publish hphase hcall =>
      have hversion := congrArg KeywordDirectory.version
        (hlaws.publish_keyword hcall)
      refine ⟨hinStep, ?_, ?_⟩
      · exact hbehind.trans hversion.ge
      · exact Eq.congr_right hversion |>.trans hshown
  | rebuildFails hphase htest hcall =>
      have hversion := congrArg KeywordDirectory.version
        (hlaws.rebuild_fails hcall)
      refine ⟨hinStep, ?_, ?_⟩
      · exact hbehind.trans hversion.ge
      · exact Eq.congr_right hversion |>.trans hshown
  | @rebuilt server hphase htest hcall =>
      have hversion := hlaws.rebuild_version hcall
      have hahead : s.exposed.version < (P.keyword server).version := by
        rw [hversion]
        exact Nat.lt_succ_of_le hbehind
      refine ⟨hinStep, hahead.le, ?_⟩
      exact iff_of_false hahead.ne Bool.false_ne_true
  | expose hphase hparse =>
      have hlive := hbefore.carries.exposed hphase hparse
      have hversion := Directory.version_fromBlob hparse
      rw [hlive] at hversion
      exact ⟨hinStep, hversion.le, iff_of_true hversion rfl⟩
  | _ => exact ⟨hinStep, hbehind, hshown⟩

/-- Since the first cycle the generation is shown whenever the thread rests. -/
structure Aligned (past : List (PirEvent P)) (noted : PirThread P × Bool) :
    Prop where
  announced : Announced noted
  resting : .deadline ∈ past → noted.1.phase.Resting → noted.2 = true

theorem deadline_mem_past (h : .deadline ∈ past ++ [e]) (hne : e ≠ .deadline) :
    .deadline ∈ past := by
  rcases List.mem_append.mp h with hpast | hlast
  · exact hpast
  · exact absurd (List.mem_singleton.mp hlast).symm hne

theorem Aligned.step {noted noted' : PirThread P × Bool}
    (hlaws : P.Versioned) (hinstalls : P.Installs) (hfaithful : P.Faithful)
    (hstep : Noting (PirStep P cfg) noteShown noted e noted')
    (hfails : FailsAfterShown noted e) (h : Aligned past noted) :
    Aligned (past ++ [e]) noted' := by
  constructor
  · exact h.announced.step hlaws hinstalls hfaithful hstep
  · intro hcycle hresting
    obtain ⟨s, shown⟩ := noted
    obtain ⟨s', shown'⟩ := noted'
    obtain ⟨hmove, rfl⟩ := noting_iff.mp hstep
    have hfrom : e ≠ .deadline → s.phase.Resting → shown = true := by
      intro hne
      exact h.resting (deadline_mem_past hcycle hne)
    cases hmove with
    | recv hphase | absorbed hphase | disconnected hphase
    | update hphase hcall =>
        apply hfrom nofun
        rw [hphase]
        trivial
    | serializeFails hphase hcall => exact hfails trivial
    | persistFails hphase => exact hfails trivial
    | exposeFails hphase hparse => exact hfails trivial
    | expose hphase hparse => rfl
    | _ => cases hresting

/-- Whatever happened before: as long as `publish_directory` fails only if it
has succeeded since the last keyword rebuild, the directory that is exposed
after a completed cycle is of the generation by which the served database is
laid out. -/
theorem exposed_generation (hlaws : P.Versioned) (hinstalls : P.Installs)
    (hfaithful : P.Faithful) (hempty : P.StartsEmpty)
    (hopen : Opens P initial files fresh start) {shown₀ shown : Bool}
    (hbefore : Run (Noting (PirStep P cfg) noteShown)
      (start, decide (start.live.version = 0)) before (s₀, shown₀))
    (hrun : Run (fun noted e noted' =>
      Noting (PirStep P cfg) noteShown noted e noted' ∧
        FailsAfterShown noted e) (s₀, shown₀) es (s, shown))
    (hcycle : .deadline ∈ es) (hphase : s.phase = .waiting) :
    s.exposed.version = (P.database s.server).layout.version := by
  have hannounced : Announced (s₀, shown₀) :=
    hbefore.invariant (hopen.announced hinstalls hempty) fun hstep h =>
      h.step hlaws hinstalls hfaithful hstep
  have hstart : Aligned [] (s₀, shown₀) := by
    constructor
    · exact hannounced
    · intro habs
      cases habs
  have haligned : Aligned es (s, shown) :=
    hrun.traced (P := Aligned) hstart fun hstep h =>
      h.step hlaws hinstalls hfaithful hstep.1 hstep.2
  have hshown : shown = true := by
    apply haligned.resting hcycle
    change s.phase.Resting
    rw [hphase]
    trivial
  have hversion : s.exposed.version = s.live.version :=
    haligned.announced.shown.mpr hshown
  rw [hversion]
  exact haligned.announced.inStep.layout.version

end Generation

namespace FullDisk

open Sample

def cfg : PirConfig := ⟨1, 0⟩

def start : PirThread (tablePir 2) :=
  built 2 first (noFiles 2)

def opening : List Choice :=
  [.go, .go, .go, .go, .go, .go]

theorem run_compaction : ∃ before s₀ es s,
    Run (PirStep (tablePir 2) cfg) start before s₀ ∧
      Run (fun s e s' => PirStep (tablePir 2) cfg s e s' ∧ ¬ e.ExposeFails)
        s₀ es s ∧ .deadline ∈ es ∧ s.phase = .waiting ∧ s.live.version = 1 := by
  have hdrive : ∃ before s₀, drive cfg opening start = some (before, s₀) ∧
      ∃ es s, Run (fun s e s' => PirStep (tablePir 2) cfg s e s' ∧
        ¬ e.ExposeFails) s₀ es s ∧ .deadline ∈ es ∧ s.phase = .waiting ∧
        s.live.version = 1 := by
    refine ⟨_, _, rfl, _, _, checked (.receive [(second, entry)]) rfl id
      (checked .go rfl id (checked .go rfl id
      (checked .go rfl id (checked .go rfl id
      (checked .go rfl id (checked .go rfl id
      (checked .go rfl id (checked .go rfl id
      (checked .go rfl id (checked .go rfl id
      (checked .go rfl id (.nil _)))))))))))), ?_, rfl, rfl⟩
    simp
  rcases hdrive with ⟨before, s₀, hdrive, es, s, hrest⟩
  exact ⟨before, s₀, es, s, drive_run hdrive, hrest⟩

theorem exposed_generation_compaction : ∃ before s₀ es s,
    Run (PirStep (tablePir 2) cfg) start before s₀ ∧
      Run (PirStep (tablePir 2) cfg) s₀ es s ∧ s.live.version = 1 ∧
      s.exposed.version = ((tablePir 2).database s.server).layout.version := by
  rcases run_compaction with
    ⟨before, s₀, es, s, hbefore, hrun, hcycle, hphase, hlive⟩
  obtain ⟨shown₀, hnoted⟩ :=
    hbefore.noting noteShown (decide (start.live.version = 0))
  obtain ⟨shown, hrest⟩ := hrun.noting noteShown shown₀
  have hmeets : Run (fun noted e noted' =>
      Noting (PirStep (tablePir 2) cfg) noteShown noted e noted' ∧
        FailsAfterShown noted e) (s₀, shown₀) es (s, shown) :=
    hrest.mono fun hstep =>
      ⟨⟨hstep.1.1, hstep.2⟩, fun hfails => absurd hfails hstep.1.2⟩
  exact ⟨before, s₀, es, s, hbefore, hrun.mono And.left, hlive,
    exposed_generation tablePir_versioned tablePir_installs
      tablePir_serializes.faithful tablePir_startsEmpty (opens_built rfl)
      hnoted hmeets hcycle hphase⟩

/-- The compaction installs a database of the next generation, and neither file
can be written: clients keep the directory of the generation before. -/
theorem exposed_generation_stale : ∃ es s,
    Opens (tablePir 2) (holders first) (noFiles 2) true start ∧
      Run (PirStep (tablePir 2) cfg) start es s ∧ .deadline ∈ es ∧
      s.phase = .waiting ∧
      s.exposed.version ≠ ((tablePir 2).database s.server).layout.version := by
  have hdrive : ∃ es s, drive cfg (opening ++
      [.receive [(second, entry)], .go, .go, .go, .go, .go, .go, .fail, .go,
        .fail]) start = some (es, s) ∧ .deadline ∈ es ∧ s.phase = .waiting ∧
      s.exposed.version = 0 ∧
      ((tablePir 2).database s.server).layout.version = 1 := by
    refine ⟨_, _, rfl, ?_, rfl, rfl, rfl⟩
    simp
  rcases hdrive with ⟨es, s, hdrive, hcycle, hphase, hexposed, hlayout⟩
  refine ⟨es, s, opens_built rfl, drive_run hdrive, hcycle, hphase, ?_⟩
  rw [hexposed, hlayout]
  decide

end FullDisk

section Tail

variable {P : EthPir} {cfg : PirConfig} {s s' s₁ s₂ start : PirThread P}
    {e : PirEvent P} {es before after past : List (PirEvent P)}
    {initial : PirSnapshot} {files : KeywordFiles P} {fresh : Bool}

/-- What became of the addresses that are new to the directory: the library has
rebuilt, some were absorbed since, or `try_rebuild_database` has failed on
them. -/
inductive Backlog
  | clear
  | absorbed
  | failed
  deriving DecidableEq

/-- A publish that skips has nothing pending. -/
def Backlog.note (backlog : Backlog) (s : PirThread P) (e : PirEvent P)
    (s' : PirThread P) : Backlog :=
  match e with
  | .update _ _ _ =>
      if s.live.delta.length < s'.live.delta.length then .absorbed else backlog
  | .publish (.ok _) | .rebuild true => .clear
  | .publish (.error _) => if backlog = .clear then .clear else .failed
  | _ => backlog

/-- `publish_directory` does not succeed while an address is left on which
`try_rebuild_database` has failed. -/
def HoldsBack (noted : PirThread P × Backlog) : PirEvent P → Prop
  | .expose (some _) => noted.2 ≠ .failed
  | _ => True

/-- The thread is not past `publish`. -/
def Phase.Absorbs : Phase P → Prop
  | .waiting | .absorbing _ | .publishing | .stopped => True
  | _ => False

/-- The database is laid out by the live directory, or lacks addresses that are
on their way to the next publish or that one has failed on. -/
structure Booked (noted : PirThread P × Backlog) : Prop where
  inStep : noted.1.InStep
  clear : noted.2 = .clear → noted.1.layout = noted.1.live
  short : noted.2 ≠ .clear →
    noted.1.layout.delta.length < noted.1.live.delta.length
  absorbed : noted.2 = .absorbed → noted.1.phase.Absorbs

theorem Opens.booked (hinstalls : P.Installs)
    (hopen : Opens P initial files fresh start) :
    Booked (start, Backlog.clear) := by
  constructor
  · exact hopen.inStep hinstalls
  · intro _
    exact hopen.layout hinstalls
  · intro hnot
    exact absurd rfl hnot
  · intro habs
    cases habs

/-- A directory that is not longer than one it extends is the same. -/
theorem KeywordDirectory.Extends.eq_of_length {M : Type}
    {older newer : KeywordDirectory M} (h : older.Extends newer)
    (hlength : newer.delta.length ≤ older.delta.length) : newer = older := by
  have hdelta := h.delta.eq_of_length_le hlength
  obtain ⟨version, mphf, delta⟩ := older
  obtain ⟨version', mphf', delta'⟩ := newer
  obtain ⟨rfl, rfl, -⟩ := h
  cases hdelta
  rfl

/-- A database that is laid out by the live directory lacks nothing. -/
theorem Booked.of_installed {backlog : Backlog} (hinStep : s.InStep)
    (hlayout : s.layout = s.live) (hclear : backlog = .clear) :
    Booked (s, backlog) := by
  subst hclear
  constructor
  · exact hinStep
  · intro _
    exact hlayout
  · intro hnot
    exact absurd rfl hnot
  · intro habs
    cases habs

theorem Booked.step {noted noted' : PirThread P × Backlog}
    (hlaws : P.Versioned) (hinstalls : P.Installs) (hfaithful : P.Faithful)
    (hstep : Noting (PirStep P cfg) Backlog.note noted e noted')
    (h : Booked noted) : Booked noted' := by
  obtain ⟨s, backlog⟩ := noted
  obtain ⟨s', backlog'⟩ := noted'
  obtain ⟨hmove, rfl⟩ := noting_iff.mp hstep
  have hinStep := h.inStep.step hlaws hinstalls hfaithful hmove
  obtain ⟨hbefore, hclear, hshort, habsorbed⟩ := h
  cases hmove with
  | @update addr entry rest answer server hphase hcall =>
      have hextends := hlaws.update_extends hcall
      have hlayout : (P.database server).layout = s.layout :=
        congrArg Database.layout (hinstalls.update_database hcall)
      have hnote : Backlog.note backlog s (.update addr entry answer.isOk)
          { s with
            phase := .absorbing rest
            server
            worker := s.worker.absorbOne addr entry answer } =
          if s.live.delta.length < (P.keyword server).delta.length then
            .absorbed
          else backlog := rfl
      rw [hnote]
      by_cases hgrows :
          s.live.delta.length < (P.keyword server).delta.length
      · rw [if_pos hgrows]
        refine ⟨hinStep, nofun, ?_, fun _ => trivial⟩
        intro _
        change (P.database server).layout.delta.length < _
        rw [hlayout]
        exact hbefore.layout.delta.length_le.trans_lt hgrows
      · rw [if_neg hgrows]
        have hsame : P.keyword server = s.live :=
          hextends.eq_of_length (Nat.le_of_not_lt hgrows)
        refine ⟨hinStep, ?_, ?_, fun _ => trivial⟩
        · intro hnone
          change (P.database server).layout = P.keyword server
          rw [hlayout, hsame]
          exact hclear hnone
        · intro hsome
          change (P.database server).layout.delta.length <
            (P.keyword server).delta.length
          rw [hlayout, hsame]
          exact hshort hsome
  | @publish answer server hphase hcall =>
      have hkeyword := hlaws.publish_keyword hcall
      cases answer with
      | ok done =>
          exact .of_installed hinStep (hinstalls.publish_layout hcall) rfl
      | error fault =>
          have hlayout : (P.database server).layout = s.layout :=
            congrArg Database.layout (hinstalls.publish_fails hcall)
          by_cases hnone : backlog = .clear
          · apply Booked.of_installed hinStep
            · change (P.database server).layout = P.keyword server
              rw [hlayout, hkeyword]
              exact hclear hnone
            · exact if_pos hnone
          · have hfailed : Backlog.note backlog s (.publish (.error fault))
                { s with
                  phase := .compacting
                  server
                  worker := s.worker.recordPublish (.error fault) } =
                .failed := if_neg hnone
            rw [hfailed]
            refine ⟨hinStep, nofun, ?_, nofun⟩
            intro _
            change (P.database server).layout.delta.length <
              (P.keyword server).delta.length
            rw [hlayout, hkeyword]
            exact hshort hnone
  | rebuilt hphase htest hcall =>
      exact .of_installed hinStep (hinstalls.rebuild_layout hcall) rfl
  | @rebuildFails fault server hphase htest hcall =>
      have hlayout : (P.database server).layout = s.layout :=
        congrArg Database.layout (hinstalls.rebuild_keeps hcall)
      have hkeyword := hlaws.rebuild_fails hcall
      refine ⟨hinStep, ?_, ?_, ?_⟩
      · intro hnone
        change (P.database server).layout = P.keyword server
        rw [hlayout, hkeyword]
        exact hclear hnone
      · intro hsome
        change (P.database server).layout.delta.length <
          (P.keyword server).delta.length
        rw [hlayout, hkeyword]
        exact hshort hsome
      · intro hfresh
        have hphase' := habsorbed hfresh
        dsimp only at hphase'
        rw [hphase] at hphase'
        cases hphase'
  | recv hphase | deadline hphase | disconnected hphase | absorbed hphase
  | serializeFails hphase | persistFails hphase | expose hphase hparse
  | exposeFails hphase hparse =>
      exact ⟨hinStep, hclear, hshort, fun _ => trivial⟩
  | keepIndex hphase | checkpoint hphase | checkpointFails hphase
  | saveKeys hphase | saveKeysFails hphase | saveIndex hphase
  | saveIndexFails hphase | serialize hphase | persist hphase =>
      refine ⟨hinStep, hclear, hshort, ?_⟩
      intro hfresh
      have hphase' := habsorbed hfresh
      dsimp only at hphase'
      rw [hphase] at hphase'
      cases hphase'

/-- `publish_directory` exposes the live directory only when the served
database is laid out by it. -/
def ExposesRebuilt (s : PirThread P) : PirEvent P → Prop
  | .expose (some _) => s.layout = s.live
  | _ => True

/-- Nothing is absorbed between a publish and the exposure after it. -/
theorem Booked.exposes {noted : PirThread P × Backlog} {s' : PirThread P}
    (hstep : PirStep P cfg noted.1 e s') (hholds : HoldsBack noted e)
    (h : Booked noted) : ExposesRebuilt noted.1 e := by
  cases hstep with
  | expose hphase hparse =>
      apply h.clear
      cases hbacklog : noted.2 with
      | clear => rfl
      | absorbed =>
          have hphase' := h.absorbed hbacklog
          rw [hphase] at hphase'
          cases hphase'
      | failed => exact absurd hbacklog hholds
  | _ => trivial

theorem Booked.run {noted noted' : PirThread P × Backlog}
    (hlaws : P.Versioned) (hinstalls : P.Installs) (hfaithful : P.Faithful)
    (hrun : Run (fun noted e noted' =>
      Noting (PirStep P cfg) Backlog.note noted e noted' ∧ HoldsBack noted e)
      noted es noted') (h : Booked noted) :
    Booked noted' ∧ Run (fun s e s' => PirStep P cfg s e s' ∧
      ExposesRebuilt s e) noted.1 es noted'.1 := by
  have hkeeps : ∀ {noted e noted'},
      Noting (PirStep P cfg) Backlog.note noted e noted' ∧
        HoldsBack noted e → Booked noted → Booked noted' :=
    fun hstep h => h.step hlaws hinstalls hfaithful hstep.1
  constructor
  · exact hrun.invariant h hkeeps
  · exact (hrun.within h hkeeps).map fun hstep =>
      ⟨hstep.1.1.1, hstep.2.exposes hstep.1.1.1 hstep.1.2⟩

/-- With an address left over, the exposed tail is longer than the laid-out
one. -/
theorem Booked.exposes_more {noted : PirThread P × Backlog} {s' : PirThread P}
    {directory : Directory P}
    (hstep : PirStep P cfg noted.1 (.expose (some directory)) s')
    (hfailed : noted.2 = .failed) (h : Booked noted) :
    s'.layout.delta.length < s'.exposed.parsed.delta.length := by
  have hshort := h.short (by rw [hfailed]; nofun)
  cases hstep with
  | expose hphase hparse =>
      have hlive := h.inStep.carries.exposed hphase hparse
      change noted.1.layout.delta.length < directory.parsed.delta.length
      rw [hlive]
      exact hshort

/-- What is exposed has no tail, or the served database is not behind it. -/
structure PirThread.Rebuilt (s : PirThread P) : Prop where
  inStep : s.InStep
  version : s.exposed.version = s.exposed.parsed.version
  exposed : s.exposed.parsed.delta = [] ∨ s.exposed.parsed.Precedes s.layout

theorem Opens.rebuilt (hinstalls : P.Installs) (hempty : P.StartsEmpty)
    (hopen : Opens P initial files fresh start) : start.Rebuilt := by
  have hinStep := hopen.inStep hinstalls
  rcases hopen.placeholder with ⟨directory, hdirectory, hexposed⟩
  rcases Directory.parsed_empty hdirectory with ⟨full, hindex, hversion⟩
  constructor
  · exact hinStep
  · rw [hexposed]
    exact hversion
  · rw [hexposed]
    exact .inl (hempty.empty_tail hindex)

/-- What the database is not behind of, it is not behind of after a step. -/
theorem precedes_layout_step {older : KeywordDirectory P.Mphf}
    (hlaws : P.Versioned) (hinstalls : P.Installs)
    (hstep : PirStep P cfg s e s') (hinStep : s.InStep)
    (h : older.Precedes s.layout) : older.Precedes s'.layout := by
  rcases layout_step hlaws hinstalls hstep with ⟨hsame, -⟩ | ⟨-, hlive⟩
  · rw [hsame]
    exact h
  · rw [hlive]
    exact (h.extend hinStep.layout).step hlaws hstep

theorem PirThread.Rebuilt.step (hlaws : P.Versioned) (hinstalls : P.Installs)
    (hfaithful : P.Faithful) (hstep : PirStep P cfg s e s')
    (hexposes : ExposesRebuilt s e) (h : s.Rebuilt) : s'.Rebuilt := by
  have hagain := hstep
  have hinStep := h.inStep.step hlaws hinstalls hfaithful hstep
  cases hstep with
  | expose hphase hparse =>
      have hlive := h.inStep.carries.exposed hphase hparse
      have hlayout : s.layout = s.live := hexposes
      constructor
      · exact hinStep
      · exact Directory.version_fromBlob hparse
      · right
        change KeywordDirectory.Precedes _ s.layout
        rw [hlive, hlayout]
        exact .refl _
  | _ =>
      constructor
      · exact hinStep
      · exact h.version
      · rcases h.exposed with hnone | hbehind
        · exact .inl hnone
        · exact .inr
            (precedes_layout_step hlaws hinstalls hagain h.inStep hbehind)

theorem PirThread.Rebuilt.version_le (h : s.Rebuilt) {i : ℕ}
    (htail : i < s.exposed.parsed.delta.length) :
    s.exposed.version ≤ s.layout.version := by
  rw [h.version]
  rcases h.exposed with hnone | hbehind
  · rw [hnone] at htail
    cases htail
  · exact hbehind.1

theorem PirThread.Rebuilt.tail_prefix (h : s.Rebuilt)
    (hversion : s.exposed.version = s.layout.version) :
    s.exposed.parsed.delta <+: s.layout.delta := by
  rw [h.version] at hversion
  rcases h.exposed with hnone | hbehind
  · rw [hnone]
    exact List.nil_prefix
  · exact (hbehind.2 hversion).delta

/-- After `appended` became live and its address in the `i`th place of the tail
was new: the database stays until it is rebuilt, and what is exposed of this
generation has the address in its place. -/
structure FollowsAppend (appended : PirThread P) (i : ℕ) (a : Address)
    (past : List (PirEvent P)) (s : PirThread P) : Prop where
  rebuilt : s.Rebuilt
  older : appended.live.Precedes s.live
  database : (∃ e ∈ past, e.Rebuilds) ∨ s.layout = appended.layout
  exposed : s.exposed.version = appended.live.version →
    i < s.exposed.parsed.delta.length → s.exposed.parsed.delta[i]? = some a

/-- An address keeps its place in a tail that grows. -/
theorem place_of_prefix {older newer : List Address} (h : older <+: newer)
    {i : ℕ} {a : Address} (hplace : older[i]? = some a) :
    newer[i]? = some a := by
  rcases List.getElem?_eq_some_iff.mp hplace with ⟨hlt, hget⟩
  have hnewer := List.prefix_iff_getElem?.mp h i hlt
  rw [hnewer, hget]

theorem FollowsAppend.step {appended : PirThread P} {i : ℕ} {a : Address}
    (hlaws : P.Versioned) (hinstalls : P.Installs) (hfaithful : P.Faithful)
    (hplace : appended.live.delta[i]? = some a)
    (hstep : PirStep P cfg s e s') (hexposes : ExposesRebuilt s e)
    (h : FollowsAppend appended i a past s) :
    FollowsAppend appended i a (past ++ [e]) s' := by
  constructor
  · exact h.rebuilt.step hlaws hinstalls hfaithful hstep hexposes
  · exact h.older.step hlaws hstep
  · rcases h.database with ⟨e', hmem, hrebuilds⟩ | hsame
    · exact .inl ⟨e', List.mem_append_left _ hmem, hrebuilds⟩
    · rcases layout_step hlaws hinstalls hstep with
        ⟨hkept, -⟩ | ⟨hrebuilds, -⟩
      · exact .inr (hkept.trans hsame)
      · exact .inl ⟨e, List.mem_append_right _ List.mem_cons_self, hrebuilds⟩
  · cases hstep with
    | expose hphase hparse =>
        intro hversion _
        have hlive := h.rebuilt.inStep.carries.exposed hphase hparse
        have hparsed := Directory.version_fromBlob hparse
        rw [hparsed, hlive] at hversion
        have hextends := h.older.2 hversion.symm
        have hsame := place_of_prefix hextends.delta hplace
        rw [← hlive] at hsame
        exact hsame
    | _ => exact h.exposed

/-- An update leaves the database and what is exposed as they were, so what it
appends is in neither of them. -/
theorem FollowsAppend.of_update {addr a : Address} {entry : Entry}
    {accepted : Bool} {i : ℕ} (hlaws : P.Versioned) (hinstalls : P.Installs)
    (hfaithful : P.Faithful)
    (hupdate : PirStep P cfg s₁ (.update addr entry accepted) s₂)
    (hnew : s₁.live.delta.length ≤ i) (h : s₁.Rebuilt) :
    FollowsAppend s₂ i a [] s₂ ∧ s₂.layout.version = s₂.live.version ∧
      s₂.layout.delta.length ≤ i := by
  have hrebuilt := h.step hlaws hinstalls hfaithful hupdate trivial
  have hextends := h.inStep.layout
  have hshort := hextends.delta.length_le.trans hnew
  have hsame : s₂.layout = s₁.layout ∧ s₂.live.version = s₁.live.version ∧
      s₂.exposed = s₁.exposed := by
    cases hupdate with
    | update hphase hcall =>
        have hversion := (hlaws.update_extends hcall).version
        have hlayout := congrArg Database.layout
          (hinstalls.update_database hcall)
        exact ⟨hlayout, hversion, rfl⟩
  rcases hsame with ⟨hlayout, hversion, hexposed⟩
  constructor
  · constructor
    · exact hrebuilt
    · exact .refl _
    · exact .inr rfl
    · intro hgeneration htail
      rw [hversion, ← hextends.version.symm, hexposed] at hgeneration
      have hprefix := h.tail_prefix hgeneration
      have hle := hprefix.length_le
      rw [hexposed] at htail
      omega
  · rw [hlayout, hversion]
    exact ⟨hextends.version.symm, hshort⟩

/-- As long as `publish_directory` does not succeed while an address is left on
which `try_rebuild_database` has failed: an address that an update has
appended, if it is in the tail that is exposed, was appended before a rebuild
of the database.  Where it does succeed then, an address is exposed of which the
database has nothing. -/
theorem exposed_tail_rebuilt (hlaws : P.Versioned) (hinstalls : P.Installs)
    (hfaithful : P.Faithful) (hempty : P.StartsEmpty)
    (hopen : Opens P initial files fresh start) {addr a : Address}
    {entry : Entry} {accepted : Bool} {i : ℕ} {backlog₁ backlog₂ backlog : Backlog}
    (hbefore : Run (fun noted e noted' =>
      Noting (PirStep P cfg) Backlog.note noted e noted' ∧ HoldsBack noted e)
      (start, .clear) before (s₁, backlog₁))
    (hupdate : Noting (PirStep P cfg) Backlog.note (s₁, backlog₁)
      (.update addr entry accepted) (s₂, backlog₂))
    (hafter : Run (fun noted e noted' =>
      Noting (PirStep P cfg) Backlog.note noted e noted' ∧ HoldsBack noted e)
      (s₂, backlog₂) after (s, backlog))
    (hnew : s₁.live.delta.length ≤ i) (hplace : s₂.live.delta[i]? = some a)
    (hversion : s.exposed.version = s₂.live.version)
    (htail : i < s.exposed.parsed.delta.length) :
    (∃ e ∈ after, e.Rebuilds) ∧ s.exposed.parsed.delta[i]? = some a ∧
      s.exposed.version ≤ (P.database s.server).layout.version ∧
      (s.exposed.version = (P.database s.server).layout.version →
        (P.database s.server).layout.delta[i]? = some a) ∧
      (backlog = .failed → ∀ directory s',
        PirStep P cfg s (.expose (some directory)) s' →
        (P.database s'.server).layout.delta.length <
          s'.exposed.parsed.delta.length) := by
  have hbooked : Booked (start, Backlog.clear) := hopen.booked hinstalls
  obtain ⟨hbooked₁, hexposes⟩ := hbooked.run hlaws hinstalls hfaithful hbefore
  have hbooked₂ := hbooked₁.step hlaws hinstalls hfaithful hupdate
  obtain ⟨hlast, hexposes'⟩ := hbooked₂.run hlaws hinstalls hfaithful hafter
  have hrebuilt : s₁.Rebuilt :=
    hexposes.invariant (hopen.rebuilt hinstalls hempty) fun hstep h =>
      h.step hlaws hinstalls hfaithful hstep.1 hstep.2
  have hmove : PirStep P cfg s₁ (.update addr entry accepted) s₂ := hupdate.1
  rcases FollowsAppend.of_update (a := a) hlaws hinstalls hfaithful hmove
    hnew hrebuilt with ⟨hstart, hlayout, hshort⟩
  have hfollows : FollowsAppend s₂ i a after s :=
    hexposes'.traced (P := FollowsAppend s₂ i a) hstart fun hstep h =>
      h.step hlaws hinstalls hfaithful hplace hstep.1 hstep.2
  have hexposed := hfollows.exposed hversion htail
  constructor
  · rcases hfollows.database with hrebuilds | hsame
    · exact hrebuilds
    · exfalso
      have hgeneration : s.exposed.version = s.layout.version := by
        rw [hversion, hsame]
        exact hlayout.symm
      have hle := (hfollows.rebuilt.tail_prefix hgeneration).length_le
      rw [hsame] at hle
      omega
  · constructor
    · exact hexposed
    · refine ⟨hfollows.rebuilt.version_le htail, ?_, ?_⟩
      · intro hgeneration
        exact place_of_prefix (hfollows.rebuilt.tail_prefix hgeneration)
          hexposed
      · intro hfailed directory s' hstep
        exact hlast.exposes_more hstep hfailed

end Tail

namespace FailedPublish

open Sample

def cfg : PirConfig := ⟨10, 0⟩

def start : PirThread (tablePir 2) :=
  built 2 first (noFiles 2)

/-- No publish fails. -/
def publishes : PirEvent (tablePir 2) → Prop
  | .publish (.error _) => False
  | _ => True

/-- Where no publish fails, no address is left that one has failed on. -/
theorem holdsBack_run {s s' : PirThread (tablePir 2)}
    {es : List (PirEvent (tablePir 2))} {backlog : Backlog}
    (hrun : Run (fun s e s' => PirStep (tablePir 2) cfg s e s' ∧ publishes e)
      s es s') (hbacklog : backlog ≠ .failed) :
    ∃ backlog', backlog' ≠ .failed ∧ Run (fun noted e noted' =>
      Noting (PirStep (tablePir 2) cfg) Backlog.note noted e noted' ∧
        HoldsBack noted e) (s, backlog) es (s', backlog') := by
  induction hrun generalizing backlog with
  | nil s => exact ⟨backlog, hbacklog, .nil _⟩
  | @cons s s₁ s' e es hstep hrest ih =>
      have hnext : backlog.note s e s₁ ≠ .failed := by
        unfold Backlog.note
        split
        · split
          · nofun
          · exact hbacklog
        · nofun
        · nofun
        · exact absurd hstep.2 id
        · exact hbacklog
      have hholds : HoldsBack (s, backlog) e := by
        unfold HoldsBack
        split
        · exact hbacklog
        · trivial
      obtain ⟨backlog', hlast, hnoted⟩ := ih hnext
      exact ⟨backlog', hlast, .cons ⟨⟨hstep.1, rfl⟩, hholds⟩ hnoted⟩

/-- The database is rebuilt before the address is exposed. -/
theorem exposed_tail_rebuilt_published : ∃ before s₁ s₂ after s,
    Run (PirStep (tablePir 2) cfg) start before s₁ ∧
      PirStep (tablePir 2) cfg s₁ (.update second entry true) s₂ ∧
      Run (PirStep (tablePir 2) cfg) s₂ after s ∧
      (∃ e ∈ after, e.Rebuilds) ∧
      s.exposed.parsed.delta[0]? = some second := by
  have hgo : ∀ {s s' : PirThread (tablePir 2)} {e : PirEvent (tablePir 2)},
      tableNext cfg s .go = some (e, s') → PirStep (tablePir 2) cfg s e s' :=
    tableNext_step
  have hrun : ∃ before s₁, Run (fun s e s' => PirStep (tablePir 2) cfg s e s' ∧
      publishes e) start before s₁ ∧ s₁.live.delta.length ≤ 0 ∧
      ∃ s₂, PirStep (tablePir 2) cfg s₁ (.update second entry true) s₂ ∧
      s₂.live.delta[0]? = some second ∧
      ∃ after s, Run (fun s e s' => PirStep (tablePir 2) cfg s e s' ∧
        publishes e) s₂ after s ∧ s.exposed.version = s₂.live.version ∧
        0 < s.exposed.parsed.delta.length := by
    refine ⟨_, _, checked .go rfl trivial (checked .go rfl trivial
      (checked .go rfl trivial (checked .go rfl trivial
      (checked .go rfl trivial (checked .go rfl trivial
      (checked (.receive [(second, entry)]) rfl trivial (.nil _))))))),
      Nat.le_refl _, _, hgo rfl, rfl, _, _,
      checked .go rfl trivial (checked .go rfl trivial
      (checked .go rfl trivial (checked .go rfl trivial
      (checked .go rfl trivial (checked .go rfl trivial
      (checked .go rfl trivial (.nil _))))))), rfl, Nat.one_pos⟩
  rcases hrun with ⟨before, s₁, hbefore, hnew, s₂, hupdate, hplace, after, s,
    hafter, hversion, htail⟩
  have hclear : Backlog.clear ≠ .failed := by
    intro h
    cases h
  obtain ⟨backlog₁, hclear₁, hnoted₁⟩ := holdsBack_run hbefore hclear
  have hclear₂ : backlog₁.note s₁ (.update second entry true) s₂ ≠ .failed := by
    unfold Backlog.note
    dsimp only
    split
    · nofun
    · exact hclear₁
  obtain ⟨backlog, -, hnoted⟩ := holdsBack_run hafter hclear₂
  rcases exposed_tail_rebuilt tablePir_versioned tablePir_installs
    tablePir_serializes.faithful tablePir_startsEmpty (opens_built rfl) hnoted₁
    ⟨hupdate, rfl⟩ hnoted hnew hplace hversion htail with
    ⟨hrebuilds, hexposed, -⟩
  exact ⟨before, s₁, s₂, after, s, hbefore.mono And.left, hupdate,
    hafter.mono And.left, hrebuilds, hexposed⟩

/-- The address was absorbed, the publish failed, and the directory was exposed
all the same. -/
theorem exposed_before_rebuild : ∃ before s₁ s₂ after s,
    Opens (tablePir 2) (holders first) (noFiles 2) true start ∧
      Run (PirStep (tablePir 2) cfg) start before s₁ ∧
      PirStep (tablePir 2) cfg s₁ (.update second entry true) s₂ ∧
      Run (PirStep (tablePir 2) cfg) s₂ after s ∧
      s₁.live.delta.length ≤ 0 ∧ s₂.live.delta[0]? = some second ∧
      s.exposed.version = s₂.live.version ∧
      0 < s.exposed.parsed.delta.length ∧ (¬ ∃ e ∈ after, e.Rebuilds) ∧
      ((tablePir 2).database s.server).layout.delta = [] := by
  have hdrive : ∃ before s₁, drive cfg [.go, .go, .go, .go, .go, .go,
      .receive [(second, entry)]] start = some (before, s₁) ∧
      ∃ s₂, tableNext cfg s₁ .go = some (.update second entry true, s₂) ∧
      ∃ after s, drive cfg [.go, .go, .fail, .go, .go, .go, .go] s₂ =
        some (after, s) ∧ s₁.live.delta.length ≤ 0 ∧
      s₂.live.delta[0]? = some second ∧
      s.exposed.version = s₂.live.version ∧
      0 < s.exposed.parsed.delta.length ∧ (¬ ∃ e ∈ after, e.Rebuilds) ∧
      ((tablePir 2).database s.server).layout.delta = [] := by
    refine ⟨_, _, rfl, _, rfl, _, _, rfl, Nat.le_refl _, rfl, rfl,
      Nat.one_pos, ?_, rfl⟩
    simp [PirEvent.Rebuilds]
  rcases hdrive with ⟨before, s₁, hbefore, s₂, hupdate, after, s, hafter, hrest⟩
  exact ⟨before, s₁, s₂, after, s, opens_built rfl, drive_run hbefore,
    tableNext_step hupdate, drive_run hafter, hrest⟩

end FailedPublish

end UsdtPir
