import UsdtPir.TableRuns
import UsdtPir.ThreadInvariants

/-!
# The pair that is loaded

The keyword files outlive the process, and a fresh index starts again at version
0.  Over any number of process lives the pair that is loaded was made from one
MPHF, as long as no file that an earlier index has left carries the version that
is written to the other half.
-/

namespace UsdtPir

open Machine

/-- The files of which nothing was written since the index was built afresh. -/
structure Leftover where
  index : Bool
  keys : Bool

def Leftover.after {P : EthPir} (left : Leftover) : PirEvent P → Leftover
  | .saveKeys true => { left with keys := false }
  | .saveIndex true | .persist true => { left with index := false }
  | _ => left

/-- A machine on which processes are started and stopped. -/
inductive Host (P : EthPir)
  | down (files : KeywordFiles P)
  | up (thread : PirThread P) (left : Leftover)

def Host.files {P : EthPir} : Host P → KeywordFiles P
  | .down files => files
  | .up thread _ => thread.files

inductive HostEvent (P : EthPir)
  | start (fresh : Bool)
  | work (e : PirEvent P)
  | stop

/-- A process stops between any two steps; its files stay. -/
inductive HostStep (P : EthPir) (cfg : PirConfig) :
    Host P → HostEvent P → Host P → Prop
  | start {files : KeywordFiles P} {initial : PirSnapshot} {fresh : Bool}
      {thread : PirThread P} (hopen : Opens P initial files fresh thread) :
      HostStep P cfg (.down files) (.start fresh) (.up thread ⟨fresh, fresh⟩)
  | work {thread thread' : PirThread P} {left : Leftover} {e : PirEvent P}
      (hstep : PirStep P cfg thread e thread') :
      HostStep P cfg (.up thread left) (.work e) (.up thread' (left.after e))
  | stop {thread : PirThread P} {left : Leftover} :
      HostStep P cfg (.up thread left) .stop (.down thread.files)

/-- The file that an earlier index has left in the other half does not carry
the version that is written. -/
def NoStaleHalf {P : EthPir} : Host P → HostEvent P → Prop
  | .up thread left, .work (.saveKeys true) =>
      left.index = true → ∀ blob parsed, thread.files.index = some blob →
        P.readFrom blob = .ok parsed → parsed.version ≠ thread.live.version
  | .up thread left, .work (.saveIndex true)
  | .up thread left, .work (.persist true) =>
      left.keys = true → ∀ keys, thread.files.keys = some keys →
        keys.version ≠ thread.live.version
  | _, _ => True

/-- Halves of one version were made from one MPHF. -/
def Matches {P : EthPir} (files : KeywordFiles P) : Prop :=
  ∀ blob parsed keys, files.index = some blob → P.readFrom blob = .ok parsed →
    files.keys = some keys → keys.version = parsed.version →
    keys.madeOf = parsed.mphf

section Lives

variable {P : EthPir} {cfg : PirConfig} {thread thread' : PirThread P}
    {left : Leftover} {e : PirEvent P} {files : KeywordFiles P}
    {host host' : Host P}

/-- What the server has written itself is of its generation, or older. -/
structure Lineage (thread : PirThread P) (left : Leftover) : Prop where
  inHand : thread.InHand
  matching : Matches thread.files
  index : left.index = false → ∀ blob parsed, thread.files.index = some blob →
    P.readFrom blob = .ok parsed → parsed.version ≤ thread.live.version ∧
      (parsed.version = thread.live.version → parsed.mphf = thread.live.mphf)
  keys : left.keys = false → ∀ keys, thread.files.keys = some keys →
    keys.version ≤ thread.live.version ∧
      (keys.version = thread.live.version → keys.madeOf = thread.live.mphf)

theorem Lineage.of_opens {initial : PirSnapshot} {fresh : Bool}
    (hlaws : P.Versioned) (hopen : Opens P initial files fresh thread)
    (hmatch : Matches files) : Lineage thread ⟨fresh, fresh⟩ := by
  have hinHand := hopen.inHand
  cases hopen with
  | @restored saved server placeholder hload hcall hempty =>
      rcases KeywordStore.of_load hload with
        ⟨keys, parsed, hindex, hkeys, hparse, hversion, -, -⟩
      have hextends := hlaws.restore_extends hcall hparse
      have hmade : keys.madeOf = parsed.mphf :=
        hmatch _ parsed keys hindex hparse hkeys hversion
      constructor
      · exact hinHand
      · exact hmatch
      · intro _ blob' parsed' hindex' hparse'
        change files.index = some blob' at hindex'
        rw [hindex, Option.some.injEq] at hindex'
        rw [← hindex', hparse, Except.ok.injEq] at hparse'
        rw [← hparse']
        constructor
        · exact hextends.version.ge
        · intro _
          exact hextends.mphf.symm
      · intro _ keys' hkeys'
        change files.keys = some keys' at hkeys'
        rw [hkeys, Option.some.injEq] at hkeys'
        rw [← hkeys', hversion, hmade]
        constructor
        · exact hextends.version.ge
        · intro _
          exact hextends.mphf.symm
  | built hload hcall hempty =>
      constructor
      · exact hinHand
      · exact hmatch
      · intro habs
        cases habs
      · intro habs
        cases habs

/-- A generation that is older than the live one, or its own, stays so. -/
theorem lineage_step {version : ℕ} {mphf : P.Mphf} (hlaws : P.Versioned)
    (hstep : PirStep P cfg thread e thread')
    (h : version ≤ thread.live.version ∧
      (version = thread.live.version → mphf = thread.live.mphf)) :
    version ≤ thread'.live.version ∧
      (version = thread'.live.version → mphf = thread'.live.mphf) := by
  have hle := h.1
  rcases live_step hlaws hstep with hextends | ⟨-, hversion⟩
  · rw [hextends.version, hextends.mphf]
    exact h
  · constructor
    · omega
    · intro heq
      omega

theorem Lineage.moved (h : Lineage thread left) (hlaws : P.Versioned)
    (hstep : PirStep P cfg thread e thread') (hinHand : thread'.InHand)
    (hfiles : thread'.files = thread.files) : Lineage thread' left := by
  constructor
  · exact hinHand
  · rw [hfiles]
    exact h.matching
  · rw [hfiles]
    intro hleft blob parsed hindex hparse
    exact lineage_step hlaws hstep (h.index hleft blob parsed hindex hparse)
  · rw [hfiles]
    intro hleft keys hkeys
    exact lineage_step hlaws hstep (h.keys hleft keys hkeys)

theorem Lineage.index_written {blob : P.Blob} (h : Lineage thread left)
    (hparse : P.readFrom blob = .ok thread.live)
    (hstale : left.keys = true → ∀ keys, thread.files.keys = some keys →
      keys.version ≠ thread.live.version)
    (hfiles : thread'.files = { thread.files with index := some blob })
    (hlive : thread'.live = thread.live) (hinHand : thread'.InHand) :
    Lineage thread' { left with index := false } := by
  have hwritten : ∀ blob' parsed, thread'.files.index = some blob' →
      P.readFrom blob' = .ok parsed → parsed = thread.live := by
    intro blob' parsed hindex hread
    rw [hfiles, Option.some.injEq] at hindex
    rw [← hindex, hparse, Except.ok.injEq] at hread
    exact hread.symm
  have hkeysEq : thread'.files.keys = thread.files.keys := by
    rw [hfiles]
  constructor
  · exact hinHand
  · intro blob' parsed keys hindex hread hkeys hversion
    rw [hwritten blob' parsed hindex hread] at hversion ⊢
    rw [hkeysEq] at hkeys
    cases hleft : left.keys with
    | true => exact absurd hversion (hstale hleft keys hkeys)
    | false => exact (h.keys hleft keys hkeys).2 hversion
  · intro _ blob' parsed hindex hread
    rw [hwritten blob' parsed hindex hread, hlive]
    exact ⟨Nat.le_refl _, fun _ => rfl⟩
  · intro hleft keys hkeys
    rw [hkeysEq] at hkeys
    rw [hlive]
    exact h.keys hleft keys hkeys

theorem Lineage.keys_written {keys : KeysFile P} (h : Lineage thread left)
    (hversion : keys.version = thread.live.version)
    (hmade : keys.madeOf = thread.live.mphf)
    (hstale : left.index = true → ∀ blob parsed,
      thread.files.index = some blob → P.readFrom blob = .ok parsed →
      parsed.version ≠ thread.live.version)
    (hfiles : thread'.files = { thread.files with keys := some keys })
    (hlive : thread'.live = thread.live) (hinHand : thread'.InHand) :
    Lineage thread' { left with keys := false } := by
  have hwritten : ∀ keys', thread'.files.keys = some keys' → keys' = keys := by
    intro keys' hkeys
    rw [hfiles, Option.some.injEq] at hkeys
    exact hkeys.symm
  have hindexEq : thread'.files.index = thread.files.index := by
    rw [hfiles]
  constructor
  · exact hinHand
  · intro blob parsed keys' hindex hread hkeys heq
    rw [hwritten keys' hkeys, hversion] at heq
    rw [hwritten keys' hkeys, hmade]
    rw [hindexEq] at hindex
    cases hleft : left.index with
    | true => exact absurd heq.symm (hstale hleft blob parsed hindex hread)
    | false =>
        exact ((h.index hleft blob parsed hindex hread).2 heq.symm).symm
  · intro hleft blob parsed hindex hread
    rw [hindexEq] at hindex
    rw [hlive]
    exact h.index hleft blob parsed hindex hread
  · intro _ keys' hkeys
    rw [hwritten keys' hkeys, hversion, hmade, hlive]
    exact ⟨Nat.le_refl _, fun _ => rfl⟩

theorem Lineage.step (hlaws : P.Versioned) (hwrites : P.Serializes)
    (hstep : PirStep P cfg thread e thread')
    (hstale : NoStaleHalf (.up thread left) (.work e))
    (h : Lineage thread left) : Lineage thread' (left.after e) := by
  have hagain := hstep
  have hinHand := inHand_step hwrites hstep h.inHand
  cases hstep with
  | saveKeys hphase =>
      have hhand := PirThread.inHand_keys h.inHand hphase
      exact h.keys_written hhand.1 rfl hstale rfl rfl hinHand
  | saveIndex hphase =>
      have hhand := PirThread.inHand_index h.inHand hphase
      exact h.index_written hhand.2 hstale rfl rfl hinHand
  | persist hphase =>
      have hhand := PirThread.inHand_persisting h.inHand hphase
      exact h.index_written hhand hstale rfl rfl hinHand
  | _ => exact h.moved hlaws hagain hinHand rfl

/-- What is kept over the lives of all processes. -/
def Host.Sound : Host P → Prop
  | .down files => Matches files
  | .up thread left => Lineage thread left

theorem Host.sound_step {e : HostEvent P} (hlaws : P.Versioned)
    (hwrites : P.Serializes) (hstep : HostStep P cfg host e host')
    (hstale : NoStaleHalf host e) (h : host.Sound) : host'.Sound := by
  cases hstep with
  | start hopen => exact Lineage.of_opens hlaws hopen h
  | work hwork => exact Lineage.step hlaws hwrites hwork hstale h
  | stop => exact Lineage.matching h

theorem Host.Sound.matching (h : host.Sound) : Matches host.files := by
  cases host with
  | down files => exact h
  | up thread left => exact Lineage.matching h

/-- Whatever the processes were, the keys and the directory that are loaded
were made from one MPHF. -/
theorem load_pairs_one_build (hlaws : P.Versioned) (hwrites : P.Serializes)
    {es : List (HostEvent P)} {loaded : KeywordStore.Loaded P}
    (hrun : Run (fun host e host' => HostStep P cfg host e host' ∧
      NoStaleHalf host e) (.down ⟨none, none⟩) es host)
    (hload : KeywordStore.load host.files = .ok (some loaded)) :
    ∃ keys parsed, host.files.keys = some keys ∧ loaded.keys = keys.keys ∧
      P.readFrom loaded.directory = .ok parsed ∧
      keys.madeOf = parsed.mphf := by
  have hstart : (Host.down ⟨none, none⟩ : Host P).Sound := by
    intro blob parsed keys hindex
    cases hindex
  have hsound := hrun.invariant (P := Host.Sound) hstart fun hstep h =>
    Host.sound_step hlaws hwrites hstep.1 hstep.2 h
  rcases KeywordStore.of_load hload with
    ⟨keys, parsed, hindex, hkeys, hparse, hversion, htable, -⟩
  exact ⟨keys, parsed, hkeys, htable, hparse,
    hsound.matching _ parsed keys hindex hparse hkeys hversion⟩

/-- The steps of one process are steps of the host. -/
theorem Host.work_run {es : List (PirEvent P)} (left : Leftover)
    (hrun : Run (PirStep P cfg) thread es thread') :
    Run (HostStep P cfg) (.up thread left) (es.map .work)
      (.up thread' (es.foldl Leftover.after left)) := by
  induction hrun generalizing left with
  | nil s => exact .nil _
  | cons hstep hrest ih => exact .cons (.work hstep) (ih _)

end Lives

namespace RestartedVersion

open Sample

def cfg : PirConfig := ⟨10, 0⟩

/-- The first process has saved both halves. -/
theorem run_saved : ∃ es host loaded, Run (fun host e host' =>
    HostStep (tablePir 1) cfg host e host' ∧ NoStaleHalf host e)
    (.down (noFiles 1)) es host ∧
      KeywordStore.load host.files = .ok (some loaded) := by
  have hgo : ∀ {s s' : PirThread (tablePir 1)} {e : PirEvent (tablePir 1)},
      tableNext cfg s .go = some (e, s') → PirStep (tablePir 1) cfg s e s' :=
    tableNext_step
  refine ⟨_, _, _, .cons ⟨.start (opens_built (a := first) rfl), trivial⟩
    (.cons ⟨.work (hgo rfl), trivial⟩ (.cons ⟨.work (hgo rfl), ?_⟩
    (.cons ⟨.work (hgo rfl), ?_⟩ (.cons ⟨.stop, trivial⟩ (.nil _))))), rfl⟩
  · intro _ blob parsed hindex
    cases hindex
  · intro habs
    cases habs

theorem load_pairs_one_build_saved : ∃ es host loaded,
    Run (fun host e host' => HostStep (tablePir 1) cfg host e host' ∧
      NoStaleHalf host e) (.down (noFiles 1)) es host ∧
    KeywordStore.load host.files = .ok (some loaded) ∧
    ∃ keys parsed, host.files.keys = some keys ∧ loaded.keys = keys.keys ∧
      (tablePir 1).readFrom loaded.directory = .ok parsed ∧
      keys.madeOf = parsed.mphf := by
  rcases run_saved with ⟨es, host, loaded, hrun, hload⟩
  exact ⟨es, host, loaded, hrun, hload, load_pairs_one_build tablePir_versioned
    tablePir_serializes hrun hload⟩

/-- The first process stops when it has written `.keys`.  The second one finds
no index, builds its own and cannot write `.keys`. -/
theorem loads_foreign_keys : ∃ es host loaded keys parsed,
    Run (HostStep (tablePir 1) cfg) (.down (noFiles 1)) es host ∧
      KeywordStore.load host.files = .ok (some loaded) ∧
      host.files.keys = some keys ∧
      (tablePir 1).readFrom loaded.directory = .ok parsed ∧
      keys.madeOf ≠ parsed.mphf := by
  have hfirst : ∃ es thread, drive cfg [.go, .go] (built 1 first (noFiles 1)) =
      some (es, thread) ∧ KeywordStore.load thread.files = .ok none ∧
      ∃ es' thread' loaded keys parsed,
        drive cfg [.go, .fail, .go, .go] (built 1 second thread.files) =
          some (es', thread') ∧
        KeywordStore.load thread'.files = .ok (some loaded) ∧
        thread'.files.keys = some keys ∧
        (tablePir 1).readFrom loaded.directory = .ok parsed ∧
        keys.madeOf = [first] ∧ parsed.mphf = [second] :=
    ⟨_, _, rfl, rfl, _, _, _, _, _, rfl, rfl, rfl, rfl, rfl, rfl⟩
  rcases hfirst with ⟨es, thread, hdrive, hnone, es', thread', loaded, keys,
    parsed, hdrive', hload, hkeys, hparse, hfirst, hsecond⟩
  have hlife := Host.work_run ⟨true, true⟩ (drive_run hdrive)
  have hlife' := Host.work_run ⟨true, true⟩ (drive_run hdrive')
  have hrun := (Run.cons (.start (opens_built rfl)) hlife).snoc .stop
  have hrun' := hrun.append (.cons (.start (opens_built hnone)) hlife')
  refine ⟨_, _, loaded, keys, parsed, hrun', hload, hkeys, hparse, ?_⟩
  rw [hfirst, hsecond]
  change ([first] : Table) ≠ [second]
  decide

end RestartedVersion

end UsdtPir
