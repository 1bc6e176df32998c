import UsdtPir.PirThread
import UsdtPir.TablePir

/-!
# Driving the thread

Over the library with tables a step of the thread is computed from a choice:
whether the call succeeds, and what arrives.  What is driven is a run.
-/

namespace UsdtPir

open Machine

inductive Choice
  | go
  | fail
  | receive (batch : UpdateBatch)

variable {capacity : ℕ} {cfg : PirConfig}

/-- The step of an update is the server's to choose. -/
def absorbNext (s : PirThread (tablePir capacity)) (addr : Address)
    (entry : Entry) (rest : UpdateBatch) :
    PirEvent (tablePir capacity) × PirThread (tablePir capacity) :=
  let server : TableServer := s.server
  if server.keyword.Knows addr ∨ server.len < capacity then
    (.update addr entry true,
      { s with
        phase := .absorbing rest
        server := server.absorb addr entry
        worker := s.worker.recordAbsorbed addr entry })
  else
    (.update addr entry false, { s with phase := .absorbing rest })

def compactNext (cfg : PirConfig) (s : PirThread (tablePir capacity))
    (done : Bool) :
    PirEvent (tablePir capacity) × PirThread (tablePir capacity) :=
  if s.worker.shouldCompact cfg s.server then
    let server : TableServer := s.server
    let next : TableServer :=
      .build ⟨server.keyword.version + 1, s.worker.current.keys, []⟩
        s.worker.current
    if done then
      (.rebuild true,
        { s with
          phase := .checkpointing
          server := next
          worker := s.worker.recordResync (P := tablePir capacity) next })
    else
      (.rebuild false, { s with phase := .serializing })
  else
    (.keepIndex, { s with phase := .serializing })

def tableNext (cfg : PirConfig) (s : PirThread (tablePir capacity)) :
    Choice → Option (PirEvent (tablePir capacity) ×
      PirThread (tablePir capacity)) :=
  let server : TableServer := s.server
  fun choice =>
    match s.phase, choice with
    | .waiting, .receive batch =>
        some (.recv batch, { s with phase := .absorbing batch })
    | .waiting, .go => some (.deadline, { s with phase := .publishing })
    | .absorbing [], .go => some (.absorbed, { s with phase := .waiting })
    | .absorbing ((addr, entry) :: rest), .go =>
        some (absorbNext s addr entry rest)
    | .publishing, .go =>
        some (.publish (.ok (some ())),
          { s with
            phase := .compacting
            server := server.refresh
            worker := { s.worker with absorbedSincePublish := 0 } })
    | .publishing, .fail =>
        some (.publish (.error ()), { s with phase := .compacting })
    | .compacting, .go => some (compactNext cfg s true)
    | .compacting, .fail => some (compactNext cfg s false)
    | .checkpointing, .go =>
        some (.checkpoint true,
          { s with
            phase := .savingKeys
              ⟨server.keyword.version, server.keyword.mphf, server.keyword⟩ })
    | .checkpointing, .fail =>
        some (.checkpoint false, { s with phase := .serializing })
    | .savingKeys saved, .go =>
        some (.saveKeys true,
          { s with
            phase := .savingIndex saved
            files :=
              { s.files with
                keys := some ⟨saved.version, saved.keys,
                  server.keyword.mphf⟩ } })
    | .savingKeys _, .fail =>
        some (.saveKeys false, { s with phase := .serializing })
    | .savingIndex saved, .go =>
        some (.saveIndex true,
          { s with
            phase := .serializing
            files := { s.files with index := some saved.directory } })
    | .savingIndex _, .fail =>
        some (.saveIndex false, { s with phase := .serializing })
    | .serializing, .go =>
        some (.serialize true, { s with phase := .persisting server.keyword })
    | .serializing, .fail =>
        some (.serialize false, { s with phase := .waiting })
    | .persisting blob, .go =>
        some (.persist true,
          { s with
            phase := .exposing blob
            files := { s.files with index := some blob } })
    | .persisting _, .fail =>
        some (.persist false, { s with phase := .waiting })
    | .exposing blob, .go =>
        match Directory.fromBlob (P := tablePir capacity) blob with
        | .ok directory =>
            some (.expose (some directory),
              { s with
                phase := .waiting
                exposed := directory
                published := directory :: s.published })
        | .error _ => none
    | _, _ => none

def drive (cfg : PirConfig) :
    List Choice → PirThread (tablePir capacity) →
    Option (List (PirEvent (tablePir capacity)) ×
      PirThread (tablePir capacity))
  | [], s => some ([], s)
  | choice :: rest, s => do
      let (e, s₁) ← tableNext cfg s choice
      let (es, s') ← drive cfg rest s₁
      some (e :: es, s')

section Correct

variable {s s' : PirThread (tablePir capacity)}
    {e : PirEvent (tablePir capacity)} {choice : Choice}

theorem absorbNext_step {addr : Address} {entry : Entry} {rest : UpdateBatch}
    (hphase : s.phase = .absorbing ((addr, entry) :: rest)) :
    PirStep (tablePir capacity) cfg s (absorbNext s addr entry rest).1
      (absorbNext s addr entry rest).2 := by
  unfold absorbNext
  dsimp only
  split
  · rename_i hroom
    exact @PirStep.update (tablePir capacity) cfg s addr entry rest (.ok ()) _
      hphase ⟨hroom, rfl⟩
  · rename_i hroom
    rw [not_or, Nat.not_lt] at hroom
    exact @PirStep.update (tablePir capacity) cfg s addr entry rest
      (.error ()) _ hphase ⟨hroom, rfl⟩

theorem compactNext_step {done : Bool} (hphase : s.phase = .compacting) :
    PirStep (tablePir capacity) cfg s (compactNext cfg s done).1
      (compactNext cfg s done).2 := by
  unfold compactNext
  by_cases htest : s.worker.shouldCompact cfg s.server = true
  · rw [if_pos htest]
    cases done with
    | true =>
        exact .rebuilt hphase htest ⟨s.worker.current.keys, .refl _, rfl⟩
    | false =>
        exact @PirStep.rebuildFails (tablePir capacity) cfg s () s.server
          hphase htest rfl
  · rw [if_neg htest]
    exact .keepIndex hphase (Bool.eq_false_of_not_eq_true htest)

theorem tableNext_step (h : tableNext cfg s choice = some (e, s')) :
    PirStep (tablePir capacity) cfg s e s' := by
  unfold tableNext at h
  dsimp only at h
  cases hphase : s.phase with
  | waiting =>
      cases choice with
      | go =>
          rw [hphase] at h
          cases h
          exact .deadline hphase
      | fail =>
          rw [hphase] at h
          cases h
      | receive batch =>
          rw [hphase] at h
          cases h
          exact .recv hphase
  | absorbing rest =>
      cases choice with
      | go =>
          cases rest with
          | nil =>
              rw [hphase] at h
              cases h
              exact .absorbed hphase
          | cons row rest =>
              rw [hphase] at h
              have hnext : absorbNext s row.1 row.2 rest = (e, s') :=
                Option.some.inj h
              have hstep : PirStep (tablePir capacity) cfg s
                  (absorbNext s row.1 row.2 rest).1
                  (absorbNext s row.1 row.2 rest).2 := absorbNext_step hphase
              rw [hnext] at hstep
              exact hstep
      | _ =>
          rw [hphase] at h
          cases rest <;> cases h
  | publishing =>
      cases choice with
      | go =>
          rw [hphase] at h
          cases h
          exact @PirStep.publish (tablePir capacity) cfg s (.ok (some ())) _
            hphase rfl
      | fail =>
          rw [hphase] at h
          cases h
          exact @PirStep.publish (tablePir capacity) cfg s (.error ()) s.server
            hphase rfl
      | receive batch =>
          rw [hphase] at h
          cases h
  | compacting =>
      cases choice with
      | go =>
          rw [hphase] at h
          have hnext : compactNext cfg s true = (e, s') := Option.some.inj h
          have hstep : PirStep (tablePir capacity) cfg s
              (compactNext cfg s true).1 (compactNext cfg s true).2 :=
            compactNext_step hphase
          rw [hnext] at hstep
          exact hstep
      | fail =>
          rw [hphase] at h
          have hnext : compactNext cfg s false = (e, s') := Option.some.inj h
          have hstep : PirStep (tablePir capacity) cfg s
              (compactNext cfg s false).1 (compactNext cfg s false).2 :=
            compactNext_step hphase
          rw [hnext] at hstep
          exact hstep
      | receive batch =>
          rw [hphase] at h
          cases h
  | checkpointing =>
      cases choice with
      | go =>
          rw [hphase] at h
          cases h
          exact .checkpoint hphase rfl
      | fail =>
          rw [hphase] at h
          cases h
          exact @PirStep.checkpointFails (tablePir capacity) cfg s () hphase
            trivial
      | receive batch =>
          rw [hphase] at h
          cases h
  | savingKeys saved =>
      cases choice with
      | go =>
          rw [hphase] at h
          cases h
          exact .saveKeys hphase
      | fail =>
          rw [hphase] at h
          cases h
          exact .saveKeysFails hphase
      | receive batch =>
          rw [hphase] at h
          cases h
  | savingIndex saved =>
      cases choice with
      | go =>
          rw [hphase] at h
          cases h
          exact .saveIndex hphase
      | fail =>
          rw [hphase] at h
          cases h
          exact .saveIndexFails hphase
      | receive batch =>
          rw [hphase] at h
          cases h
  | serializing =>
      cases choice with
      | go =>
          rw [hphase] at h
          cases h
          exact .serialize hphase rfl
      | fail =>
          rw [hphase] at h
          cases h
          exact @PirStep.serializeFails (tablePir capacity) cfg s () hphase
            trivial
      | receive batch =>
          rw [hphase] at h
          cases h
  | persisting blob =>
      cases choice with
      | go =>
          rw [hphase] at h
          cases h
          exact .persist hphase
      | fail =>
          rw [hphase] at h
          cases h
          exact .persistFails hphase
      | receive batch =>
          rw [hphase] at h
          cases h
  | exposing blob =>
      cases choice with
      | go =>
          rw [hphase] at h
          cases h
          exact .expose hphase rfl
      | _ =>
          rw [hphase] at h
          cases h
  | stopped =>
      rw [hphase] at h
      cases choice <;> cases h

theorem drive_run {choices : List Choice}
    {es : List (PirEvent (tablePir capacity))}
    (h : drive cfg choices s = some (es, s')) :
    Run (PirStep (tablePir capacity) cfg) s es s' := by
  induction choices generalizing s es with
  | nil =>
      cases h
      exact .nil _
  | cons choice rest ih =>
      unfold drive at h
      cases hnext : tableNext cfg s choice with
      | none =>
          rw [hnext] at h
          cases h
      | some next =>
          rw [hnext] at h
          rcases next with ⟨e, s₁⟩
          change (drive cfg rest s₁).bind _ = _ at h
          cases hrest : drive cfg rest s₁ with
          | none =>
              rw [hrest] at h
              cases h
          | some last =>
              rw [hrest] at h
              rcases last with ⟨es', s''⟩
              cases h
              exact .cons (tableNext_step hnext) (ih hrest)

/-- A driven step that meets a condition, before more of them. -/
theorem checked {C : PirThread (tablePir capacity) →
      PirEvent (tablePir capacity) → Prop}
    {s₁ : PirThread (tablePir capacity)}
    {es : List (PirEvent (tablePir capacity))} (choice : Choice)
    (hnext : tableNext cfg s choice = some (e, s₁)) (hcond : C s e)
    (hrest : Run (fun s e s' => PirStep (tablePir capacity) cfg s e s' ∧ C s e)
      s₁ es s') :
    Run (fun s e s' => PirStep (tablePir capacity) cfg s e s' ∧ C s e)
      s (e :: es) s' :=
  .cons ⟨tableNext_step hnext, hcond⟩ hrest

end Correct

/-! ## A thread over one holder -/

namespace Sample

def first : Address := .zero

def second : Address := .filled 20 1

def entry : Entry := ⟨5, 7, 0, 0⟩

def holders (a : Address) : PirSnapshot :=
  (∅ : PirSnapshot).insert a entry

def noFiles (capacity : ℕ) : KeywordFiles (tablePir capacity) :=
  ⟨none, none⟩

def placeholder (capacity : ℕ) : Directory (tablePir capacity) :=
  ⟨0, 0, 0, 0, 0, 48, ⟨0, [], []⟩, ⟨0, [], []⟩⟩

/-- The index has just been built over one holder. -/
def built (capacity : ℕ) (a : Address)
    (files : KeywordFiles (tablePir capacity)) :
    PirThread (tablePir capacity) :=
  ⟨.checkpointing, .build ⟨0, [a], []⟩ (holders a), ⟨1, 0, holders a⟩, files,
    placeholder capacity, []⟩

theorem opens_built {a : Address} {files : KeywordFiles (tablePir capacity)}
    (hload : KeywordStore.load files = .ok none) :
    Opens (tablePir capacity) (holders a) files true (built capacity a files) :=
  .built hload ⟨[a], .refl _, rfl⟩ rfl

theorem opens_restored {files : KeywordFiles (tablePir capacity)}
    {saved : KeywordStore.Loaded (tablePir capacity)} {map : PirSnapshot}
    (hload : KeywordStore.load files = .ok (some saved)) :
    Opens (tablePir capacity) map files false
      ⟨.serializing, TableServer.reopen saved.directory map,
        ⟨(TableServer.reopen saved.directory map).len, 0, map⟩, files,
        placeholder capacity, []⟩ :=
  .restored hload rfl rfl

end Sample

end UsdtPir
