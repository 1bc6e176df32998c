import UsdtPir.Interruption
import UsdtPir.Storage

/-!
# Writing a file all at once

A writer creates a temporary file, hands its bytes over through a buffer, syncs
it and renames it over the target.  Wherever it stops, the target is what it
was or holds every byte, and it is what it was if the writer fails.
-/

namespace Storage

open Interaction
open Program

/-- The calls of a writer.  `createDirs` makes the directories above a file,
and a flush is the last write: all bytes must go. -/
inductive FileRequest (N : Type)
  | createDirs (p : N)
  | create (p : N)
  | write (handle : ℕ) (bytes : List UInt8)
  | flush (handle : ℕ) (bytes : List UInt8)
  | sync (handle : ℕ)
  | rename (p q : N)

/-- A write tells how many of the bytes have left the buffer. -/
def FileAnswer (N E : Type) : FileRequest N → Type
  | .createDirs _ => Except E Unit
  | .create _ => Except E ℕ
  | .write _ _ => Except E ℕ
  | .flush _ _ => Except E Unit
  | .sync _ => Except E Unit
  | .rename _ _ => Except E Unit

section Calls

variable {N E : Type} [DecidableEq N]

/-- What the calls do.  A write or a flush that fails has handed over some of
the bytes. -/
def diskCalls : Environment (FileRequest N) (FileAnswer N E) (Disk N) :=
  fun d question answer after =>
    match question, answer with
    | .createDirs _, _ => after = d
    | .create p, .ok handle =>
        handle = (d.create p).2 ∧ after = (d.create p).1
    | .create _, .error _ => after = d
    | .write handle bytes, .ok taken =>
        after = d.append handle (bytes.take taken)
    | .write handle bytes, .error _ =>
        ∃ taken, after = d.append handle (bytes.take taken)
    | .flush handle bytes, .ok _ => after = d.append handle bytes
    | .flush handle bytes, .error _ =>
        ∃ taken, after = d.append handle (bytes.take taken)
    | .sync handle, .ok _ => after = d.sync handle
    | .sync _, .error _ => after = d
    | .rename p q, .ok _ => d.rename p q = some after
    | .rename _ _, .error _ => after = d

/-- A writer; its state is the buffer of bytes not handed over yet. -/
abbrev Files (N E : Type) :=
  Program (FileRequest N) (FileAnswer N E) (List UInt8) E

def request (question : FileRequest N) : Files N E (FileAnswer N E question) :=
  Program.query question

def createDirs (p : N) : Files N E Unit := do
  let answer ← request (.createDirs p)
  Program.ofExcept answer

/-- A new file with an empty buffer. -/
def createFile (p : N) : Files N E ℕ := do
  let answer ← request (.create p)
  let handle ← Program.ofExcept answer
  Program.modify fun _ => []
  pure handle

def writeAll (handle : ℕ) (bytes : List UInt8) : Files N E Unit := do
  let buffer ← Program.get
  let answer ← request (.write handle (buffer ++ bytes))
  let taken ← Program.ofExcept answer
  Program.modify fun _ => (buffer ++ bytes).drop taken

def writePieces (handle : ℕ) : List (List UInt8) → Files N E Unit
  | [] => pure ()
  | piece :: rest => do
      writeAll handle piece
      writePieces handle rest

def intoInner (handle : ℕ) : Files N E Unit := do
  let buffer ← Program.get
  let answer ← request (.flush handle buffer)
  Program.ofExcept answer

def syncAll (handle : ℕ) : Files N E Unit := do
  let answer ← request (.sync handle)
  Program.ofExcept answer

def renameFile (p q : N) : Files N E Unit := do
  let answer ← request (.rename p q)
  Program.ofExcept answer

def writeFile (p : N) (pieces : List (List UInt8)) : Files N E Unit := do
  let handle ← createFile p
  writePieces handle pieces
  intoInner handle
  syncAll handle

def writeAtomically (path tmp : N) (pieces : List (List UInt8)) :
    Files N E Unit := do
  writeFile tmp pieces
  renameFile tmp path

end Calls

/-! ## The target while a temporary file is written -/

section Target

variable {N E : Type} {d₀ d d' : Disk N} {path tmp : N} {handle : ℕ}
    {bytes content : List UInt8}

/-- The target reads as it did and is durable, or holds the new content. -/
def OldOrNew (d₀ : Disk N) (path : N) (content : List UInt8) (d : Disk N) :
    Prop :=
  d.Durable path ∧ (d.read path = d₀.read path ∨ d.read path = some content)

/-- The target is the file it was, and it is not the one that is open. -/
structure Kept (d₀ : Disk N) (path : N) (handle : ℕ) (d : Disk N) : Prop where
  names : d.names path = d₀.names path
  other : ∀ i, d₀.names path = some i → i ≠ handle
  contents : ∀ i, d₀.names path = some i → d.contents i = d₀.contents i
  durable : ∀ i, d₀.names path = some i → d.durable i = true

theorem Kept.durable_path (h : Kept d₀ path handle d) : d.Durable path := by
  intro i hi
  rw [h.names] at hi
  exact h.durable i hi

theorem Kept.read (h : Kept d₀ path handle d) :
    d.read path = d₀.read path := by
  unfold Disk.read
  rw [h.names]
  cases hpath : d₀.names path with
  | none => rfl
  | some i => rw [Option.map_some, Option.map_some, h.contents i hpath]

theorem Kept.oldOrNew (h : Kept d₀ path handle d) :
    OldOrNew d₀ path content d :=
  ⟨h.durable_path, .inl h.read⟩

theorem Kept.append (h : Kept d₀ path handle d) :
    Kept d₀ path handle (d.append handle bytes) := by
  refine ⟨h.names, h.other, ?_, ?_⟩
  · intro i hi
    rw [← h.contents i hi]
    exact Function.update_of_ne (h.other i hi) _ d.contents
  · intro i hi
    rw [← h.durable i hi]
    exact Function.update_of_ne (h.other i hi) _ d.durable

theorem Kept.sync (h : Kept d₀ path handle d) :
    Kept d₀ path handle (d.sync handle) := by
  refine ⟨h.names, h.other, h.contents, ?_⟩
  intro i hi
  rw [← h.durable i hi]
  exact Function.update_of_ne (h.other i hi) _ d.durable

variable [DecidableEq N]

theorem Kept.create (hne : tmp ≠ path) (hdurable : d.Durable path) :
    Kept d path (d.create tmp).2 (d.create tmp).1 := by
  have hother : ∀ i, d.names path = some i → i ≠ (d.create tmp).2 :=
    fun i hi => Disk.create_ne hi hne.symm
  refine ⟨Disk.names_create_of_ne hne.symm, hother, ?_, ?_⟩
  · intro i hi
    exact Disk.contents_create_of_ne (hother i hi)
  · intro i hi
    rw [Disk.durable_create_of_ne (hother i hi)]
    exact hdurable i hi

/-- A temporary file with the first bytes, the rest of them in the buffer. -/
structure Draft (d₀ : Disk N) (path tmp : N) (handle : ℕ)
    (written : List UInt8) (d : Disk N) (buffer : List UInt8) : Prop where
  kept : Kept d₀ path handle d
  name : d.names tmp = some handle
  written : d.contents handle ++ buffer = written

variable {written buffer : List UInt8} {pieces : List (List UInt8)}

theorem guards_createFile (hne : tmp ≠ path) (hdurable : d.Durable path) :
    Guards diskCalls (OldOrNew d path content)
      (createFile tmp : Files N E ℕ) d buffer
      (fun d' handle buffer' => Draft d path tmp handle [] d' buffer')
      (fun d' _ _ => d'.Durable path ∧ d'.read path = d.read path) := by
  have hhere : OldOrNew d path content d := ⟨hdurable, .inl rfl⟩
  apply guards_query_bind hhere
  intro answer after hanswer
  cases answer with
  | ok handle =>
      rcases hanswer with ⟨rfl, rfl⟩
      have hkept : Kept d path (d.create tmp).2 (d.create tmp).1 :=
        .create hne hdurable
      refine guards_of_ok rfl hkept.oldOrNew
        ⟨hkept, Disk.names_create_self, ?_⟩
      rw [Disk.contents_create, List.append_nil]
  | error e =>
      have hafter : after = d := hanswer
      subst hafter
      exact guards_of_error rfl hhere ⟨hdurable, rfl⟩

theorem guards_writeAll
    (h : Draft d₀ path tmp handle written d buffer) :
    Guards diskCalls (OldOrNew d₀ path content)
      (writeAll handle bytes : Files N E Unit) d buffer
      (fun d' _ buffer' =>
        Draft d₀ path tmp handle (written ++ bytes) d' buffer')
      (fun d' _ _ => Kept d₀ path handle d') := by
  apply guards_query_bind h.kept.oldOrNew
  intro answer after hanswer
  cases answer with
  | ok taken =>
      have hafter : after = d.append handle ((buffer ++ bytes).take taken) :=
        hanswer
      subst hafter
      refine guards_of_ok rfl h.kept.append.oldOrNew
        ⟨h.kept.append, h.name, ?_⟩
      change Function.update d.contents handle
        (d.contents handle ++ (buffer ++ bytes).take taken) handle ++
          (buffer ++ bytes).drop taken = _
      rw [Function.update_self, List.append_assoc, List.take_append_drop,
        ← List.append_assoc, h.written]
  | error e =>
      rcases hanswer with ⟨taken, rfl⟩
      exact guards_of_error rfl h.kept.append.oldOrNew h.kept.append

theorem guards_writePieces
    (h : Draft d₀ path tmp handle written d buffer) :
    Guards diskCalls (OldOrNew d₀ path content)
      (writePieces handle pieces : Files N E Unit) d buffer
      (fun d' _ buffer' =>
        Draft d₀ path tmp handle (written ++ pieces.flatten) d' buffer')
      (fun d' _ _ => Kept d₀ path handle d') := by
  induction pieces generalizing d written buffer with
  | nil =>
      apply guards_pure h.kept.oldOrNew
      rw [List.flatten_nil, List.append_nil]
      exact h
  | cons piece rest ih =>
      apply Guards.bind
      refine (guards_writeAll h).mono ?_ ?_
      · intro d' _ buffer' h'
        rw [List.flatten_cons, ← List.append_assoc]
        exact ih h'
      · intro d' _ _ hkept
        exact ⟨hkept.oldOrNew, hkept⟩

theorem guards_intoInner
    (h : Draft d₀ path tmp handle written d buffer) :
    Guards diskCalls (OldOrNew d₀ path content)
      (intoInner handle : Files N E Unit) d buffer
      (fun d' _ _ => Draft d₀ path tmp handle written d' [])
      (fun d' _ _ => Kept d₀ path handle d') := by
  apply guards_query_bind h.kept.oldOrNew
  intro answer after hanswer
  cases answer with
  | ok flushed =>
      have hafter : after = d.append handle buffer := hanswer
      subst hafter
      refine guards_of_ok rfl h.kept.append.oldOrNew
        ⟨h.kept.append, h.name, ?_⟩
      change Function.update d.contents handle
        (d.contents handle ++ buffer) handle ++ [] = _
      rw [Function.update_self, List.append_nil, h.written]
  | error e =>
      rcases hanswer with ⟨taken, rfl⟩
      exact guards_of_error rfl h.kept.append.oldOrNew h.kept.append

theorem guards_syncAll (h : Draft d₀ path tmp handle written d []) :
    Guards diskCalls (OldOrNew d₀ path content)
      (syncAll handle : Files N E Unit) d buffer
      (fun d' _ _ => Draft d₀ path tmp handle written d' [] ∧
        d'.durable handle = true)
      (fun d' _ _ => Kept d₀ path handle d') := by
  apply guards_query_bind h.kept.oldOrNew
  intro answer after hanswer
  cases answer with
  | ok done =>
      have hafter : after = d.sync handle := hanswer
      subst hafter
      have hsynced : (d.sync handle).durable handle = true := by
        change Function.update d.durable handle true handle = true
        rw [Function.update_self]
      exact guards_of_ok rfl h.kept.sync.oldOrNew
        ⟨⟨h.kept.sync, h.name, h.written⟩, hsynced⟩
  | error e =>
      have hafter : after = d := hanswer
      subst hafter
      exact guards_of_error rfl h.kept.oldOrNew h.kept

theorem guards_renameFile (h : Draft d₀ path tmp handle content d [])
    (hdurable : d.durable handle = true) :
    Guards diskCalls (OldOrNew d₀ path content)
      (renameFile tmp path : Files N E Unit) d buffer
      (fun d' _ _ => d'.Durable path ∧ d'.read path = some content)
      (fun d' _ _ => Kept d₀ path handle d') := by
  apply guards_query_bind h.kept.oldOrNew
  intro answer after hanswer
  cases answer with
  | ok done =>
      rcases Disk.rename_eq_some hanswer with
        ⟨i, hi, hpath, -, -, hcontents, hsynced, -⟩
      rw [h.name, Option.some.injEq] at hi
      subst hi
      have hwritten := h.written
      rw [List.append_nil] at hwritten
      have hread : after.read path = some content := by
        unfold Disk.read
        rw [hpath, Option.map_some, hcontents, hwritten]
      have hdone : after.Durable path := by
        intro j hj
        rw [hpath, Option.some.injEq] at hj
        rw [← hj, hsynced]
        exact hdurable
      exact guards_of_ok rfl ⟨hdone, .inr hread⟩ ⟨hdone, hread⟩
  | error e =>
      have hafter : after = d := hanswer
      subst hafter
      exact guards_of_error rfl h.kept.oldOrNew h.kept

theorem guards_writeFile (hne : tmp ≠ path) (hdurable : d.Durable path) :
    Guards diskCalls (OldOrNew d path content)
      (writeFile tmp pieces : Files N E Unit) d buffer
      (fun d' _ _ => ∃ handle,
        Draft d path tmp handle pieces.flatten d' [] ∧
          d'.durable handle = true)
      (fun d' _ _ => d'.Durable path ∧ d'.read path = d.read path) := by
  have hkept : ∀ {handle : ℕ} {d' : Disk N}, Kept d path handle d' →
      OldOrNew d path content d' ∧ d'.Durable path ∧
        d'.read path = d.read path :=
    fun hkept => ⟨hkept.oldOrNew, hkept.durable_path, hkept.read⟩
  apply Guards.bind
  refine (guards_createFile hne hdurable).mono ?_ ?_
  · intro d₁ handle buffer₁ hdraft
    apply Guards.bind
    refine (guards_writePieces hdraft).mono ?_ fun _ _ _ h => hkept h
    intro d₂ _ buffer₂ hwritten
    rw [List.nil_append] at hwritten
    apply Guards.bind
    refine (guards_intoInner hwritten).mono ?_ fun _ _ _ h => hkept h
    intro d₃ _ buffer₃ hflushed
    refine (guards_syncAll hflushed).mono ?_ fun _ _ _ h => (hkept h).2
    intro d₄ _ buffer₄ hsynced
    exact ⟨handle, hsynced⟩
  · intro d' _ _ hsame
    exact ⟨⟨hsame.1, .inl hsame.2⟩, hsame⟩

/-- Wherever it stops the target is old or new; it is new if the writer
returns, and old if it fails. -/
theorem guards_writeAtomically (hne : tmp ≠ path)
    (hdurable : d.Durable path) :
    Guards diskCalls (OldOrNew d path pieces.flatten)
      (writeAtomically path tmp pieces : Files N E Unit) d buffer
      (fun d' _ _ => d'.Durable path ∧ d'.read path = some pieces.flatten)
      (fun d' _ _ => d'.Durable path ∧ d'.read path = d.read path) := by
  apply Guards.bind
  refine (guards_writeFile hne hdurable).mono ?_ ?_
  · rintro d₁ _ buffer₁ ⟨handle, hdraft, hsynced⟩
    refine (guards_renameFile hdraft hsynced).mono (fun _ _ _ h => h) ?_
    intro d' _ _ hkept
    exact ⟨hkept.durable_path, hkept.read⟩
  · intro d' _ _ hsame
    exact ⟨⟨hsame.1, .inl hsame.2⟩, hsame⟩

/-- A file under a third name is left alone. -/
theorem meets_writeAtomically_other {other : N} (htmp : tmp ≠ other)
    (hpath : path ≠ other) (hdurable : d.Durable other) :
    Meets diskCalls (writeAtomically path tmp pieces : Files N E Unit) d buffer
      (fun d' _ _ => d'.Durable other ∧ d'.read other = d.read other)
      (fun _ _ _ => True) := by
  have hwrite : Guards diskCalls (OldOrNew d other [])
      (writeFile tmp pieces : Files N E Unit) d buffer
      (fun d' _ _ => ∃ handle,
        Draft d other tmp handle pieces.flatten d' [] ∧
          d'.durable handle = true)
      (fun d' _ _ => d'.Durable other ∧ d'.read other = d.read other) :=
    guards_writeFile htmp hdurable
  simp only [writeAtomically, meets_bind]
  apply meets_mono hwrite.meets
  · intro d₁ _ buffer₁ hdraft
    cases hdraft with
    | intro handle hdraft =>
        have hkept := hdraft.1.kept
        intro answer after hanswer
        cases answer with
        | error e => trivial
        | ok done =>
            rcases Disk.rename_eq_some hanswer with
              ⟨i, -, -, hnames, -, hcontents, hsynced, -⟩
            have hname : after.names other = d₁.names other :=
              hnames other hpath.symm htmp.symm
            have hread : after.read other = d₁.read other := by
              unfold Disk.read
              rw [hname, hcontents]
            have hdone : after.Durable other := by
              intro j hj
              rw [hname] at hj
              rw [hsynced]
              exact hkept.durable_path j hj
            exact ⟨hdone, hread.trans hkept.read⟩
  · intro _ _ _ _
    trivial

end Target

end Storage
