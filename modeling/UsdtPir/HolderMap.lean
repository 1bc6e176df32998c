import UsdtPir.PirView
import UsdtPir.TableRuns

/-!
# The map a keyword rebuild is made from

The worker keeps a copy of the holder map.  Only updates that the server has
accepted go into it, so at a rebuild it is the initial snapshot overlaid with
what was accepted.  That is what was received as long as the last update of
every address was accepted, or changes nothing.
-/

namespace UsdtPir

open Machine

variable {P : EthPir}

/-- The update of an event, if the server has accepted it. -/
def PirEvent.acceptedRow : PirEvent P → Option (Address × Entry)
  | .update addr entry true => some (addr, entry)
  | _ => none

def PirEvent.receivedRow : PirEvent P → Option (Address × Entry)
  | .update addr entry _ => some (addr, entry)
  | _ => none

/-- The updates the server has accepted so far. -/
def accepted (es : List (PirEvent P)) : UpdateBatch :=
  es.filterMap PirEvent.acceptedRow

/-- The updates received so far. -/
def received (es : List (PirEvent P)) : UpdateBatch :=
  es.filterMap PirEvent.receivedRow

/-- What an event says about an address, and whether it was accepted. -/
def PirEvent.updateOf (a : Address) : PirEvent P → Option (Entry × Bool)
  | .update addr entry done => if addr = a then some (entry, done) else none
  | _ => none

/-- The last update received for an address. -/
def lastUpdate (a : Address) (es : List (PirEvent P)) : Option (Entry × Bool) :=
  es.reverse.findSome? (PirEvent.updateOf a)

/-- The holders of the worker's map. -/
def PirWorker.holders (worker : PirWorker) (a : Address) : Option Entry :=
  worker.current.lookup a

section Views

variable {view : Address → Option Entry} {a addr : Address} {entry : Entry}
    {rows rows' : UpdateBatch} {es : List (PirEvent P)} {e : PirEvent P}

theorem viewAfter_append :
    viewAfter view (rows ++ rows') = viewAfter (viewAfter view rows) rows' :=
  List.foldl_append

theorem viewAfter_single_self :
    viewAfter view [(a, entry)] a = present entry := by
  unfold viewAfter
  rw [List.foldl_cons, List.foldl_nil, Function.update_self]

theorem viewAfter_single_ne (h : addr ≠ a) :
    viewAfter view [(addr, entry)] a = view a := by
  unfold viewAfter
  rw [List.foldl_cons, List.foldl_nil, Function.update_of_ne h.symm]

theorem accepted_concat :
    accepted (es ++ [e]) = accepted es ++ accepted [e] :=
  List.filterMap_append

theorem received_concat :
    received (es ++ [e]) = received es ++ received [e] :=
  List.filterMap_append

theorem lastUpdate_concat :
    lastUpdate a (es ++ [e]) = (e.updateOf a).or (lastUpdate a es) := by
  unfold lastUpdate
  rw [List.reverse_append, List.findSome?_append, List.reverse_singleton,
    List.findSome?_cons]
  cases e.updateOf a <;> rfl

/-- The last update alone says what was received for an address. -/
theorem viewAfter_received :
    viewAfter view (received es) a =
      (lastUpdate a es).elim (view a) fun last => present last.1 := by
  induction es using List.reverseRecOn with
  | nil => rfl
  | append_singleton es e ih =>
      rw [received_concat, viewAfter_append, lastUpdate_concat]
      cases e with
      | update addr entry done =>
          by_cases ha : addr = a
          · subst ha
            have hof : (PirEvent.update addr entry done : PirEvent P).updateOf
                addr = some (entry, done) := if_pos rfl
            rw [hof]
            exact viewAfter_single_self
          · have hof : (PirEvent.update addr entry done : PirEvent P).updateOf
                a = none := if_neg ha
            rw [hof, Option.none_or, ← ih]
            exact viewAfter_single_ne ha
      | _ => exact ih

/-- So it does for what was accepted, unless it was rejected. -/
theorem viewAfter_accepted
    (h : ∀ entry, lastUpdate a es ≠ some (entry, false)) :
    viewAfter view (accepted es) a =
      (lastUpdate a es).elim (view a) fun last => present last.1 := by
  induction es using List.reverseRecOn with
  | nil => rfl
  | append_singleton es e ih =>
      rw [lastUpdate_concat] at h ⊢
      rw [accepted_concat, viewAfter_append]
      cases e with
      | update addr entry done =>
          by_cases ha : addr = a
          · subst ha
            have hof : (PirEvent.update addr entry done : PirEvent P).updateOf
                addr = some (entry, done) := if_pos rfl
            rw [hof] at h ⊢
            cases done with
            | true => exact viewAfter_single_self
            | false => exact absurd rfl (h entry)
          · have hof : (PirEvent.update addr entry done : PirEvent P).updateOf
                a = none := if_neg ha
            rw [hof, Option.none_or] at h ⊢
            rw [← ih h]
            cases done with
            | true => exact viewAfter_single_ne ha
            | false => rfl
      | _ => exact ih h

/-- What was received and what was accepted give one view exactly when every
last update that was rejected changes nothing. -/
theorem viewAfter_accepted_eq_received_iff :
    viewAfter view (accepted es) = viewAfter view (received es) ↔
      ∀ a entry, lastUpdate a es = some (entry, false) →
        viewAfter view (accepted es) a = present entry := by
  constructor
  · intro h a entry hlast
    rw [h, viewAfter_received, hlast]
    rfl
  · intro h
    funext a
    by_cases hlast : ∃ entry, lastUpdate a es = some (entry, false)
    · rcases hlast with ⟨entry, hlast⟩
      rw [h a entry hlast, viewAfter_received, hlast]
      rfl
    · rw [not_exists] at hlast
      rw [viewAfter_accepted hlast, viewAfter_received]

end Views

section Runs

variable {cfg : PirConfig} {s s' start : PirThread P} {e : PirEvent P}
    {es : List (PirEvent P)} {initial : PirSnapshot} {files : KeywordFiles P}
    {fresh : Bool}

theorem PirWorker.current_recordAbsorbed (worker : PirWorker)
    (addr : Address) (entry : Entry) :
    (worker.recordAbsorbed addr entry).current =
      if entry.isZero then worker.current.erase addr
      else worker.current.insert addr entry := by
  unfold recordAbsorbed recordCurrentValue
  split <;> rfl

theorem PirWorker.holders_recordAbsorbed (worker : PirWorker) (addr : Address)
    (entry : Entry) :
    (worker.recordAbsorbed addr entry).holders =
      viewAfter worker.holders [(addr, entry)] := by
  funext a
  have hholders : (worker.recordAbsorbed addr entry).holders a =
      (if entry.isZero then worker.current.erase addr
        else worker.current.insert addr entry).lookup a := by
    rw [← current_recordAbsorbed]
    rfl
  rw [hholders]
  by_cases ha : addr = a
  · subst ha
    rw [viewAfter_single_self]
    unfold present
    by_cases hzero : entry.isZero = true
    · rw [if_pos hzero, if_pos hzero, AList.lookup_erase]
    · rw [if_neg hzero, if_neg hzero, AList.lookup_insert]
  · rw [viewAfter_single_ne ha]
    by_cases hzero : entry.isZero = true
    · rw [if_pos hzero]
      exact AList.lookup_erase_ne (Ne.symm ha)
    · rw [if_neg hzero]
      exact AList.lookup_insert_ne (Ne.symm ha)

/-- A step changes the worker's map by the update it has accepted. -/
theorem holders_step (hstep : PirStep P cfg s e s') :
    s'.worker.holders = viewAfter s.worker.holders (accepted [e]) := by
  cases hstep with
  | @update addr entry rest answer server hphase hcall =>
      cases answer with
      | ok accepted => exact s.worker.holders_recordAbsorbed addr entry
      | error fault => rfl
  | @publish answer server hphase hcall =>
      cases answer with
      | ok installed => cases installed <;> rfl
      | error fault => rfl
  | _ => rfl

/-- The worker's map is the first one overlaid with what was accepted. -/
def HoldersAfter (start : PirThread P) (past : List (PirEvent P))
    (s : PirThread P) : Prop :=
  s.worker.holders = viewAfter start.worker.holders (accepted past)

theorem HoldersAfter.step {past : List (PirEvent P)}
    (h : HoldersAfter start past s) (hstep : PirStep P cfg s e s') :
    HoldersAfter start (past ++ [e]) s' := by
  unfold HoldersAfter at h ⊢
  rw [accepted_concat, viewAfter_append, ← h]
  exact holders_step hstep

theorem holders_run (hrun : Run (PirStep P cfg) start es s) :
    s.worker.holders = viewAfter start.worker.holders (accepted es) := by
  have hstart : HoldersAfter start [] start := rfl
  exact hrun.traced hstart fun hstep h => h.step hstep

theorem Opens.holders (hopen : Opens P initial files fresh start) :
    start.worker.holders = fun a => initial.lookup a := by
  cases hopen <;> rfl

/-- The map that a keyword rebuild is made from is, wherever the worker is,
the initial snapshot overlaid with every update received exactly when, for each
address whose last update was rejected, the updates accepted before say the
same. -/
theorem rebuild_from_holder_map_iff
    (hopen : Opens P initial files fresh start)
    (hrun : Run (PirStep P cfg) start es s) :
    s.worker.holders = viewAfter (fun a => initial.lookup a) (received es) ↔
      ∀ a entry, lastUpdate a es = some (entry, false) →
        viewAfter (fun a => initial.lookup a) (accepted es) a =
          present entry := by
  rw [holders_run hrun, hopen.holders]
  exact viewAfter_accepted_eq_received_iff

end Runs

namespace FullDatabase

open Sample

def cfg : PirConfig := ⟨0, 0⟩

def start (capacity : ℕ) : PirThread (tablePir capacity) :=
  built capacity first (noFiles capacity)

/-- The second holder arrives, and the next cycle comes to its rebuild. -/
def choices : List Choice :=
  [.fail, .fail, .receive [(second, entry)], .go, .go, .go, .fail]

def events (capacity : ℕ) (done : Bool) : List (PirEvent (tablePir capacity)) :=
  [.checkpoint false, .serialize false, .recv [(second, entry)],
    .update second entry done, .absorbed, .deadline, .publish (.error ())]

theorem driven_accepted :
    ∃ s, drive cfg choices (start 2) = some (events 2 true, s) :=
  ⟨_, rfl⟩

theorem driven_rejected :
    ∃ s s', drive cfg choices (start 1) = some (events 1 false, s) ∧
      tableNext cfg s .go = some (.rebuild true, s') :=
  ⟨_, _, rfl, rfl⟩

theorem rebuild_from_holder_map_accepted : ∃ s,
    Run (PirStep (tablePir 2) cfg) (start 2) (events 2 true) s ∧
      s.worker.holders = viewAfter (fun a => (holders first).lookup a)
        (received (events 2 true)) := by
  rcases driven_accepted with ⟨s, hdrive⟩
  have hrun := drive_run hdrive
  refine ⟨s, hrun, (rebuild_from_holder_map_iff (opens_built rfl) hrun).mpr ?_⟩
  intro a e hlast
  by_cases ha : second = a
  · subst ha
    have hnot : lastUpdate second (events 2 true) = some (entry, true) := rfl
    rw [hnot] at hlast
    cases hlast
  · have hnot : lastUpdate a (events 2 true) = none := by
      simp [lastUpdate, events, PirEvent.updateOf, ha]
    rw [hnot] at hlast
    cases hlast

/-- The update was received and is missing in the map at the rebuild. -/
theorem rebuild_without_rejected_update : ∃ s s',
    Opens (tablePir 1) (holders first) (noFiles 1) true (start 1) ∧
      Run (PirStep (tablePir 1) cfg) (start 1) (events 1 false) s ∧
      PirStep (tablePir 1) cfg s (.rebuild true) s' ∧
      s.worker.holders ≠ viewAfter (fun a => (holders first).lookup a)
        (received (events 1 false)) := by
  rcases driven_rejected with ⟨s, s', hdrive, hnext⟩
  have hrun := drive_run hdrive
  refine ⟨s, s', opens_built rfl, hrun, tableNext_step hnext, ?_⟩
  intro heq
  have hheld : s.worker.holders second = none := by
    rw [holders_run hrun]
    rfl
  rw [heq, viewAfter_received] at hheld
  cases hheld

end FullDatabase

end UsdtPir
