import UsdtPir.Machine
import UsdtPir.Storage

/-!
# Writers that share a disk

Each writer has its own jobs: it creates a temporary file, writes to it at its
own position, syncs it and renames it over the target.  The calls of all of
them interleave as they like.  Where no path is used by two writers and no
target is a temporary path, every target is always a whole file of its own
writer.
-/

namespace Storage

universe u v

/-- Bytes written at a position; what is skipped reads as zeros. -/
def overwrite (content : List UInt8) (offset : ℕ) (bytes : List UInt8) :
    List UInt8 :=
  (content ++ List.replicate (offset - content.length) 0).take offset ++
    bytes ++ content.drop (offset + bytes.length)

theorem overwrite_length (content bytes : List UInt8) :
    overwrite content content.length bytes = content ++ bytes := by
  unfold overwrite
  rw [Nat.sub_self, List.replicate_zero, List.append_nil, List.take_length,
    List.drop_eq_nil_of_le (Nat.le_add_right _ _), List.append_nil]

def Disk.writeAt {N : Type u} (d : Disk N) (i offset : ℕ)
    (bytes : List UInt8) : Disk N :=
  { d with
    contents := Function.update d.contents i
      (overwrite (d.contents i) offset bytes)
    durable := Function.update d.durable i false }

structure Job (N : Type u) where
  target : N
  tmp : N
  deriving DecidableEq

/-- A temporary file being written. -/
structure OpenFile (N : Type u) where
  job : Job N
  handle : ℕ
  written : List UInt8
  rest : List UInt8
  synced : Bool

/-- The disk, and what every writer is at. -/
structure Session (N : Type u) (W : Type v) where
  disk : Disk N
  drafts : W → Option (OpenFile N)

inductive WriterEvent (N : Type u) (W : Type v)
  | create (w : W) (job : Job N) (content : List UInt8)
  | write (w : W) (bytes : List UInt8)
  | sync (w : W)
  | rename (w : W)
  | abandon (w : W)

section Writers

variable {N : Type u} {W : Type v} [DecidableEq N] [DecidableEq W]

/-- One call of one writer.  A call that fails, or a process that dies, leaves
the job where it is. -/
inductive WriterStep (jobs : W → List (Job N))
    (Whole : W → N → List UInt8 → Prop) :
    Session N W → WriterEvent N W → Session N W → Prop
  | create {s : Session N W} {w : W} {job : Job N} {content : List UInt8}
      (hidle : s.drafts w = none) (hjob : job ∈ jobs w)
      (hwhole : Whole w job.target content) :
      WriterStep jobs Whole s (.create w job content)
        ⟨(s.disk.create job.tmp).1, Function.update s.drafts w
          (some ⟨job, (s.disk.create job.tmp).2, [], content, false⟩)⟩
  | write {s : Session N W} {w : W} {draft : OpenFile N}
      {bytes rest : List UInt8} (hdraft : s.drafts w = some draft)
      (hrest : draft.rest = bytes ++ rest) (hbytes : bytes ≠ []) :
      WriterStep jobs Whole s (.write w bytes)
        ⟨s.disk.writeAt draft.handle draft.written.length bytes,
          Function.update s.drafts w
            (some { draft with written := draft.written ++ bytes, rest })⟩
  | sync {s : Session N W} {w : W} {draft : OpenFile N}
      (hdraft : s.drafts w = some draft) (hrest : draft.rest = []) :
      WriterStep jobs Whole s (.sync w)
        ⟨s.disk.sync draft.handle,
          Function.update s.drafts w (some { draft with synced := true })⟩
  | rename {s : Session N W} {w : W} {draft : OpenFile N} {d : Disk N}
      (hdraft : s.drafts w = some draft) (hrest : draft.rest = [])
      (hsynced : draft.synced = true)
      (hrename : s.disk.rename draft.job.tmp draft.job.target = some d) :
      WriterStep jobs Whole s (.rename w)
        ⟨d, Function.update s.drafts w none⟩
  | abandon {s : Session N W} {w : W} :
      WriterStep jobs Whole s (.abandon w)
        ⟨s.disk, Function.update s.drafts w none⟩

/-- No target is a temporary path, and no path is used by two writers, or as
two targets of one writer. -/
structure Apart (jobs : W → List (Job N)) : Prop where
  target_ne_tmp : ∀ {w w' : W} {job job' : Job N}, job ∈ jobs w →
    job' ∈ jobs w' → job.target ≠ job'.tmp
  tmp_ne_tmp : ∀ {w w' : W} {job job' : Job N}, w ≠ w' → job ∈ jobs w →
    job' ∈ jobs w' → job.tmp ≠ job'.tmp
  target_ne_target : ∀ {w w' : W} {job job' : Job N}, w ≠ w' →
    job ∈ jobs w → job' ∈ jobs w' → job.target ≠ job'.target
  targets_nodup : ∀ w : W, ((jobs w).map Job.target).Nodup

/-- Every target is a whole file of its own writer. -/
def Safe (jobs : W → List (Job N)) (Whole : W → N → List UInt8 → Prop)
    (d : Disk N) : Prop :=
  ∀ w job, job ∈ jobs w → ∀ bytes, d.read job.target = some bytes →
    Whole w job.target bytes

/-- From any disk with whole files on it, in any interleaving. -/
def AlwaysSafe (jobs : W → List (Job N)) : Prop :=
  ∀ (Whole : W → N → List UInt8 → Prop) (d : Disk N)
    (es : List (WriterEvent N W)) (s : Session N W), Safe jobs Whole d →
    Machine.Run (WriterStep jobs Whole) ⟨d, fun _ => none⟩ es s →
    Safe jobs Whole s.disk

/-! ## The invariant -/

section Invariant

variable {jobs : W → List (Job N)} {Whole : W → N → List UInt8 → Prop}
    {s s' : Session N W} {d d' : Disk N} {e : WriterEvent N W} {w : W}
    {draft : OpenFile N}

/-- The temporary file holds what has been written of a whole file. -/
structure OpenFile.Holds (jobs : W → List (Job N))
    (Whole : W → N → List UInt8 → Prop) (w : W) (d : Disk N)
    (draft : OpenFile N) : Prop where
  job : draft.job ∈ jobs w
  whole : Whole w draft.job.target (draft.written ++ draft.rest)
  name : d.names draft.job.tmp = some draft.handle
  contents : d.contents draft.handle = draft.written

structure Session.Sound (jobs : W → List (Job N))
    (Whole : W → N → List UInt8 → Prop) (s : Session N W) : Prop where
  drafts : ∀ w draft, s.drafts w = some draft →
    draft.Holds jobs Whole w s.disk
  safe : Safe jobs Whole s.disk

omit [DecidableEq N] [DecidableEq W] in
theorem OpenFile.Holds.congr (h : draft.Holds jobs Whole w d)
    (hname : d'.names draft.job.tmp = d.names draft.job.tmp)
    (hcontents : d'.contents draft.handle = d.contents draft.handle) :
    draft.Holds jobs Whole w d' :=
  ⟨h.job, h.whole, hname.trans h.name, hcontents.trans h.contents⟩

omit [DecidableEq N] [DecidableEq W] in
/-- A disk on which the targets read as before is as safe. -/
theorem Safe.congr (h : Safe jobs Whole d)
    (hread : ∀ w job, job ∈ jobs w → d'.read job.target = d.read job.target) :
    Safe jobs Whole d' := by
  intro w job hjob bytes hbytes
  rw [hread w job hjob] at hbytes
  exact h w job hjob bytes hbytes

omit [DecidableEq N] in
theorem drafts_update {drafts : W → Option (OpenFile N)} {moved : Option (OpenFile N)}
    {w' : W} (h : Function.update drafts w moved w' = some draft) :
    (w' = w ∧ moved = some draft) ∨ (w' ≠ w ∧ drafts w' = some draft) := by
  by_cases hw : w' = w
  · subst hw
    rw [Function.update_self] at h
    exact .inl ⟨rfl, h⟩
  · rw [Function.update_of_ne hw] at h
    exact .inr ⟨hw, h⟩

omit [DecidableEq N] [DecidableEq W] in
theorem handle_ne (hapart : Apart jobs) {w' : W} {draft' : OpenFile N}
    (hw : w' ≠ w) (h : draft.Holds jobs Whole w d)
    (h' : draft'.Holds jobs Whole w' d) : draft'.handle ≠ draft.handle := by
  intro heq
  have hname := h'.name
  rw [heq] at hname
  exact hapart.tmp_ne_tmp hw h'.job h.job (d.injective hname h.name)

omit [DecidableEq N] [DecidableEq W] in
theorem target_handle_ne (hapart : Apart jobs) {w' : W} {job : Job N} {i : ℕ}
    (hjob : job ∈ jobs w') (h : draft.Holds jobs Whole w d)
    (hi : d.names job.target = some i) : i ≠ draft.handle := by
  intro heq
  rw [heq] at hi
  exact hapart.target_ne_tmp hjob h.job (d.injective hi h.name)

omit [DecidableEq N] in
/-- A step that only changes the file of one draft. -/
theorem sound_of_file (hapart : Apart jobs) {moved : OpenFile N}
    (h : s.Sound jobs Whole) (hdraft : s.drafts w = some draft)
    (hmoved : moved.Holds jobs Whole w d') (hnames : d'.names = s.disk.names)
    (hcontents : ∀ i, i ≠ draft.handle →
      d'.contents i = s.disk.contents i) :
    Session.Sound jobs Whole
      ⟨d', Function.update s.drafts w (some moved)⟩ := by
  have hholds := h.drafts w draft hdraft
  constructor
  · intro w' draft' hdraft'
    rcases drafts_update hdraft' with ⟨rfl, heq⟩ | ⟨hw, hother⟩
    · cases heq
      exact hmoved
    · have hholds' := h.drafts w' draft' hother
      exact hholds'.congr (by rw [hnames])
        (hcontents _ (handle_ne hapart hw hholds hholds'))
  · apply h.safe.congr
    intro w' job hjob
    unfold Disk.read
    rw [hnames]
    cases hi : s.disk.names job.target with
    | none => rfl
    | some i =>
        have hne : i ≠ draft.handle := target_handle_ne hapart hjob hholds hi
        rw [Option.map_some, Option.map_some, hcontents i hne]

theorem sound_create (hapart : Apart jobs) {job : Job N}
    {content : List UInt8} (h : s.Sound jobs Whole) (hjob : job ∈ jobs w)
    (hwhole : Whole w job.target content) :
    Session.Sound jobs Whole
      ⟨(s.disk.create job.tmp).1, Function.update s.drafts w
        (some ⟨job, (s.disk.create job.tmp).2, [], content, false⟩)⟩ := by
  constructor
  · intro w' draft' hdraft'
    rcases drafts_update hdraft' with ⟨rfl, heq⟩ | ⟨hw, hother⟩
    · cases heq
      exact ⟨hjob, hwhole, Disk.names_create_self, Disk.contents_create⟩
    · have hholds' := h.drafts w' draft' hother
      have hne : draft'.job.tmp ≠ job.tmp :=
        hapart.tmp_ne_tmp hw hholds'.job hjob
      apply hholds'.congr
      · exact Disk.names_create_of_ne hne
      · exact Disk.contents_create_of_ne (Disk.create_ne hholds'.name hne)
  · apply h.safe.congr
    intro w' job' hjob'
    have hne : job'.target ≠ job.tmp := hapart.target_ne_tmp hjob' hjob
    unfold Disk.read
    change ((s.disk.create job.tmp).1.names job'.target).map _ = _
    rw [Disk.names_create_of_ne hne]
    cases hi : s.disk.names job'.target with
    | none => rfl
    | some i =>
        rw [Option.map_some, Option.map_some]
        congr 1
        exact Disk.contents_create_of_ne (Disk.create_ne hi hne)

theorem sound_rename (hapart : Apart jobs) (h : s.Sound jobs Whole)
    (hdraft : s.drafts w = some draft) (hrest : draft.rest = [])
    (hrename : s.disk.rename draft.job.tmp draft.job.target = some d) :
    Session.Sound jobs Whole ⟨d, Function.update s.drafts w none⟩ := by
  have hholds := h.drafts w draft hdraft
  rcases Disk.rename_eq_some hrename with
    ⟨i, hi, htarget, hnames, -, hcontents, -, -⟩
  rw [hholds.name, Option.some.injEq] at hi
  subst hi
  constructor
  · intro w' draft' hdraft'
    rcases drafts_update hdraft' with ⟨-, heq⟩ | ⟨hw, hother⟩
    · cases heq
    · have hholds' := h.drafts w' draft' hother
      apply hholds'.congr
      · apply hnames
        · exact (hapart.target_ne_tmp hholds.job hholds'.job).symm
        · exact hapart.tmp_ne_tmp hw hholds'.job hholds.job
      · change d.contents _ = _
        rw [hcontents]
  · intro w' job hjob bytes hbytes
    by_cases heq : job.target = draft.job.target
    · have hw : w' = w := by
        by_contra hw
        exact hapart.target_ne_target hw hjob hholds.job heq
      have hread : d.read job.target = some draft.written := by
        unfold Disk.read
        rw [heq, htarget, Option.map_some, hcontents, hholds.contents]
      rw [hread, Option.some.injEq] at hbytes
      have hwhole := hholds.whole
      rw [hrest, List.append_nil] at hwhole
      rw [← hbytes, hw, heq]
      exact hwhole
    · apply h.safe w' job hjob bytes
      have hne : job.target ≠ draft.job.tmp :=
        hapart.target_ne_tmp hjob hholds.job
      rw [← hbytes]
      unfold Disk.read
      rw [hnames _ heq hne, hcontents]

/-- Every call of every writer keeps the files apart and whole. -/
theorem sound_step (hapart : Apart jobs)
    (hstep : WriterStep jobs Whole s e s') (h : s.Sound jobs Whole) :
    s'.Sound jobs Whole := by
  cases hstep with
  | create hidle hjob hwhole => exact sound_create hapart h hjob hwhole
  | @write w draft bytes rest hdraft hrest hbytes =>
      have hholds := h.drafts w draft hdraft
      apply sound_of_file hapart h hdraft
      · refine ⟨hholds.job, ?_, hholds.name, ?_⟩
        · have hwhole := hholds.whole
          rw [hrest, ← List.append_assoc] at hwhole
          exact hwhole
        · change Function.update s.disk.contents draft.handle _ draft.handle = _
          rw [Function.update_self, hholds.contents, overwrite_length]
      · rfl
      · intro i hi
        exact Function.update_of_ne hi _ s.disk.contents
  | @sync w draft hdraft hrest =>
      have hholds := h.drafts w draft hdraft
      apply sound_of_file hapart h hdraft
      · exact ⟨hholds.job, hholds.whole, hholds.name, hholds.contents⟩
      · rfl
      · intro i hi
        rfl
  | rename hdraft hrest hsynced hrename =>
      exact sound_rename hapart h hdraft hrest hrename
  | @abandon w =>
      constructor
      · intro w' draft' hdraft'
        rcases drafts_update hdraft' with ⟨-, heq⟩ | ⟨hw, hother⟩
        · cases heq
        · exact h.drafts w' draft' hother
      · exact h.safe

theorem alwaysSafe_of_apart (hapart : Apart jobs) : AlwaysSafe jobs := by
  intro Whole d es s hsafe hrun
  have hstart : Session.Sound jobs Whole ⟨d, fun _ => none⟩ := by
    constructor
    · intro w draft hdraft
      cases hdraft
    · exact hsafe
  exact (hrun.invariant (P := Session.Sound jobs Whole) hstart
    fun hstep h => sound_step hapart hstep h).safe

end Invariant

end Writers

end Storage
