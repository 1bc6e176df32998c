import UsdtPir.SharedDisk

/-!
# Processes that take a lock before they write

Any number of processes want to read one file and replace it.  Each takes an
exclusive lock first and keeps it until it ends, one way or another; then it
reads the file once and writes new versions, each to a temporary file that it
syncs and renames.  A process may die at any time.
-/

namespace Storage

universe u v

/-- A file, the way to it, and the lock beside it. -/
structure Guarded (N : Type u) where
  target : N
  tmp : N
  lock : N
  tmp_ne_target : tmp ≠ target
  lock_ne_target : lock ≠ target
  lock_ne_tmp : lock ≠ tmp

/-- What a process that holds the lock has in memory: the version that it has
read or written last, and the file it is writing. -/
structure Holder (N : Type u) where
  loaded : Option (Option (List UInt8))
  draft : Option (OpenFile N)

/-- The disk, who has the lock, and the processes.  `saves` is a ghost: each
version with the one it was made from. -/
structure Lockup (N : Type u) (W : Type v) where
  disk : Disk N
  lock : Option W
  holders : W → Option (Holder N)
  saves : List (Option (List UInt8) × List UInt8)

/-- Before any process has come. -/
def Lockup.start {N : Type u} {W : Type v} (d : Disk N) : Lockup N W :=
  ⟨d, none, fun _ => none, []⟩

inductive LockEvent (W : Type v)
  | acquire (w : W)
  | load (w : W)
  | create (w : W) (content : List UInt8)
  | write (w : W) (bytes : List UInt8)
  | sync (w : W)
  | rename (w : W)
  | abandon (w : W)
  | exit (w : W)

/-- Every version was made from the one before. -/
def Linked (first : Option (List UInt8)) :
    List (Option (List UInt8) × List UInt8) → Option (List UInt8) → Prop
  | [], last => last = first
  | (basis, content) :: saves, last =>
      basis = first ∧ Linked (some content) saves last

section Linked

variable {first last : Option (List UInt8)} {content : List UInt8}
    {saves : List (Option (List UInt8) × List UInt8)}

theorem Linked.snoc (h : Linked first saves last) :
    Linked first (saves ++ [(last, content)]) (some content) := by
  induction saves generalizing first with
  | nil =>
      obtain rfl := h
      exact ⟨rfl, rfl⟩
  | cons save saves ih => exact ⟨h.1, ih h.2⟩

end Linked

namespace Disk

variable {N : Type u} [DecidableEq N] {d : Disk N} {p q : N} {i : ℕ}

/-- Open a file for writing as it is, or a new one. -/
def touch (d : Disk N) (p : N) : Disk N :=
  match d.names p with
  | some _ => d
  | none => d.allocate p

theorem names_touch_of_ne (h : q ≠ p) : (d.touch p).names q = d.names q := by
  unfold touch
  cases hp : d.names p with
  | some i => rfl
  | none => exact Function.update_of_ne h (some d.fresh) d.names

theorem contents_touch (h : i < d.fresh) :
    (d.touch p).contents i = d.contents i := by
  have hne : i ≠ d.fresh := Nat.ne_of_lt h
  unfold touch
  cases hp : d.names p with
  | some j => rfl
  | none => exact Function.update_of_ne hne [] d.contents

theorem durable_touch (h : i < d.fresh) :
    (d.touch p).durable i = d.durable i := by
  have hne : i ≠ d.fresh := Nat.ne_of_lt h
  unfold touch
  cases hp : d.names p with
  | some j => rfl
  | none => exact Function.update_of_ne hne false d.durable

end Disk

section Processes

variable {N : Type u} {W : Type v} [DecidableEq N] [DecidableEq W]

/-- One call of one process, or its end.  `Next` is what a process may write when
it has this version. -/
inductive LockStep (files : Guarded N)
    (Next : Option (List UInt8) → List UInt8 → Prop) :
    Lockup N W → LockEvent W → Lockup N W → Prop
  | acquire {s : Lockup N W} {w : W} (hidle : s.holders w = none)
      (hfree : s.lock = none) :
      LockStep files Next s (.acquire w)
        ⟨s.disk.touch files.lock, some w,
          Function.update s.holders w (some ⟨none, none⟩), s.saves⟩
  | refused {s : Lockup N W} {w other : W} (hidle : s.holders w = none)
      (hheld : s.lock = some other) :
      LockStep files Next s (.acquire w)
        { s with disk := s.disk.touch files.lock }
  | load {s : Lockup N W} {w : W} {holder : Holder N}
      (hholder : s.holders w = some holder) (hnew : holder.loaded = none) :
      LockStep files Next s (.load w) { s with
        holders := Function.update s.holders w
          (some { holder with loaded := some (s.disk.read files.target) }) }
  | create {s : Lockup N W} {w : W} {holder : Holder N}
      {version : Option (List UInt8)} {content : List UInt8}
      (hholder : s.holders w = some holder)
      (hloaded : holder.loaded = some version) (hidle : holder.draft = none)
      (hnext : Next version content) :
      LockStep files Next s (.create w content) { s with
        disk := (s.disk.create files.tmp).1
        holders := Function.update s.holders w (some { holder with
          draft := some ⟨⟨files.target, files.tmp⟩,
            (s.disk.create files.tmp).2, [], content, false⟩ }) }
  | write {s : Lockup N W} {w : W} {holder : Holder N} {draft : OpenFile N}
      {bytes rest : List UInt8} (hholder : s.holders w = some holder)
      (hdraft : holder.draft = some draft) (hrest : draft.rest = bytes ++ rest) :
      LockStep files Next s (.write w bytes) { s with
        disk := s.disk.writeAt draft.handle draft.written.length bytes
        holders := Function.update s.holders w (some { holder with
          draft := some { draft with
            written := draft.written ++ bytes
            rest
            synced := false } }) }
  | sync {s : Lockup N W} {w : W} {holder : Holder N} {draft : OpenFile N}
      (hholder : s.holders w = some holder)
      (hdraft : holder.draft = some draft) :
      LockStep files Next s (.sync w) { s with
        disk := s.disk.sync draft.handle
        holders := Function.update s.holders w (some { holder with
          draft := some { draft with synced := true } }) }
  | rename {s : Lockup N W} {w : W} {holder : Holder N} {draft : OpenFile N}
      {version : Option (List UInt8)} {d : Disk N}
      (hholder : s.holders w = some holder)
      (hloaded : holder.loaded = some version)
      (hdraft : holder.draft = some draft) (hrest : draft.rest = [])
      (hsynced : draft.synced = true)
      (hrename : s.disk.rename files.tmp files.target = some d) :
      LockStep files Next s (.rename w)
        ⟨d, s.lock, Function.update s.holders w
            (some ⟨some (some draft.written), none⟩),
          s.saves ++ [(version, draft.written)]⟩
  | abandon {s : Lockup N W} {w : W} {holder : Holder N}
      (hholder : s.holders w = some holder) :
      LockStep files Next s (.abandon w) { s with
        holders := Function.update s.holders w
          (some { holder with draft := none }) }
  | exit {s : Lockup N W} {w : W} {holder : Holder N}
      (hholder : s.holders w = some holder) :
      LockStep files Next s (.exit w) { s with
        lock := none
        holders := Function.update s.holders w none }

/-! ## The invariant -/

variable {files : Guarded N} {Next : Option (List UInt8) → List UInt8 → Prop}
    {s s' : Lockup N W} {e : LockEvent W}
    {d d' : Disk N} {first : Option (List UInt8)} {w : W} {holder : Holder N}
    {draft : OpenFile N}

/-- The temporary file is the draft. -/
structure OpenFile.Kept (files : Guarded N)
    (Next : Option (List UInt8) → List UInt8 → Prop)
    (loaded : Option (Option (List UInt8))) (d : Disk N) (draft : OpenFile N) :
    Prop where
  name : d.names files.tmp = some draft.handle
  contents : d.contents draft.handle = draft.written
  durable : draft.synced = true → d.durable draft.handle = true
  next : ∃ version, loaded = some version ∧
    Next version (draft.written ++ draft.rest)

/-- Only the process with the lock is at work, it knows what is on the disk, and
that is the last version. -/
structure Lockup.Sound (files : Guarded N)
    (Next : Option (List UInt8) → List UInt8 → Prop)
    (first : Option (List UInt8)) (s : Lockup N W) : Prop where
  held : ∀ w holder, s.holders w = some holder → s.lock = some w
  current : ∀ w holder version, s.holders w = some holder →
    holder.loaded = some version → s.disk.read files.target = version
  drafts : ∀ w holder draft, s.holders w = some holder →
    holder.draft = some draft → draft.Kept files Next holder.loaded s.disk
  durable : s.disk.Durable files.target
  linked : Linked first s.saves (s.disk.read files.target)
  next : ∀ save ∈ s.saves, Next save.1 save.2

omit [DecidableEq N] in
theorem holders_update {holders : W → Option (Holder N)}
    {moved : Option (Holder N)} {w' : W}
    (h : Function.update holders w moved w' = some holder) :
    (w' = w ∧ moved = some holder) ∨ (w' ≠ w ∧ holders w' = some holder) := by
  by_cases hw : w' = w
  · subst hw
    rw [Function.update_self] at h
    exact .inl ⟨rfl, h⟩
  · rw [Function.update_of_ne hw] at h
    exact .inr ⟨hw, h⟩

omit [DecidableEq N] [DecidableEq W] in
/-- Where one process has the lock there is no other. -/
theorem Lockup.Sound.alone (h : s.Sound files Next first) {w' : W}
    {holder' : Holder N} (hholder : s.holders w = some holder)
    (hother : s.holders w' = some holder') : w' = w := by
  have hlock := h.held w' holder' hother
  rw [h.held w holder hholder, Option.some.injEq] at hlock
  exact hlock.symm

omit [DecidableEq N] [DecidableEq W] in
theorem target_ne_handle (hname : d.names files.tmp = some draft.handle) {i : ℕ}
    (hi : d.names files.target = some i) : i ≠ draft.handle := by
  intro heq
  rw [heq] at hi
  exact files.tmp_ne_target (d.injective hname hi)

omit [DecidableEq N] [DecidableEq W] in
theorem read_congr {p : N} (hnames : d'.names p = d.names p)
    (hcontents : ∀ i, d.names p = some i → d'.contents i = d.contents i) :
    d'.read p = d.read p := by
  unfold Disk.read
  rw [hnames]
  cases hp : d.names p with
  | none => rfl
  | some i => rw [Option.map_some, Option.map_some, hcontents i hp]

omit [DecidableEq N] in
/-- A step of the process that has the lock, which leaves the target alone. -/
theorem Lockup.Sound.of_holder (h : s.Sound files Next first)
    (hholder : s.holders w = some holder) {moved : Holder N}
    (hread : d.read files.target = s.disk.read files.target)
    (hdurable : d.Durable files.target)
    (hloaded : ∀ version, moved.loaded = some version →
      s.disk.read files.target = version)
    (hdrafts : ∀ draft, moved.draft = some draft →
      draft.Kept files Next moved.loaded d) :
    Lockup.Sound files Next first { s with
      disk := d
      holders := Function.update s.holders w (some moved) } := by
  constructor
  · intro w' holder' hother
    obtain ⟨rfl, -⟩ | ⟨-, hother⟩ := holders_update hother
    · exact h.held _ holder hholder
    · exact h.held w' holder' hother
  · intro w' holder' version hother hversion
    dsimp only
    rw [hread]
    obtain ⟨-, heq⟩ | ⟨-, hother⟩ := holders_update hother
    · cases heq
      exact hloaded version hversion
    · exact h.current w' holder' version hother hversion
  · intro w' holder' draft hother hdraft
    obtain ⟨-, heq⟩ | ⟨hw, hother⟩ := holders_update hother
    · cases heq
      exact hdrafts draft hdraft
    · exact absurd (h.alone hholder hother) hw
  · exact hdurable
  · dsimp only
    rw [hread]
    exact h.linked
  · exact h.next

omit [DecidableEq W] in
theorem Lockup.Sound.touch (h : s.Sound files Next first) :
    Lockup.Sound files Next first
      { s with disk := s.disk.touch files.lock } := by
  have hread : (s.disk.touch files.lock).read files.target =
      s.disk.read files.target :=
    read_congr (Disk.names_touch_of_ne files.lock_ne_target.symm)
      fun i hi => Disk.contents_touch (s.disk.names_lt hi)
  constructor
  · exact h.held
  · dsimp only
    rw [hread]
    exact h.current
  · intro w holder draft hholder hdraft
    obtain ⟨hname, hcontents, hdurable, hnext⟩ :=
      h.drafts w holder draft hholder hdraft
    refine ⟨?_, ?_, ?_, hnext⟩
    · exact (Disk.names_touch_of_ne files.lock_ne_tmp.symm).trans hname
    · exact (Disk.contents_touch (s.disk.names_lt hname)).trans hcontents
    · intro hsynced
      exact (Disk.durable_touch (s.disk.names_lt hname)).trans
        (hdurable hsynced)
  · intro i hi
    dsimp only at hi ⊢
    rw [Disk.names_touch_of_ne files.lock_ne_target.symm] at hi
    rw [Disk.durable_touch (s.disk.names_lt hi)]
    exact h.durable i hi
  · dsimp only
    rw [hread]
    exact h.linked
  · exact h.next

theorem Lockup.Sound.create (h : s.Sound files Next first)
    (hholder : s.holders w = some holder) {version : Option (List UInt8)}
    {content : List UInt8} (hloaded : holder.loaded = some version)
    (hnext : Next version content) :
    Lockup.Sound files Next first { s with
      disk := (s.disk.create files.tmp).1
      holders := Function.update s.holders w (some { holder with
        draft := some ⟨⟨files.target, files.tmp⟩,
          (s.disk.create files.tmp).2, [], content, false⟩ }) } := by
  have hne : files.target ≠ files.tmp := files.tmp_ne_target.symm
  apply h.of_holder hholder
  · apply read_congr (Disk.names_create_of_ne hne)
    intro i hi
    exact Disk.contents_create_of_ne (Disk.create_ne hi hne)
  · intro i hi
    rw [Disk.names_create_of_ne hne] at hi
    rw [Disk.durable_create_of_ne (Disk.create_ne hi hne)]
    exact h.durable i hi
  · intro version' hversion
    exact h.current w holder version' hholder hversion
  · intro draft hdraft
    cases hdraft
    refine ⟨Disk.names_create_self, Disk.contents_create, ?_, ?_⟩
    · intro hsynced
      cases hsynced
    · exact ⟨version, hloaded, hnext⟩

omit [DecidableEq N] in
theorem Lockup.Sound.write (h : s.Sound files Next first)
    (hholder : s.holders w = some holder) {bytes rest : List UInt8}
    (hdraft : holder.draft = some draft) (hrest : draft.rest = bytes ++ rest) :
    Lockup.Sound files Next first { s with
      disk := s.disk.writeAt draft.handle draft.written.length bytes
      holders := Function.update s.holders w (some { holder with
        draft := some { draft with
          written := draft.written ++ bytes
          rest
          synced := false } }) } := by
  have hkept := h.drafts w holder draft hholder hdraft
  apply h.of_holder hholder
  · refine read_congr (d := s.disk) rfl ?_
    intro i hi
    exact Function.update_of_ne (target_ne_handle hkept.name hi) _ _
  · intro i hi
    have hne : i ≠ draft.handle := target_ne_handle hkept.name hi
    exact (Function.update_of_ne hne _ _).trans (h.durable i hi)
  · intro version hversion
    exact h.current w holder version hholder hversion
  · intro moved hmoved
    cases hmoved
    refine ⟨hkept.name, ?_, ?_, ?_⟩
    · change Function.update s.disk.contents draft.handle _ draft.handle = _
      rw [Function.update_self, hkept.contents, overwrite_length]
    · intro hsynced
      cases hsynced
    · obtain ⟨version, hloaded, hnext⟩ := hkept.next
      rw [hrest, ← List.append_assoc] at hnext
      exact ⟨version, hloaded, hnext⟩

omit [DecidableEq N] in
theorem Lockup.Sound.sync (h : s.Sound files Next first)
    (hholder : s.holders w = some holder)
    (hdraft : holder.draft = some draft) :
    Lockup.Sound files Next first { s with
      disk := s.disk.sync draft.handle
      holders := Function.update s.holders w (some { holder with
        draft := some { draft with synced := true } }) } := by
  have hkept := h.drafts w holder draft hholder hdraft
  apply h.of_holder hholder
  · exact read_congr (d := s.disk) rfl fun i _ => rfl
  · intro i hi
    have hne : i ≠ draft.handle := target_ne_handle hkept.name hi
    exact (Function.update_of_ne hne _ _).trans (h.durable i hi)
  · intro version hversion
    exact h.current w holder version hholder hversion
  · intro moved hmoved
    cases hmoved
    refine ⟨hkept.name, hkept.contents, ?_, hkept.next⟩
    intro _
    exact Function.update_self draft.handle true s.disk.durable

theorem Lockup.Sound.rename (h : s.Sound files Next first)
    (hholder : s.holders w = some holder) {version : Option (List UInt8)}
    (hloaded : holder.loaded = some version)
    (hdraft : holder.draft = some draft) (hrest : draft.rest = [])
    (hsynced : draft.synced = true)
    (hrename : s.disk.rename files.tmp files.target = some d) :
    Lockup.Sound files Next first
      ⟨d, s.lock, Function.update s.holders w
          (some ⟨some (some draft.written), none⟩),
        s.saves ++ [(version, draft.written)]⟩ := by
  have hkept := h.drafts w holder draft hholder hdraft
  obtain ⟨i, hi, htarget, -, -, hcontents, hdurable, -⟩ :=
    Disk.rename_eq_some hrename
  rw [hkept.name, Option.some.injEq] at hi
  subst hi
  have hread : d.read files.target = some draft.written := by
    unfold Disk.read
    rw [htarget, Option.map_some, hcontents, hkept.contents]
  constructor
  · intro w' holder' hother
    obtain ⟨rfl, -⟩ | ⟨-, hother⟩ := holders_update hother
    · exact h.held _ holder hholder
    · exact h.held w' holder' hother
  · intro w' holder' version' hother hversion
    dsimp only
    obtain ⟨-, heq⟩ | ⟨hw, hother⟩ := holders_update hother
    · cases heq
      cases hversion
      exact hread
    · exact absurd (h.alone hholder hother) hw
  · intro w' holder' other hother hmoved
    obtain ⟨-, heq⟩ | ⟨hw, hother⟩ := holders_update hother
    · cases heq
      cases hmoved
    · exact absurd (h.alone hholder hother) hw
  · intro j hj
    dsimp only at hj ⊢
    rw [htarget, Option.some.injEq] at hj
    rw [← hj, hdurable]
    exact hkept.durable hsynced
  · have hversion := h.current w holder version hholder hloaded
    dsimp only
    rw [hread, ← hversion]
    exact h.linked.snoc
  · intro save hsave
    rw [List.mem_append, List.mem_singleton] at hsave
    obtain hbefore | hlast := hsave
    · exact h.next save hbefore
    · subst hlast
      obtain ⟨version', hversion, hnext⟩ := hkept.next
      rw [hloaded, Option.some.injEq] at hversion
      rw [hrest, List.append_nil, ← hversion] at hnext
      exact hnext

theorem Lockup.Sound.step (h : s.Sound files Next first)
    (hstep : LockStep files Next s e s') : s'.Sound files Next first := by
  cases hstep with
  | @acquire w hidle hfree =>
      have htouched := h.touch
      constructor
      · intro w' holder hother
        obtain ⟨rfl, -⟩ | ⟨-, hother⟩ := holders_update hother
        · rfl
        · have hlock := h.held w' holder hother
          rw [hfree] at hlock
          cases hlock
      · intro w' holder version hother hversion
        obtain ⟨-, heq⟩ | ⟨-, hother⟩ := holders_update hother
        · cases heq
          cases hversion
        · exact htouched.current w' holder version hother hversion
      · intro w' holder draft hother hdraft
        obtain ⟨-, heq⟩ | ⟨-, hother⟩ := holders_update hother
        · cases heq
          cases hdraft
        · exact htouched.drafts w' holder draft hother hdraft
      · exact htouched.durable
      · exact htouched.linked
      · exact htouched.next
  | refused hidle hheld => exact h.touch
  | @load w holder hholder hnew =>
      apply h.of_holder hholder rfl h.durable
      · intro version hversion
        cases hversion
        rfl
      · intro draft hdraft
        obtain ⟨version, hloaded, -⟩ :=
          (h.drafts w holder draft hholder hdraft).next
        rw [hnew] at hloaded
        cases hloaded
  | create hholder hloaded hidle hnext =>
      exact h.create hholder hloaded hnext
  | write hholder hdraft hrest => exact h.write hholder hdraft hrest
  | sync hholder hdraft => exact h.sync hholder hdraft
  | rename hholder hloaded hdraft hrest hsynced hrename =>
      exact h.rename hholder hloaded hdraft hrest hsynced hrename
  | @abandon w holder hholder =>
      apply h.of_holder hholder rfl h.durable
      · intro version hversion
        exact h.current w holder version hholder hversion
      · intro draft hdraft
        cases hdraft
  | @exit w holder hholder =>
      have hgone : ∀ w' holder',
          Function.update s.holders w none w' ≠ some holder' := by
        intro w' holder' hother
        obtain ⟨-, heq⟩ | ⟨hw, hother⟩ := holders_update hother
        · cases heq
        · exact hw (h.alone hholder hother)
      constructor
      · intro w' holder' hother
        exact absurd hother (hgone w' holder')
      · intro w' holder' version hother
        exact absurd hother (hgone w' holder')
      · intro w' holder' draft hother
        exact absurd hother (hgone w' holder')
      · exact h.durable
      · exact h.linked
      · exact h.next

end Processes

end Storage
