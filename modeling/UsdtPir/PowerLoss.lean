import UsdtPir.LockedWriters

/-!
# Power losses

The writers sync their file before they rename it, but nobody syncs the
directory.  So a power loss may undo the last changes of the names: the disk
comes back with the names of an earlier point, and the files they had then are
whole.
-/

namespace Storage

universe u v

/-- What a power loss leaves of a disk: the names of an earlier one, and what has
been synced. -/
structure Disk.Lost {N : Type u} (d before d' : Disk N) : Prop where
  names : d'.names = before.names
  contents : ∀ i, d.durable i = true → d'.contents i = d.contents i
  durable : ∀ i, d.durable i = true → d'.durable i = true

/-- The processes, and what has been since the last power loss, latest first. -/
structure Powered (N : Type u) (W : Type v) where
  now : Lockup N W
  past : List (Lockup N W)

def Powered.start {N : Type u} {W : Type v} (d : Disk N) : Powered N W :=
  ⟨.start d, []⟩

inductive PowerEvent (W : Type v)
  | call (e : LockEvent W)
  | powerLoss

section Losses

variable {N : Type u} {W : Type v} [DecidableEq N] [DecidableEq W]

/-- The versions whose rename is undone are not on record any more. -/
inductive PowerStep (files : Guarded N)
    (Next : Option (List UInt8) → List UInt8 → Prop) :
    Powered N W → PowerEvent W → Powered N W → Prop
  | call {m : Powered N W} {e : LockEvent W} {s : Lockup N W}
      (hcall : LockStep files Next m.now e s) :
      PowerStep files Next m (.call e) ⟨s, m.now :: m.past⟩
  | powerLoss {m : Powered N W} {before : Lockup N W} {d : Disk N}
      (hbefore : before ∈ m.now :: m.past)
      (hlost : m.now.disk.Lost before.disk d) :
      PowerStep files Next m .powerLoss
        ⟨⟨d, none, fun _ => none, before.saves⟩, []⟩

variable {files : Guarded N} {Next : Option (List UInt8) → List UInt8 → Prop}
    {first : Option (List UInt8)} {s s' before : Lockup N W} {e : LockEvent W}
    {m m' : Powered N W} {pe : PowerEvent W} {es : List (PowerEvent W)}
    {d d' : Disk N} {p q : N} {i : ℕ}

/-! ## Files that nobody writes any more -/

/-- A file that is on the disk to stay: it is not the temporary one. -/
structure Sealed (files : Guarded N) (d : Disk N) (i : ℕ) : Prop where
  lt : i < d.fresh
  unnamed : d.names files.tmp ≠ some i
  durable : d.durable i = true

omit [DecidableEq N] in
theorem sealed_target (hdurable : d.Durable files.target)
    (hi : d.names files.target = some i) : Sealed files d i := by
  refine ⟨d.names_lt hi, ?_, hdurable i hi⟩
  intro htmp
  exact files.tmp_ne_target (d.injective htmp hi)

theorem fresh_touch_le : d.fresh ≤ (d.touch p).fresh := by
  unfold Disk.touch
  cases hp : d.names p with
  | some j => exact Nat.le_refl _
  | none => exact Nat.le_succ _

theorem fresh_create_le : d.fresh ≤ (d.create p).1.fresh := by
  unfold Disk.create
  cases hp : d.names p with
  | some j => exact Nat.le_refl _
  | none => exact Nat.le_succ _

theorem Sealed.touch (h : Sealed files d i) :
    Sealed files (d.touch files.lock) i ∧
      (d.touch files.lock).contents i = d.contents i := by
  refine ⟨⟨Nat.lt_of_lt_of_le h.lt fresh_touch_le, ?_, ?_⟩,
    Disk.contents_touch h.lt⟩
  · rw [Disk.names_touch_of_ne files.lock_ne_tmp.symm]
    exact h.unnamed
  · rw [Disk.durable_touch h.lt]
    exact h.durable

theorem Sealed.ne_create (h : Sealed files d i) :
    i ≠ (d.create files.tmp).2 := by
  have hunnamed := h.unnamed
  unfold Disk.create
  cases htmp : d.names files.tmp with
  | some j =>
      intro heq
      rw [htmp, heq] at hunnamed
      exact hunnamed rfl
  | none => exact Nat.ne_of_lt h.lt

theorem Sealed.create (h : Sealed files d i) :
    Sealed files (d.create files.tmp).1 i ∧
      (d.create files.tmp).1.contents i = d.contents i := by
  refine ⟨⟨Nat.lt_of_lt_of_le h.lt fresh_create_le, ?_, ?_⟩,
    Disk.contents_create_of_ne h.ne_create⟩
  · rw [Disk.names_create_self, Ne, Option.some.injEq]
    exact h.ne_create.symm
  · rw [Disk.durable_create_of_ne h.ne_create]
    exact h.durable

omit [DecidableEq N] [DecidableEq W] in
theorem Sealed.ne_handle {w : W} {holder : Holder N} {draft : OpenFile N}
    (h : Sealed files s.disk i) (hsound : s.Sound files Next first)
    (hholder : s.holders w = some holder)
    (hdraft : holder.draft = some draft) : i ≠ draft.handle := by
  intro heq
  rw [heq] at h
  exact h.unnamed (hsound.drafts w holder draft hholder hdraft).name

/-- No call touches such a file. -/
theorem Sealed.step (h : Sealed files s.disk i)
    (hsound : s.Sound files Next first) (hstep : LockStep files Next s e s') :
    Sealed files s'.disk i ∧ s'.disk.contents i = s.disk.contents i := by
  cases hstep with
  | acquire hidle hfree => exact h.touch
  | refused hidle hheld => exact h.touch
  | load hholder hnew => exact ⟨h, rfl⟩
  | create hholder hloaded hidle hnext => exact h.create
  | write hholder hdraft hrest =>
      have hne := h.ne_handle hsound hholder hdraft
      refine ⟨⟨h.lt, h.unnamed, ?_⟩, Function.update_of_ne hne _ _⟩
      exact (Function.update_of_ne hne _ _).trans h.durable
  | sync hholder hdraft =>
      have hne := h.ne_handle hsound hholder hdraft
      refine ⟨⟨h.lt, h.unnamed, ?_⟩, rfl⟩
      exact (Function.update_of_ne hne _ _).trans h.durable
  | rename hholder hloaded hdraft hrest hsynced hrename =>
      obtain ⟨j, -, -, -, hgone, hcontents, hdurable, hfresh⟩ :=
        Disk.rename_eq_some hrename
      refine ⟨⟨?_, ?_, ?_⟩, congrFun hcontents i⟩
      · rw [hfresh]
        exact h.lt
      · rw [hgone files.tmp_ne_target]
        intro hsome
        cases hsome
      · rw [hdurable]
        exact h.durable
  | abandon hholder => exact ⟨h, rfl⟩
  | exit hholder => exact ⟨h, rfl⟩

/-- A call adds at most one version to the record. -/
theorem LockStep.saves_prefix (hstep : LockStep files Next s e s') :
    s.saves <+: s'.saves := by
  cases hstep with
  | rename hholder hloaded hdraft hrest hsynced hrename =>
      exact List.prefix_append s.saves _
  | acquire hidle hfree => exact List.prefix_rfl
  | refused hidle hheld => exact List.prefix_rfl
  | load hholder hnew => exact List.prefix_rfl
  | create hholder hloaded hidle hnext => exact List.prefix_rfl
  | write hholder hdraft hrest => exact List.prefix_rfl
  | sync hholder hdraft => exact List.prefix_rfl
  | abandon hholder => exact List.prefix_rfl
  | exit hholder => exact List.prefix_rfl

/-! ## What a power loss may go back to -/

/-- An earlier point of the same chain of versions, and its target is still on
the disk. -/
structure Undoable (files : Guarded N)
    (Next : Option (List UInt8) → List UInt8 → Prop)
    (first : Option (List UInt8)) (s before : Lockup N W) : Prop where
  linked : Linked first before.saves (before.disk.read files.target)
  next : ∀ save ∈ before.saves, Next save.1 save.2
  back : before.saves <+: s.saves
  kept : ∀ i, before.disk.names files.target = some i →
    Sealed files s.disk i ∧ s.disk.contents i = before.disk.contents i

omit [DecidableEq N] [DecidableEq W] in
theorem Lockup.Sound.undoable (h : s.Sound files Next first) :
    Undoable files Next first s s :=
  ⟨h.linked, h.next, List.prefix_rfl,
    fun _ hi => ⟨sealed_target h.durable hi, rfl⟩⟩

theorem Undoable.step (h : Undoable files Next first s before)
    (hsound : s.Sound files Next first) (hstep : LockStep files Next s e s') :
    Undoable files Next first s' before := by
  refine ⟨h.linked, h.next, h.back.trans hstep.saves_prefix, ?_⟩
  intro i hi
  obtain ⟨hsealed, hcontents⟩ := h.kept i hi
  obtain ⟨hsealed', hcontents'⟩ := hsealed.step hsound hstep
  exact ⟨hsealed', hcontents'.trans hcontents⟩

omit [DecidableEq N] [DecidableEq W] in
/-- The target is what it was then, whole. -/
theorem Undoable.lost (h : Undoable files Next first s before)
    (hlost : s.disk.Lost before.disk d) :
    Lockup.Sound files Next first
      (⟨d, none, fun _ => none, before.saves⟩ : Lockup N W) := by
  have hread : d.read files.target = before.disk.read files.target := by
    apply read_congr (congrFun hlost.names files.target)
    intro i hi
    obtain ⟨hsealed, hcontents⟩ := h.kept i hi
    exact (hlost.contents i hsealed.durable).trans hcontents
  constructor
  · intro w holder hother
    cases hother
  · intro w holder version hother
    cases hother
  · intro w holder draft hother
    cases hother
  · intro i hi
    dsimp only at hi ⊢
    rw [hlost.names] at hi
    exact hlost.durable i (h.kept i hi).1.durable
  · dsimp only
    rw [hread]
    exact h.linked
  · exact h.next

structure Powered.Sound (files : Guarded N)
    (Next : Option (List UInt8) → List UInt8 → Prop)
    (first : Option (List UInt8)) (m : Powered N W) : Prop where
  now : m.now.Sound files Next first
  past : ∀ before ∈ m.past, Undoable files Next first m.now before

theorem Powered.Sound.step (h : m.Sound files Next first)
    (hstep : PowerStep files Next m pe m') : m'.Sound files Next first := by
  cases hstep with
  | call hcall =>
      refine ⟨h.now.step hcall, ?_⟩
      intro before hbefore
      obtain rfl | hpast := List.mem_cons.mp hbefore
      · exact h.now.undoable.step h.now hcall
      · exact (h.past before hpast).step h.now hcall
  | @powerLoss before d hbefore hlost =>
      have hundoable : Undoable files Next first m.now before := by
        obtain rfl | hpast := List.mem_cons.mp hbefore
        · exact h.now.undoable
        · exact h.past before hpast
      refine ⟨hundoable.lost hlost, ?_⟩
      intro other hother
      cases hother

theorem Powered.Sound.run (h : m.Sound files Next first)
    (hrun : Machine.Run (PowerStep files Next) m es m') :
    m'.Sound files Next first :=
  hrun.invariant (P := Powered.Sound files Next first) h
    fun hstep hs => hs.step hstep

end Losses

end Storage
