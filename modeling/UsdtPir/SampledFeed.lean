import UsdtPir.FeedFollower

/-!
# A feed that is read now and then

A key is read at the end of a range of steps when one of them touches it, and
keeps its value otherwise.  Where the ranges end decides which values are read
in between, and for a key that changes only when it is touched not which one is
read last.
-/

namespace Following

universe u v

variable {K : Type u} {V : Type v} {F : Feed K V} {blank : V → Bool} {k : K}
    {lo hi last mid h h' origin : ℕ} {ends ends' : List ℕ}
    {held held' held₁ held₂ : Option V}

theorem Feed.TouchedIn.mono {lo' hi' : ℕ} (h : F.TouchedIn k lo hi)
    (hlo : lo' ≤ lo) (hhi : hi ≤ hi') : F.TouchedIn k lo' hi' := by
  rcases h with ⟨n, hn, hn', htouched⟩
  exact ⟨n, Nat.lt_of_le_of_lt hlo hn, hn'.trans hhi, htouched⟩

/-- What is held for a key after the ranges that end at `ends`. -/
inductive Sampled (F : Feed K V) (blank : V → Bool) (k : K) :
    ℕ → Option V → List ℕ → ℕ → Option V → Prop
  | nil (lo : ℕ) (held : Option V) : Sampled F blank k lo held [] lo held
  | cons {lo hi last : ℕ} {held middle held' : Option V} {ends : List ℕ}
      (hlt : lo < hi)
      (hread : F.TouchedIn k lo hi → middle = stored blank (F.value k hi))
      (hkept : ¬ F.TouchedIn k lo hi → middle = held)
      (hrest : Sampled F blank k hi middle ends last held') :
      Sampled F blank k lo held (hi :: ends) last held'

/-- The key is read for the last time at `h`, the end of the range that touches
it last. -/
structure LastRead (F : Feed K V) (k : K) (lo : ℕ) (ends : List ℕ) (last : ℕ)
    (h : ℕ) : Prop where
  mem : h ∈ ends
  le : h ≤ last
  touched : F.TouchedIn k lo h
  own : ∀ n ∈ ends, n < h → F.TouchedIn k n h
  after : ¬ F.TouchedIn k h last

theorem Sampled.le (h : Sampled F blank k lo held ends last held') :
    lo ≤ last := by
  induction h with
  | nil lo held => exact le_rfl
  | cons hlt hread hkept hrest ih => exact hlt.le.trans ih

theorem Sampled.mem_bounds (h : Sampled F blank k lo held ends last held') :
    ∀ n ∈ ends, lo < n ∧ n ≤ last := by
  induction h with
  | nil lo held =>
      intro n hn
      cases hn
  | cons hlt hread hkept hrest ih =>
      intro n hn
      rcases List.mem_cons.mp hn with rfl | hn
      · exact ⟨hlt, hrest.le⟩
      · exact ⟨hlt.trans (ih n hn).1, (ih n hn).2⟩

/-- A key that no step touches keeps its value. -/
theorem Sampled.kept (h : Sampled F blank k lo held ends last held')
    (huntouched : ¬ F.TouchedIn k lo last) : held' = held := by
  induction h with
  | nil lo held => rfl
  | @cons lo hi last held middle held' ends hlt hread hkept hrest ih =>
      have hfirst : ¬ F.TouchedIn k lo hi :=
        fun h => huntouched (h.mono le_rfl hrest.le)
      have hlater : ¬ F.TouchedIn k hi last :=
        fun h => huntouched (h.mono hlt.le le_rfl)
      rw [ih hlater, hkept hfirst]

/-- A key that some step touches has the value of its last reading. -/
theorem Sampled.read (h : Sampled F blank k lo held ends last held')
    (htouched : F.TouchedIn k lo last) :
    ∃ n, LastRead F k lo ends last n ∧ held' = stored blank (F.value k n) := by
  induction h with
  | nil lo held => exact absurd htouched (F.not_touchedIn_self k le_rfl)
  | @cons lo hi last held middle held' ends hlt hread hkept hrest ih =>
      by_cases hlater : F.TouchedIn k hi last
      · rcases ih hlater with ⟨n, hn, hheld⟩
        refine ⟨n, ?_, hheld⟩
        constructor
        · exact List.mem_cons_of_mem hi hn.mem
        · exact hn.le
        · exact hn.touched.mono hlt.le le_rfl
        · intro m hm hmn
          rcases List.mem_cons.mp hm with rfl | hm
          · exact hn.touched
          · exact hn.own m hm hmn
        · exact hn.after
      · have hfirst : F.TouchedIn k lo hi := by
          rcases (Feed.touchedIn_split hlt.le hrest.le).mp htouched with
            hfirst | hthen
          · exact hfirst
          · exact absurd hthen hlater
        refine ⟨hi, ?_, ?_⟩
        · constructor
          · exact List.mem_cons_self
          · exact hrest.le
          · exact hfirst
          · intro m hm hmn
            rcases List.mem_cons.mp hm with rfl | hm
            · exact absurd hmn (lt_irrefl _)
            · exact absurd (hrest.mem_bounds m hm).1 hmn.asymm
          · exact hlater
        · rw [hrest.kept hlater, hread hfirst]

theorem LastRead.unique (hn : LastRead F k lo ends last h)
    (hm : LastRead F k lo ends last h') : h = h' := by
  rcases Nat.lt_trichotomy h h' with hlt | heq | hlt
  · exact absurd ((hm.own h hn.mem hlt).mono le_rfl hm.le) hn.after
  · exact heq
  · exact absurd ((hn.own h' hm.mem hlt).mono le_rfl hn.le) hm.after

/-- A quiet key that is touched has the value of the last step, wherever the
ranges end. -/
theorem Sampled.current (hquiet : F.QuietAt k)
    (h : Sampled F blank k lo held ends last held')
    (htouched : F.TouchedIn k lo last) :
    held' = stored blank (F.value k last) := by
  rcases h.read htouched with ⟨n, hn, hheld⟩
  rw [hheld, Feed.value_eq_of_untouched hquiet hn.le hn.after]

/-- Going back to `lo` before going on to `last` makes no difference to a quiet
key that was current. -/
theorem Sampled.rejoins (hquiet : F.QuietAt k) (hlo : lo ≤ mid)
    (hknown : F.TouchedIn k lo mid → held = stored blank (F.value k mid))
    (h : Sampled F blank k lo held ends last held₁)
    (h' : Sampled F blank k mid held ends' last held₂) : held₁ = held₂ := by
  by_cases hnew : F.TouchedIn k mid last
  · rw [h.current hquiet (hnew.mono hlo le_rfl), h'.current hquiet hnew]
  · rw [h'.kept hnew]
    by_cases hold : F.TouchedIn k lo mid
    · rw [h.current hquiet (hold.mono le_rfl h'.le), hknown hold,
        Feed.value_eq_of_untouched hquiet h'.le hnew]
    · apply h.kept
      rw [Feed.touchedIn_split hlo h'.le]
      exact not_or.mpr ⟨hold, hnew⟩

/-- Going back to `lo` and no further than `last` changes nothing exactly when
the last reading is what was held. -/
theorem Sampled.unchanged_iff (h : Sampled F blank k lo held ends last held') :
    held' = held ↔ ∀ n, LastRead F k lo ends last n →
      stored blank (F.value k n) = held := by
  by_cases htouched : F.TouchedIn k lo last
  · rcases h.read htouched with ⟨n, hn, hheld⟩
    constructor
    · intro hsame m hm
      rw [hm.unique hn, ← hheld, hsame]
    · intro hall
      rw [hheld]
      exact hall n hn
  · constructor
    · intro _ n hn
      exact absurd (hn.touched.mono le_rfl hn.le) htouched
    · intro _
      exact h.kept htouched

theorem stored_injective {value w : V}
    (hblank : ∀ {x y : V}, blank x = true → blank y = true → x = y)
    (h : stored blank value = stored blank w) : value = w := by
  unfold stored at h
  split at h
  · rename_i hvalue
    split at h
    · rename_i hw
      exact hblank hvalue hw
    · cases h
  · split at h
    · cases h
    · exact Option.some.inj h

/-- For a quiet key that was current at `mid` that is the question whether its
value at `last` is the one at `mid`. -/
theorem Sampled.unchanged_iff_value (hquiet : F.QuietAt k)
    (hblank : ∀ {x y : V}, blank x = true → blank y = true → x = y)
    (hknown : F.TouchedIn k lo last → held = stored blank (F.value k mid))
    (h : Sampled F blank k lo held ends last held') :
    held' = held ↔
      (F.TouchedIn k lo last → F.value k last = F.value k mid) := by
  constructor
  · intro hsame htouched
    apply stored_injective hblank
    rw [← hknown htouched, ← hsame, h.current hquiet htouched]
  · intro hvalue
    by_cases htouched : F.TouchedIn k lo last
    · rw [h.current hquiet htouched, hvalue htouched, hknown htouched]
    · exact h.kept htouched

end Following
