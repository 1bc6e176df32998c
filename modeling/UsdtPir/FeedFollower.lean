import Mathlib.Algebra.Order.Group.Nat

/-!
# Following a feed that may be rewritten

A feed gives every key a value at every step and says which keys each step
touches.  A follower keeps a partial view of it: it refreshes the keys touched
by a range of steps, remembers them for a while, and can rewind when the feed
turns out to have been replaced.  Every notion is about one key at a time, so
a law assumed of one key gives the results for that key.
-/

namespace Following

universe u v

variable {K : Type u} {V : Type v}

/-- The value of a key at every step, and the steps that touch it. -/
structure Feed (K : Type u) (V : Type v) where
  value : K → ℕ → V
  touched : ℕ → K → Prop

namespace Feed

/-- The key changes only at steps that touch it. -/
def QuietAt (F : Feed K V) (k : K) : Prop :=
  ∀ n, ¬ F.touched (n + 1) k → F.value k (n + 1) = F.value k n

/-- Some step after `lo` and up to `hi` touches the key. -/
def TouchedIn (F : Feed K V) (k : K) (lo hi : ℕ) : Prop :=
  ∃ n, lo < n ∧ n ≤ hi ∧ F.touched n k

/-- Some step after `start` and up to `n` touches the key; without a `start`
the key needs no touch. -/
def KnownBy (F : Feed K V) (start : Option ℕ) (k : K) (n : ℕ) : Prop :=
  ∀ m, start = some m → F.TouchedIn k m n

/-- The two feeds are the same for the key up to step `n`. -/
def AgreeAt (F G : Feed K V) (k : K) (n : ℕ) : Prop :=
  ∀ m ≤ n, F.value k m = G.value k m ∧ (F.touched m k ↔ G.touched m k)

variable {F G : Feed K V} {k : K} {lo mid hi n : ℕ}

theorem value_eq_of_untouched (hquiet : F.QuietAt k) (hle : lo ≤ hi)
    (huntouched : ¬ F.TouchedIn k lo hi) : F.value k hi = F.value k lo := by
  induction hi, hle using Nat.le_induction with
  | base => rfl
  | succ hi hle ih =>
      have hstep : ¬ F.touched (hi + 1) k := by
        intro htouched
        exact huntouched ⟨hi + 1, by omega, le_rfl, htouched⟩
      have hbefore : ¬ F.TouchedIn k lo hi := by
        rintro ⟨m, hlo, hhi, htouched⟩
        exact huntouched ⟨m, hlo, by omega, htouched⟩
      rw [hquiet hi hstep, ih hbefore]

theorem touchedIn_split (hlo : lo ≤ mid) (hmid : mid ≤ hi) :
    F.TouchedIn k lo hi ↔ F.TouchedIn k lo mid ∨ F.TouchedIn k mid hi := by
  constructor
  · rintro ⟨m, hm, hm', htouched⟩
    by_cases hle : m ≤ mid
    · exact .inl ⟨m, hm, hle, htouched⟩
    · exact .inr ⟨m, by omega, hm', htouched⟩
  · rintro (⟨m, hm, hm', htouched⟩ | ⟨m, hm, hm', htouched⟩)
    · exact ⟨m, hm, by omega, htouched⟩
    · exact ⟨m, by omega, hm', htouched⟩

theorem not_touchedIn_self (F : Feed K V) (k : K) (hle : hi ≤ lo) :
    ¬ F.TouchedIn k lo hi := by
  rintro ⟨m, hm, hm', -⟩
  omega

theorem knownBy_some {start : ℕ} :
    F.KnownBy (some start) k hi ↔ F.TouchedIn k start hi := by
  simp [KnownBy]

theorem KnownBy.mono {start : Option ℕ} (h : F.KnownBy start k lo)
    (hle : lo ≤ hi) : F.KnownBy start k hi := by
  intro m hm
  obtain ⟨n, hn, hn', htouched⟩ := h m hm
  exact ⟨n, hn, by omega, htouched⟩

/-- A key that becomes known is touched meanwhile. -/
theorem KnownBy.of_untouched {start : Option ℕ} (h : F.KnownBy start k hi)
    (huntouched : ¬ F.TouchedIn k lo hi) : F.KnownBy start k lo := by
  intro m hm
  obtain ⟨n, hn, hn', htouched⟩ := h m hm
  refine ⟨n, hn, ?_, htouched⟩
  by_contra hlt
  exact huntouched ⟨n, by omega, hn', htouched⟩

theorem AgreeAt.mono (h : AgreeAt F G k n) (hle : mid ≤ n) :
    AgreeAt F G k mid :=
  fun m hm => h m (hm.trans hle)

theorem AgreeAt.touchedIn_iff (h : AgreeAt F G k hi) :
    F.TouchedIn k lo hi ↔ G.TouchedIn k lo hi := by
  constructor
  · rintro ⟨m, hm, hm', htouched⟩
    exact ⟨m, hm, hm', (h m hm').2.mp htouched⟩
  · rintro ⟨m, hm, hm', htouched⟩
    exact ⟨m, hm, hm', (h m hm').2.mpr htouched⟩

theorem AgreeAt.knownBy_iff {start : Option ℕ} (h : AgreeAt F G k hi) :
    F.KnownBy start k hi ↔ G.KnownBy start k hi :=
  forall₂_congr fun _ _ => h.touchedIn_iff

end Feed

/-! ## The follower -/

/-- What a follower keeps: the stored values, the last step it has folded in,
and the keys it refreshed lately, batch by batch. -/
structure Follower (K : Type u) (V : Type v) where
  view : K → Option V
  cursor : ℕ
  recent : List (ℕ × List K)

/-- Values that are not stored are told by `blank`. -/
def stored (blank : V → Bool) (value : V) : Option V :=
  if blank value then none else some value

theorem eq_of_stored_eq_some {blank : V → Bool} {value w : V}
    (h : stored blank value = some w) : value = w := by
  unfold stored at h
  split at h
  · cases h
  · exact Option.some.inj h

/-- Some batch reaching at least to step `n` names the key. -/
def Follower.Remembers (s : Follower K V) (k : K) (n : ℕ) : Prop :=
  ∃ batch ∈ s.recent, n ≤ batch.1 ∧ k ∈ batch.2

/-- Some batch names the key. -/
def Follower.Recalls (s : Follower K V) (k : K) : Prop :=
  ∃ batch ∈ s.recent, k ∈ batch.2

/-- The steps after the cursor up to `hi` were folded in. -/
structure Refreshed (F : Feed K V) (blank : V → Bool) (hi : ℕ)
    (s s' : Follower K V) : Prop where
  lt : s.cursor < hi
  cursor : s'.cursor = hi
  touched : ∀ k, F.TouchedIn k s.cursor hi →
    s'.view k = stored blank (F.value k hi)
  untouched : ∀ k, ¬ F.TouchedIn k s.cursor hi → s'.view k = s.view k
  remembered : ∀ k, F.TouchedIn k s.cursor hi → s'.Remembers k hi
  kept : ∀ k n, s.Remembers k n → s'.Remembers k n
  only : ∀ k, s'.Recalls k → s.Recalls k ∨ F.TouchedIn k s.cursor hi

/-- The recalled keys were read at step `r`, and everything after it was
forgotten. -/
structure Rewound (F : Feed K V) (blank : V → Bool) (r : ℕ)
    (s s' : Follower K V) : Prop where
  cursor : s'.cursor = r
  recalled : ∀ k, s.Recalls k → s'.view k = stored blank (F.value k r)
  other : ∀ k, ¬ s.Recalls k → s'.view k = s.view k
  forgotten : s'.recent = []

/-- The batches that end before `floor` were dropped. -/
structure Trimmed (floor : ℕ) (s s' : Follower K V) : Prop where
  view : s'.view = s.view
  cursor : s'.cursor = s.cursor
  kept : ∀ k n, floor ≤ n → s.Remembers k n → s'.Remembers k n
  only : ∀ k, s'.Recalls k → s.Recalls k

/-- The steps after the cursor were folded in from feeds that are the same as
this one up to `level`. -/
structure Blended (F : Feed K V) (level : ℕ) (s s' : Follower K V) : Prop where
  cursor : s.cursor ≤ s'.cursor
  kept : ∀ k, s.Recalls k → s'.Recalls k
  other : ∀ k, ¬ s'.Recalls k → s'.view k = s.view k ∧
    ¬ F.TouchedIn k s.cursor (min s'.cursor level)

/-! ## What holds of a follower, key by key -/

/-- The key is stored with the value it has at the cursor, if it is stored. -/
def Current (F : Feed K V) (k : K) (s : Follower K V) : Prop :=
  ∀ value, s.view k = some value → value = F.value k s.cursor

/-- A key touched since `start` is stored unless its value is blank. -/
def Known (F : Feed K V) (blank : V → Bool) (start : Option ℕ) (k : K)
    (s : Follower K V) : Prop :=
  F.KnownBy start k s.cursor →
    s.view k = stored blank (F.value k s.cursor)

/-- Step `n` comes after `start`. -/
def Counts (start : Option ℕ) (n : ℕ) : Prop :=
  ∀ m, start = some m → m < n

/-- A key touched after `floor` is remembered, if it is stored or the step
that touched it comes after `start`. -/
def Covered (F : Feed K V) (floor : ℕ) (start : Option ℕ) (k : K)
    (s : Follower K V) : Prop :=
  ∀ n, floor < n → n ≤ s.cursor → F.touched n k →
    (Counts start n ∨ s.view k ≠ none) → s.Remembers k n

/-- The key is right at the cursor, or a step up to `mark` that is yet to be
folded in will refresh it. -/
def Settled (F : Feed K V) (blank : V → Bool) (start : Option ℕ) (mark : ℕ)
    (k : K) (s : Follower K V) : Prop :=
  (Current F k s ∧ Known F blank start k s) ∨ F.TouchedIn k s.cursor mark

/-- The state of a key between two attempts.  No later attempt has a target
below `limit`, and an armed follower can rewind by `window`. -/
structure Guarded (F : Feed K V) (blank : V → Bool) (start : Option ℕ)
    (base window limit : ℕ) (armed : Prop) (k : K)
    (s : Follower K V) : Prop where
  settled : Settled F blank start base k s
  covered : Covered F (max base (limit - window)) start k s
  behind : s.cursor < base → base ≤ limit
  ready : armed → Covered F (max base (s.cursor - window)) start k s ∧
    s.cursor - window ≤ max base (limit - window) ∧
    (s.cursor - window < base → base ≤ limit)

/-- The key is neither stored nor remembered, and the follower cannot rewind
further than `window` below `start`. -/
structure Unseen (start window limit : ℕ) (armed : Prop) (k : K)
    (s : Follower K V) : Prop where
  view : s.view k = none
  recalled : ¬ s.Recalls k
  low : start - window ≤ s.cursor
  ready : armed → start ≤ s.cursor ∧ start ≤ limit
  behind : s.cursor < start → start ≤ limit

section Laws

variable {F G : Feed K V} {blank : V → Bool} {k : K} {s s' : Follower K V}
    {start : Option ℕ} {floor hi r mark base window limit : ℕ} {armed : Prop}

theorem Counts.mono {m n : ℕ} (h : Counts start m) (hle : m ≤ n) :
    Counts start n :=
  fun first hfirst => (h first hfirst).trans_le hle

/-- Only steps after `start` make a key known. -/
theorem Feed.KnownBy.counts {n : ℕ} (h : F.KnownBy start k n) :
    Counts start (n + 1) := by
  intro m hm
  obtain ⟨first, hlt, hle, -⟩ := h m hm
  omega

theorem Follower.Remembers.recalls {n : ℕ} (h : s.Remembers k n) :
    s.Recalls k := by
  obtain ⟨batch, hbatch, -, hk⟩ := h
  exact ⟨batch, hbatch, hk⟩

theorem Follower.Remembers.mono {m n : ℕ} (h : s.Remembers k n)
    (hle : m ≤ n) : s.Remembers k m := by
  obtain ⟨batch, hbatch, hn, hk⟩ := h
  exact ⟨batch, hbatch, hle.trans hn, hk⟩

theorem Covered.mono (h : Covered F floor start k s) {floor' : ℕ}
    (hle : floor ≤ floor') : Covered F floor' start k s :=
  fun n hn hcursor htouched hor => h n (by omega) hcursor htouched hor

/-! ### Refreshing -/

theorem Current.refreshed (hquiet : F.QuietAt k) (h : Current F k s)
    (href : Refreshed F blank hi s s') : Current F k s' := by
  intro value hvalue
  rw [href.cursor]
  by_cases htouched : F.TouchedIn k s.cursor hi
  · rw [href.touched k htouched] at hvalue
    exact (eq_of_stored_eq_some hvalue).symm
  · rw [href.untouched k htouched] at hvalue
    rw [Feed.value_eq_of_untouched hquiet href.lt.le htouched]
    exact h value hvalue

theorem Known.refreshed (hquiet : F.QuietAt k)
    (h : Known F blank start k s) (href : Refreshed F blank hi s s') :
    Known F blank start k s' := by
  intro hin
  rw [href.cursor] at hin ⊢
  by_cases htouched : F.TouchedIn k s.cursor hi
  · exact href.touched k htouched
  · rw [href.untouched k htouched, h (hin.of_untouched htouched),
      Feed.value_eq_of_untouched hquiet href.lt.le htouched]

theorem Covered.refreshed (h : Covered F floor start k s)
    (href : Refreshed F blank hi s s') : Covered F floor start k s' := by
  intro n hn hcursor htouched hor
  rw [href.cursor] at hcursor
  by_cases hin : F.TouchedIn k s.cursor hi
  · exact (href.remembered k hin).mono hcursor
  · have hold : n ≤ s.cursor := by
      by_contra hlt
      exact hin ⟨n, by omega, hcursor, htouched⟩
    rw [href.untouched k hin] at hor
    exact href.kept k n (h n hn hold htouched hor)

/-- A key whose value of the last step is stored is right. -/
theorem right_of_stored (hview : s.view k = stored blank (F.value k s.cursor)) :
    Current F k s ∧ Known F blank start k s := by
  constructor
  · intro value hvalue
    rw [hview] at hvalue
    exact (eq_of_stored_eq_some hvalue).symm
  · intro _
    exact hview

theorem Settled.refreshed (hquiet : F.QuietAt k)
    (h : Settled F blank start mark k s) (href : Refreshed F blank hi s s') :
    Settled F blank start mark k s' := by
  by_cases htouched : F.TouchedIn k s.cursor hi
  · have hview : s'.view k = stored blank (F.value k s'.cursor) := by
      rw [href.touched k htouched, href.cursor]
    exact .inl (right_of_stored hview)
  · rcases h with ⟨hcurrent, hknown⟩ | ⟨n, hn, hmark, hin⟩
    · exact .inl ⟨hcurrent.refreshed hquiet href,
        hknown.refreshed hquiet href⟩
    · right
      rw [href.cursor]
      refine ⟨n, ?_, hmark, hin⟩
      by_contra hle
      exact htouched ⟨n, hn, by omega, hin⟩

/-- Refreshing up to a target within the limit keeps a key guarded. -/
theorem Guarded.refreshed (hquiet : F.QuietAt k)
    (h : Guarded F blank start base window limit armed k s)
    (href : Refreshed F blank hi s s') (hhi : hi ≤ limit) :
    Guarded F blank start base window limit armed k s' := by
  have hlt : s.cursor < hi := href.lt
  have hcursor : s'.cursor = hi := href.cursor
  have hbehind : s'.cursor < base → base ≤ limit := by
    intro hbase
    exact h.behind (by omega)
  refine ⟨h.settled.refreshed hquiet href, h.covered.refreshed href, hbehind,
    fun harmed => ?_⟩
  obtain ⟨hcovered, -, hbase⟩ := h.ready harmed
  rw [hcursor]
  exact ⟨(hcovered.mono (by omega)).refreshed href, by omega,
    fun hlt' => hbase (by omega)⟩

/-! ### Trimming -/

theorem Current.trimmed (h : Current F k s) (htrim : Trimmed r s s') :
    Current F k s' := by
  intro value hvalue
  rw [htrim.cursor]
  rw [htrim.view] at hvalue
  exact h value hvalue

theorem Known.trimmed (h : Known F blank start k s)
    (htrim : Trimmed r s s') : Known F blank start k s' := by
  intro hin
  rw [htrim.cursor] at hin ⊢
  rw [htrim.view]
  exact h hin

theorem Covered.trimmed (h : Covered F floor start k s)
    (htrim : Trimmed r s s') (hr : r ≤ floor) : Covered F floor start k s' := by
  intro n hn hcursor htouched hor
  rw [htrim.cursor] at hcursor
  rw [htrim.view] at hor
  exact htrim.kept k n (by omega) (h n hn hcursor htouched hor)

theorem Settled.trimmed (h : Settled F blank start mark k s)
    (htrim : Trimmed r s s') : Settled F blank start mark k s' := by
  rcases h with ⟨hcurrent, hknown⟩ | hahead
  · exact .inl ⟨hcurrent.trimmed htrim, hknown.trimmed htrim⟩
  · right
    rw [htrim.cursor]
    exact hahead

/-- A follower that reached its limit and trimmed its memory is armed. -/
theorem Guarded.trimmed (h : Guarded F blank start base window limit armed k s)
    (hlimit : s.cursor = limit) (htrim : Trimmed (s.cursor - window) s s') :
    Guarded F blank start base window limit True k s' := by
  have hcursor : s'.cursor = limit := by rw [htrim.cursor, hlimit]
  have hbase : base ≤ limit := by
    by_contra hlt
    exact hlt (h.behind (by omega))
  have hcovered : Covered F (max base (limit - window)) start k s' :=
    h.covered.trimmed htrim (by omega)
  refine ⟨h.settled.trimmed htrim, hcovered, fun _ => hbase, fun _ => ?_⟩
  rw [hcursor]
  exact ⟨hcovered, le_max_right _ _, fun _ => hbase⟩

/-! ### A feed that is the same up to the cursor -/

theorem Current.agree (h : Current F k s)
    (hagree : Feed.AgreeAt F G k s.cursor) : Current G k s := by
  intro value hvalue
  rw [h value hvalue, (hagree _ le_rfl).1]

theorem Known.agree (h : Known F blank start k s)
    (hagree : Feed.AgreeAt F G k s.cursor) : Known G blank start k s := by
  intro hin
  rw [h (hagree.knownBy_iff.mpr hin), (hagree _ le_rfl).1]

theorem Covered.agree (h : Covered F floor start k s)
    (hagree : Feed.AgreeAt F G k s.cursor) : Covered G floor start k s :=
  fun n hn hcursor htouched hor =>
    h n hn hcursor ((hagree n hcursor).2.mpr htouched) hor

theorem Settled.raise (h : Settled F blank start mark k s) (hle : mark ≤ hi) :
    Settled F blank start hi k s := by
  rcases h with hright | ⟨n, hn, hmark, hin⟩
  · exact .inl hright
  · exact .inr ⟨n, hn, hmark.trans hle, hin⟩

theorem Settled.agree (h : Settled F blank start mark k s)
    (hagree : Feed.AgreeAt F G k s.cursor)
    (hmark : Feed.AgreeAt F G k mark) : Settled G blank start mark k s := by
  rcases h with ⟨hcurrent, hknown⟩ | hahead
  · exact .inl ⟨hcurrent.agree hagree, hknown.agree hagree⟩
  · exact .inr (hmark.touchedIn_iff.mp hahead)

theorem Guarded.agree (h : Guarded F blank start base window limit armed k s)
    (hagree : Feed.AgreeAt F G k s.cursor)
    (hbase : Feed.AgreeAt F G k base) :
    Guarded G blank start base window limit armed k s where
  settled := h.settled.agree hagree hbase
  covered := h.covered.agree hagree
  behind := h.behind
  ready harmed :=
    have hready := h.ready harmed
    ⟨hready.1.agree hagree, hready.2⟩

/-! ### Rewinding onto a feed that is the same up to `r` -/

/-- A key is right once nothing it waits for is ahead of the cursor. -/
theorem Settled.right (h : Settled F blank start mark k s)
    (hle : mark ≤ s.cursor) : Current F k s ∧ Known F blank start k s := by
  rcases h with hright | hahead
  · exact hright
  · exact absurd hahead (Feed.not_touchedIn_self F k hle)

theorem Guarded.mono {limit' : ℕ} {armed' : Prop}
    (h : Guarded F blank start base window limit armed k s)
    (hlimit : limit ≤ limit') (harmed : armed' → armed) :
    Guarded F blank start base window limit' armed' k s where
  settled := h.settled
  covered := h.covered.mono (by omega)
  behind hlt := (h.behind hlt).trans hlimit
  ready h' :=
    have hready := h.ready (harmed h')
    ⟨hready.1, by omega, fun hlt => (hready.2.2 hlt).trans hlimit⟩

/-- A follower that is not armed guards a key that is right, when nothing up to
the cursor needs to be remembered. -/
theorem Guarded.unarmed (hright : Current F k s ∧ Known F blank start k s)
    (harmed : ¬ armed)
    (hnothing : s.cursor ≤ base ∨
      (s.view k = none ∧ ∃ m, start = some m ∧ s.cursor ≤ m))
    (hbehind : s.cursor < base → base ≤ limit) :
    Guarded F blank start base window limit armed k s := by
  refine ⟨.inl hright, ?_, hbehind, fun h => absurd h harmed⟩
  intro n hn hcursor _ hor
  rcases hnothing with hle | ⟨habsent, m, hm, hle⟩
  · omega
  · rcases hor with hcounts | hview
    · have hlt := hcounts m hm
      omega
    · exact absurd habsent hview

theorem right_of_absent (habsent : s.view k = none)
    (hstart : ∃ m, start = some m ∧ s.cursor ≤ m) :
    Current F k s ∧ Known F blank start k s := by
  obtain ⟨m, hm, hle⟩ := hstart
  constructor
  · intro value hvalue
    rw [habsent] at hvalue
    cases hvalue
  · intro hin
    exact absurd (hin m hm) (Feed.not_touchedIn_self F k hle)

/-- Targets may fall again, down to `limit'`, if the base moves up. -/
theorem Guarded.rebase {limit' : ℕ}
    (h : Guarded F blank start base window limit armed k s)
    (hbase : base ≤ limit') :
    ∃ base', Guarded F blank start base' window limit' armed k s := by
  by_cases harmed : armed
  · obtain ⟨hcovered, -, -⟩ := h.ready harmed
    refine ⟨max base (s.cursor - window), h.settled.raise (le_max_left _ _),
      hcovered.mono (le_max_left _ _), fun hlt => by omega, fun _ => ?_⟩
    exact ⟨hcovered.mono (le_max_left _ _), by omega, fun hlt => by omega⟩
  · have hnothing : Covered F (max base s.cursor) start k s := by
      intro n hn hcursor
      omega
    exact ⟨max base s.cursor, h.settled.raise (le_max_left _ _),
      hnothing.mono (le_max_left _ _), fun hlt => by omega,
      fun h' => absurd h' harmed⟩

/-- A key that is not recalled was not touched after `r`. -/
theorem Covered.untouched_of_not_recalls (h : Covered F floor start k s)
    (hfloor : floor ≤ r) (hnot : ¬ s.Recalls k)
    (hor : Counts start (r + 1) ∨ s.view k ≠ none) :
    ¬ F.TouchedIn k r s.cursor := by
  rintro ⟨n, hn, hcursor, htouched⟩
  have hor' : Counts start n ∨ s.view k ≠ none :=
    hor.imp_left fun hcounts => hcounts.mono hn
  exact hnot (h n (by omega) hcursor htouched hor').recalls

theorem Current.rewound (hquiet : F.QuietAt k)
    (h : Current F k s) (hcovered : Covered F floor start k s)
    (hfloor : floor ≤ r) (hr : r ≤ s.cursor)
    (hagree : Feed.AgreeAt F G k r) (hrew : Rewound G blank r s s') :
    Current G k s' := by
  intro value hvalue
  rw [hrew.cursor]
  by_cases hrecalls : s.Recalls k
  · rw [hrew.recalled k hrecalls] at hvalue
    exact (eq_of_stored_eq_some hvalue).symm
  · rw [hrew.other k hrecalls] at hvalue
    have huntouched := hcovered.untouched_of_not_recalls hfloor hrecalls
      (.inr (by simp [hvalue]))
    rw [h value hvalue, Feed.value_eq_of_untouched hquiet hr huntouched,
      (hagree r le_rfl).1]

theorem Known.rewound (hquiet : F.QuietAt k)
    (h : Known F blank start k s) (hcovered : Covered F floor start k s)
    (hfloor : floor ≤ r) (hr : r ≤ s.cursor)
    (hagree : Feed.AgreeAt F G k r) (hrew : Rewound G blank r s s') :
    Known G blank start k s' := by
  intro hin
  rw [hrew.cursor] at hin ⊢
  by_cases hrecalls : s.Recalls k
  · exact hrew.recalled k hrecalls
  · have huntouched := hcovered.untouched_of_not_recalls hfloor hrecalls
      (.inl hin.counts)
    have hbefore : F.KnownBy start k s.cursor :=
      (hagree.knownBy_iff.mpr hin).mono hr
    rw [hrew.other k hrecalls, h hbefore,
      Feed.value_eq_of_untouched hquiet hr huntouched, (hagree r le_rfl).1]

/-- After a rewind nothing above the cursor has been folded in. -/
theorem covered_rewound (hrew : Rewound G blank r s s') :
    Covered G r start k s' := by
  intro n hn hcursor
  rw [hrew.cursor] at hcursor
  omega

/-- A rewind onto a feed that is the same up to `mark`, when everything after
`mark` is remembered. -/
theorem Settled.rewound (hF : F.QuietAt k) (h : Settled F blank start mark k s)
    (hcovered : Covered F mark start k s) (hr : r ≤ s.cursor)
    (hrmark : r ≤ mark) (hagree : Feed.AgreeAt F G k mark)
    (hrew : Rewound G blank r s s') : Settled G blank start mark k s' := by
  by_cases htouched : G.TouchedIn k r mark
  · right
    rw [hrew.cursor]
    exact htouched
  · left
    have hbelow : ¬ F.TouchedIn k r mark := fun hin =>
      htouched (hagree.touchedIn_iff.mp hin)
    have hsame := hagree.mono hrmark
    have hcovered' : Covered F r start k s := by
      intro n hn hcursor hin hor
      have hmark : mark < n := by
        by_contra hle
        exact hbelow ⟨n, hn, by omega, hin⟩
      exact hcovered n hmark hcursor hin hor
    rcases h with ⟨hcurrent, hknown⟩ | ⟨n, hn, hle, hin⟩
    · exact ⟨hcurrent.rewound hF hcovered' le_rfl hr hsame hrew,
        hknown.rewound hF hcovered' le_rfl hr hsame hrew⟩
    · exact absurd ⟨n, by omega, hle, hin⟩ hbelow

theorem Settled.lower (h : Settled F blank start mark k s)
    (hmark : mark ≤ max hi s.cursor) : Settled F blank start hi k s := by
  rcases h with hright | ⟨n, hn, hle, hin⟩
  · exact .inl hright
  · exact .inr ⟨n, hn, by omega, hin⟩

/-- An armed follower stays guarded when it rewinds by its window onto a feed
that is the same up to there. -/
theorem Guarded.rewound (hF : F.QuietAt k)
    (h : Guarded F blank start base window limit armed k s) (harmed : armed)
    (hr : r = s.cursor - window) (hagree : Feed.AgreeAt F G k (max base r))
    (hrew : Rewound G blank r s s') :
    Guarded G blank start base window limit False k s' := by
  subst hr
  obtain ⟨hcovered, hfloor, hbase⟩ := h.ready harmed
  have hcursor' : s'.cursor = s.cursor - window := hrew.cursor
  have hsettled : Settled G blank start (max base (s.cursor - window)) k s' :=
    (h.settled.raise (le_max_left _ _)).rewound hF hcovered (by omega)
      (le_max_right _ _) hagree hrew
  rw [← hcursor'] at hbase
  refine ⟨hsettled.lower (by rw [hcursor']), ?_, hbase,
    fun hfalse => hfalse.elim⟩
  exact (covered_rewound hrew).mono hfloor

/-! ### Rewinding after a stretch that mixed two feeds -/

theorem Blended.refl (F : Feed K V) (level : ℕ) (s : Follower K V) :
    Blended F level s s where
  cursor := le_rfl
  kept _ h := h
  other k _ :=
    ⟨rfl, Feed.not_touchedIn_self F k (min_le_left _ _)⟩

theorem Blended.trans {level : ℕ} {s₁ : Follower K V}
    (h : Blended F level s s₁) (h' : Blended F level s₁ s') :
    Blended F level s s' where
  cursor := h.cursor.trans h'.cursor
  kept k hk := h'.kept k (h.kept k hk)
  other k hnot := by
    obtain ⟨hview', huntouched'⟩ := h'.other k hnot
    obtain ⟨hview, huntouched⟩ := h.other k fun hk => hnot (h'.kept k hk)
    refine ⟨hview'.trans hview, ?_⟩
    rintro ⟨n, hn, hle, hin⟩
    by_cases hlt : n ≤ s₁.cursor
    · exact huntouched ⟨n, hn, by omega, hin⟩
    · exact huntouched' ⟨n, by omega, hle, hin⟩

theorem Rewound.right (hrew : Rewound G blank r s s') (hk : s.Recalls k) :
    Current G k s' ∧ Known G blank start k s' := by
  have hview := hrew.recalled k hk
  rw [← hrew.cursor] at hview
  exact right_of_stored hview

/-- An armed follower may mix in a feed that is the same up to the point to
which it then rewinds: what it does not recall was not touched there. -/
theorem Guarded.blended {limit' level : ℕ} {s₁ : Follower K V}
    (hF : F.QuietAt k)
    (h : Guarded F blank start base window limit armed k s) (harmed : armed)
    (hblended : Blended F level s s₁)
    (hlevel : level = max base (s₁.cursor - window))
    (hagree : Feed.AgreeAt F G k level)
    (hrew : Rewound G blank (s₁.cursor - window) s₁ s')
    (hbase : base ≤ limit') :
    Guarded G blank start level window limit' False k s' := by
  have hcursor : s'.cursor = s₁.cursor - window := hrew.cursor
  have hle : s.cursor ≤ s₁.cursor := hblended.cursor
  have hsettled : Settled G blank start level k s' := by
    by_cases hrecalls : s₁.Recalls k
    · exact .inl (hrew.right hrecalls)
    by_cases htouched : G.TouchedIn k s'.cursor level
    · exact .inr htouched
    have hbelow : ∀ n, s'.cursor < n → n ≤ level → ¬ F.touched n k := by
      intro n hn hnle hin
      exact htouched ⟨n, hn, hnle, (hagree n hnle).2.mp hin⟩
    obtain ⟨hview, hmixed⟩ := hblended.other k hrecalls
    have hview' : s'.view k = s.view k := by
      rw [hrew.other k hrecalls, hview]
    have hcovered := (h.ready harmed).1
    -- what lies between the rewound cursor and the old one is untouched
    have hpast : ∀ n, s'.cursor < n → n ≤ s.cursor →
        (Counts start (level + 1) ∨ s.view k ≠ none) → ¬ F.touched n k := by
      intro n hn hnle hor hin
      by_cases hlow : n ≤ level
      · exact hbelow n hn hlow hin
      · have hor' : Counts start n ∨ s.view k ≠ none :=
          hor.imp_left fun hcounts => hcounts.mono (by omega)
        have hrem := hcovered n (by omega) hnle hin hor'
        exact hrecalls (hblended.kept k hrem.recalls)
    have hfuture : ∀ n, s.cursor < n → n ≤ s'.cursor → ¬ F.touched n k := by
      intro n hn hnle hin
      exact hmixed ⟨n, hn, by omega, hin⟩
    have hsame : (Counts start (level + 1) ∨ s.view k ≠ none) →
        F.value k s.cursor = F.value k s'.cursor := by
      intro hor
      rcases le_total s'.cursor s.cursor with hback | hahead
      · refine Feed.value_eq_of_untouched hF hback ?_
        rintro ⟨n, hn, hnle, hin⟩
        exact hpast n hn hnle hor hin
      · refine (Feed.value_eq_of_untouched hF hahead ?_).symm
        rintro ⟨n, hn, hnle, hin⟩
        exact hfuture n hn hnle hin
    have hvalue : F.value k s'.cursor = G.value k s'.cursor :=
      (hagree _ (by omega)).1
    rcases h.settled with ⟨hcurrent, hknown⟩ | ⟨n, hn, hnle, hin⟩
    · left
      constructor
      · intro value hheld
        rw [hview'] at hheld
        rw [hcurrent value hheld, hsame (.inr (by simp [hheld])), hvalue]
      · intro hin
        have hcounts : Counts start (level + 1) :=
          hin.counts.mono (by omega)
        have hlow : s'.cursor ≤ level := by omega
        have hinF : F.KnownBy start k s'.cursor :=
          (hagree.mono hlow).knownBy_iff.mpr hin
        have hbefore : F.KnownBy start k s.cursor := by
          apply hinF.of_untouched
          rintro ⟨n, hn, hnle, htouches⟩
          exact hfuture n hn hnle htouches
        rw [hview', hknown hbefore, hsame (.inl hcounts), hvalue]
    · exfalso
      by_cases hreached : n ≤ s₁.cursor
      · exact hmixed ⟨n, hn, by omega, hin⟩
      · exact hbelow n (by omega) (by omega) hin
  refine ⟨hsettled, (covered_rewound hrew).mono (by omega), fun hlt => ?_,
    fun hfalse => hfalse.elim⟩
  omega

/-! ### Keys that no step touches -/

theorem Unseen.mono {first limit' : ℕ} {armed' : Prop}
    (h : Unseen first window limit armed k s) (hlimit : limit ≤ limit')
    (harmed : armed' → armed) : Unseen first window limit' armed' k s where
  view := h.view
  recalled := h.recalled
  low := h.low
  ready hready := (h.ready (harmed hready)).imp_right fun hle => hle.trans hlimit
  behind hlt := (h.behind hlt).trans hlimit

theorem Unseen.refreshed {first : ℕ} (h : Unseen first window limit armed k s)
    (href : Refreshed F blank hi s s')
    (huntouched : ¬ F.TouchedIn k (first - window) hi) :
    Unseen first window limit armed k s' := by
  have hlow := h.low
  have hlt := href.lt
  have hcursor := href.cursor
  have hskipped : ¬ F.TouchedIn k s.cursor hi := by
    rintro ⟨n, hn, hnle, htouched⟩
    exact huntouched ⟨n, by omega, hnle, htouched⟩
  constructor
  · rw [href.untouched k hskipped]
    exact h.view
  · intro hrecalls
    obtain hold | hnew := href.only k hrecalls
    · exact h.recalled hold
    · exact hskipped hnew
  · omega
  · intro harmed
    obtain ⟨hstart, hlimit⟩ := h.ready harmed
    exact ⟨by omega, hlimit⟩
  · intro hbehind
    exact h.behind (by omega)

/-- A follower that reached its limit is past the start. -/
theorem Unseen.trimmed {first : ℕ} (h : Unseen first window limit armed k s)
    (hlimit : s.cursor = limit) (htrim : Trimmed r s s') :
    Unseen first window limit True k s' := by
  have hcursor := htrim.cursor
  have hstart : first ≤ s.cursor := by
    by_contra hlt
    have hle := h.behind (Nat.lt_of_not_le hlt)
    omega
  constructor
  · rw [htrim.view]
    exact h.view
  · intro hrecalls
    exact h.recalled (htrim.only k hrecalls)
  · omega
  · intro _
    exact ⟨by omega, by omega⟩
  · intro hbehind
    omega

theorem Unseen.rewound {first : ℕ} (h : Unseen first window limit armed k s)
    (harmed : armed) (hrew : Rewound F blank (s.cursor - window) s s') :
    Unseen first window limit False k s' := by
  obtain ⟨hstart, hlimit⟩ := h.ready harmed
  constructor
  · rw [hrew.other k h.recalled]
    exact h.view
  · rintro ⟨batch, hbatch, -⟩
    rw [hrew.forgotten] at hbatch
    cases hbatch
  · rw [hrew.cursor]
    exact Nat.sub_le_sub_right hstart window
  · intro hfalse
    exact hfalse.elim
  · intro _
    exact hlimit

end Laws

end Following
