import UsdtPir.SampledFeed

/-!
# Marks on what is held

A key that is held carries a mark of the step in which it was last sighted, and
one that is not held carries none.  So a reading of a blank value forgets the
mark, and which marks are left depends on where the readings are taken.
-/

namespace Following

universe u v w

variable {K : Type u} {V : Type v} {S : Type w} {F G : Feed K V}
    {blank : V → Bool} {k : K} {mark : ℕ → Option S} {unmarked : S}
    {lo mid hi last : ℕ} {ends ends' : List ℕ} {old old' s s' : S}

/-- The mark after the steps after `lo` and up to `hi`: that of the last
sighting, or the one before. -/
inductive Remarked (G : Feed K V) (k : K) (mark : ℕ → Option S) (lo hi : ℕ)
    (old : S) : S → Prop
  | sighted {n : ℕ} {s : S} (hlo : lo < n) (hhi : n ≤ hi) (hn : G.touched n k)
      (hlast : ¬ G.TouchedIn k n hi) (hmark : mark n = some s) :
      Remarked G k mark lo hi old s
  | kept (hnone : ¬ G.TouchedIn k lo hi) : Remarked G k mark lo hi old old

theorem Remarked.eq_old (h : Remarked G k mark lo hi old s)
    (hnone : ¬ G.TouchedIn k lo hi) : s = old := by
  cases h with
  | sighted hlo hhi hn hlast hmark => exact absurd ⟨_, hlo, hhi, hn⟩ hnone
  | kept _ => rfl

/-- A sighting leaves nothing of the mark before, wherever the range began. -/
theorem Remarked.of_touchedIn (h : Remarked G k mark mid hi old s) (hle : lo ≤ mid)
    (htouched : G.TouchedIn k mid hi) : Remarked G k mark lo hi old' s := by
  cases h with
  | sighted hlo hhi hn hlast hmark =>
      exact .sighted (Nat.lt_of_le_of_lt hle hlo) hhi hn hlast hmark
  | kept hnone => exact absurd htouched hnone

theorem Remarked.append (hlo : lo ≤ mid) (hhi : mid ≤ hi)
    (h : Remarked G k mark lo mid old s) (h' : Remarked G k mark mid hi s s') :
    Remarked G k mark lo hi old s' := by
  by_cases hlater : G.TouchedIn k mid hi
  · exact h'.of_touchedIn hlo hlater
  · rw [h'.eq_old hlater]
    cases h with
    | @sighted n _ hlo hn hseen hlast hmark =>
        apply Remarked.sighted hlo (hn.trans hhi) hseen _ hmark
        rw [Feed.touchedIn_split hn hhi]
        exact not_or.mpr ⟨hlast, hlater⟩
    | kept hnone =>
        apply Remarked.kept
        rw [Feed.touchedIn_split hlo hhi]
        exact not_or.mpr ⟨hnone, hlater⟩

theorem Remarked.unique (h : Remarked G k mark lo hi old s)
    (h' : Remarked G k mark lo hi old s') : s = s' := by
  cases h with
  | kept hnone => exact (h'.eq_old hnone).symm
  | @sighted n _ hlo hhi hn hlast hmark =>
      cases h' with
      | kept hnone => exact absurd ⟨n, hlo, hhi, hn⟩ hnone
      | @sighted m _ hlo' hhi' hm hlast' hmark' =>
          have hnm : n = m := by
            rcases Nat.lt_trichotomy n m with hlt | heq | hlt
            · exact absurd ⟨m, hlt, hhi', hm⟩ hlast
            · exact heq
            · exact absurd ⟨n, hlt, hhi, hn⟩ hlast'
          rw [hnm, hmark'] at hmark
          exact (Option.some.inj hmark).symm

/-- The mark is `unmarked` only if it was and nothing was sighted. -/
theorem Remarked.ne_unmarked (h : Remarked G k mark lo hi old s)
    (hmark : ∀ n, lo < n → mark n ≠ some unmarked)
    (hstale : old ≠ unmarked ∨ G.TouchedIn k lo hi) : s ≠ unmarked := by
  cases h with
  | sighted hlo hhi hn hlast hs =>
      intro heq
      rw [heq] at hs
      exact hmark _ hlo hs
  | kept hnone =>
      rcases hstale with hold | htouched
      · exact hold
      · exact absurd htouched hnone

/-! ## Along a row of ranges -/

/-- The mark held for a key after the ranges that end at `ends`.  `F` tells
which steps touch the key, and `G` in which it is sighted. -/
inductive Marked (F G : Feed K V) (blank : V → Bool) (k : K)
    (mark : ℕ → Option S) (unmarked : S) :
    ℕ → Option S → List ℕ → ℕ → Option S → Prop
  | nil (lo : ℕ) (held : Option S) :
      Marked F G blank k mark unmarked lo held [] lo held
  | cons {lo hi last : ℕ} {held middle held' : Option S} {ends : List ℕ}
      (hlt : lo < hi)
      (hdropped : F.TouchedIn k lo hi → blank (F.value k hi) = true →
        middle = none)
      (hread : F.TouchedIn k lo hi → blank (F.value k hi) = false →
        ∃ s, middle = some s ∧
          Remarked G k mark lo hi (held.getD unmarked) s)
      (hkept : ¬ F.TouchedIn k lo hi → middle = held)
      (hrest : Marked F G blank k mark unmarked hi middle ends last held') :
      Marked F G blank k mark unmarked lo held (hi :: ends) last held'

/-- The key was blank at the end of some range, and not sighted after it. -/
def Forgotten (F G : Feed K V) (blank : V → Bool) (k : K) (ends : List ℕ)
    (last : ℕ) : Prop :=
  ∃ n ∈ ends, blank (F.value k n) = true ∧ ¬ G.TouchedIn k n last

theorem forgotten_cons :
    Forgotten F G blank k (hi :: ends) last ↔
      (blank (F.value k hi) = true ∧ ¬ G.TouchedIn k hi last) ∨
        Forgotten F G blank k ends last := by
  simp only [Forgotten, List.mem_cons, exists_eq_or_imp]

/-- Whatever ranges the steps after `lo` and up to `hi` are cut into, the mark
held before them is lost. -/
def Renews (F G : Feed K V) (blank : V → Bool) (k : K) (lo hi : ℕ) : Prop :=
  G.TouchedIn k lo hi ∨ ∃ n, lo < n ∧ n ≤ hi ∧ F.touched n k ∧
    ∀ m, n ≤ m → m ≤ hi → blank (F.value k m) = true

section Run

variable {held held' held₁ held₂ : Option S}

theorem Marked.le
    (h : Marked F G blank k mark unmarked lo held ends last held') :
    lo ≤ last := by
  induction h with
  | nil lo held => exact le_rfl
  | cons hlt hdropped hread hkept hrest ih => exact hlt.le.trans ih

/-- What is not held in the end was forgotten, or neither held nor touched. -/
theorem Marked.absent (hsub : ∀ n, G.touched n k → F.touched n k)
    (h : Marked F G blank k mark unmarked lo held ends last held')
    (hgone : held' = none) :
    Forgotten F G blank k ends last ∨
      held = none ∧ ¬ F.TouchedIn k lo last := by
  induction h with
  | nil lo held => exact .inr ⟨hgone, F.not_touchedIn_self k le_rfl⟩
  | @cons lo hi last held middle held' ends hlt hdropped hread hkept hrest ih =>
      rw [forgotten_cons]
      rcases ih hgone with hforgotten | ⟨hmiddle, hlater⟩
      · exact .inl (.inr hforgotten)
      · by_cases htouched : F.TouchedIn k lo hi
        · cases hblank : blank (F.value k hi) with
          | true =>
              refine .inl (.inl ⟨rfl, ?_⟩)
              rintro ⟨n, hlo, hhi, hn⟩
              exact hlater ⟨n, hlo, hhi, hsub n hn⟩
          | false =>
              rcases hread htouched hblank with ⟨s, hs, -⟩
              rw [hmiddle] at hs
              cases hs
        · rw [Feed.touchedIn_split hlt.le hrest.le]
          exact .inr ⟨(hkept htouched).symm.trans hmiddle,
            not_or.mpr ⟨htouched, hlater⟩⟩

/-- The mark in the end is that of one range from end to end, unless it was
forgotten on the way. -/
theorem Marked.mark_eq (hsub : ∀ n, G.touched n k → F.touched n k)
    (hquiet : F.QuietAt k)
    (hlive : held ≠ none → blank (F.value k lo) = false)
    (h : Marked F G blank k mark unmarked lo held ends last (some s)) :
    (Forgotten F G blank k ends last → s = unmarked) ∧
      (¬ Forgotten F G blank k ends last →
        Remarked G k mark lo last (held.getD unmarked) s) := by
  generalize hfinal : some s = final at h
  induction h with
  | nil lo held =>
      constructor
      · rintro ⟨n, hn, -⟩
        cases hn
      · intro _
        rw [← hfinal]
        exact .kept (G.not_touchedIn_self k le_rfl)
  | @cons lo hi last held middle held' ends hlt hdropped hread hkept hrest ih =>
      have hlive' : middle ≠ none → blank (F.value k hi) = false := by
        intro hmiddle
        by_cases htouched : F.TouchedIn k lo hi
        · by_contra hblank
          exact hmiddle (hdropped htouched (eq_true_of_ne_false hblank))
        · rw [Feed.value_eq_of_untouched hquiet hlt.le htouched]
          rw [hkept htouched] at hmiddle
          exact hlive hmiddle
      rcases ih hlive' hfinal with ⟨hforgot, hmarked⟩
      rw [forgotten_cons]
      constructor
      · intro hforgotten
        by_cases hlater : Forgotten F G blank k ends last
        · exact hforgot hlater
        · rcases hforgotten with ⟨hblank, hnone⟩ | hrest'
          · have hmiddle : middle = none := by
              by_contra hmiddle
              rw [hlive' hmiddle] at hblank
              cases hblank
            have hs := (hmarked hlater).eq_old hnone
            rwa [hmiddle] at hs
          · exact absurd hrest' hlater
      · intro hforgotten
        rcases not_or.mp hforgotten with ⟨hhere, hlater⟩
        have hthen := hmarked hlater
        cases hblank : blank (F.value k hi) with
        | true =>
            have hsighted : G.TouchedIn k hi last := by
              by_contra hnone
              exact hhere ⟨hblank, hnone⟩
            exact hthen.of_touchedIn hlt.le hsighted
        | false =>
            have hfirst : Remarked G k mark lo hi (held.getD unmarked)
                (middle.getD unmarked) := by
              by_cases htouched : F.TouchedIn k lo hi
              · rcases hread htouched hblank with ⟨s₁, rfl, hs₁⟩
                exact hs₁
              · rw [hkept htouched]
                apply Remarked.kept
                rintro ⟨n, hlo, hhi, hn⟩
                exact htouched ⟨n, hlo, hhi, hsub n hn⟩
            exact hfirst.append hlt.le hrest.le hthen

/-- A mark that is held in the end is that of a sighting in the ranges, or was
held before them and they do not renew it. -/
theorem Marked.traced (hsub : ∀ n, G.touched n k → F.touched n k)
    (h : Marked F G blank k mark unmarked lo held ends last held')
    (hfinal : held' = some s) (hs : s ≠ unmarked) :
    (∃ n, lo < n ∧ n ≤ last ∧ G.touched n k ∧ mark n = some s) ∨
      (held = some s ∧ ¬ Renews F G blank k lo last) := by
  induction h with
  | nil lo held =>
      right
      refine ⟨hfinal, ?_⟩
      rintro (htouched | ⟨n, hlo, hhi, -⟩)
      · exact G.not_touchedIn_self k le_rfl htouched
      · omega
  | @cons lo hi last held middle held' ends hlt hdropped hread hkept hrest ih =>
      rcases ih hfinal with ⟨n, hlo, hhi, hn, hmark⟩ | ⟨hmiddle, hlater⟩
      · exact .inl ⟨n, hlt.trans hlo, hhi, hn, hmark⟩
      -- held through the later ranges: look at what the first one did
      · rcases not_or.mp hlater with ⟨hunseen, hnever⟩
        by_cases htouched : F.TouchedIn k lo hi
        · have hblank : blank (F.value k hi) = false := by
            by_contra hblank
            rw [hdropped htouched (eq_true_of_ne_false hblank)] at hmiddle
            cases hmiddle
          rcases hread htouched hblank with ⟨s', hs', hmarked⟩
          have heq : s' = s := Option.some.inj (hs'.symm.trans hmiddle)
          rw [heq] at hmarked
          cases hmarked with
          | @sighted n _ hlo hhi hn hlast hmark =>
              exact .inl ⟨n, hlo, hhi.trans hrest.le, hn, hmark⟩
          | kept hnone =>
              right
              constructor
              · cases held with
                | none => exact absurd rfl hs
                | some old => rfl
              · rintro (hseen | ⟨n, hlo, hhi, hn, hall⟩)
                · rw [Feed.touchedIn_split hlt.le hrest.le] at hseen
                  exact hseen.elim hnone hunseen
                · by_cases hle : n ≤ hi
                  · rw [hall hi hle hrest.le] at hblank
                    cases hblank
                  · exact hnever ⟨n, by omega, hhi, hn, hall⟩
        · right
          constructor
          · exact (hkept htouched).symm.trans hmiddle
          · rintro (⟨n, hlo, hhi, hn⟩ | ⟨n, hlo, hhi, hn, hall⟩)
            · by_cases hle : n ≤ hi
              · exact htouched ⟨n, hlo, hle, hsub n hn⟩
              · exact hunseen ⟨n, by omega, hhi, hn⟩
            · by_cases hle : n ≤ hi
              · exact htouched ⟨n, hlo, hle, hn⟩
              · exact hnever ⟨n, by omega, hhi, hn, hall⟩

theorem Marked.forgotten_of_eq (hsub : ∀ n, G.touched n k → F.touched n k)
    (hquiet : F.QuietAt k)
    (hlive : held ≠ none → blank (F.value k lo) = false)
    (hmark : ∀ n, lo < n → mark n ≠ some unmarked)
    (hstale : held.getD unmarked ≠ unmarked ∨ G.TouchedIn k lo last)
    (h : Marked F G blank k mark unmarked lo held ends last (some s))
    (h' : Marked F G blank k mark unmarked lo held ends' last (some s))
    (hforgotten : Forgotten F G blank k ends last) :
    Forgotten F G blank k ends' last := by
  have hs := (h.mark_eq hsub hquiet hlive).1 hforgotten
  by_contra hnot
  exact ((h'.mark_eq hsub hquiet hlive).2 hnot).ne_unmarked hmark hstale hs

/-- Two rows of ranges that leave the key held, or leave it not held, leave the
same mark exactly when both forget it or neither does, if there is a mark to
forget. -/
theorem Marked.agree_iff (hsub : ∀ n, G.touched n k → F.touched n k)
    (hquiet : F.QuietAt k)
    (hlive : held ≠ none → blank (F.value k lo) = false)
    (hmark : ∀ n, lo < n → mark n ≠ some unmarked)
    (h : Marked F G blank k mark unmarked lo held ends last held₁)
    (h' : Marked F G blank k mark unmarked lo held ends' last held₂)
    (hpresent : held₁ = none ↔ held₂ = none) :
    held₁ = held₂ ↔
      (held.getD unmarked ≠ unmarked ∨ G.TouchedIn k lo last →
        (Forgotten F G blank k ends last ↔ Forgotten F G blank k ends' last)) := by
  cases held₁ with
  | none =>
      have hheld₂ := hpresent.mp rfl
      subst hheld₂
      refine ⟨fun _ hstale => ?_, fun _ => rfl⟩
      have hforgotten : ∀ {ends : List ℕ},
          Marked F G blank k mark unmarked lo held ends last none →
            Forgotten F G blank k ends last := by
        intro ends hmarked
        rcases hmarked.absent hsub rfl with hforgotten | ⟨hheld, huntouched⟩
        · exact hforgotten
        · rcases hstale with hold | ⟨n, hlo, hhi, hn⟩
          · rw [hheld] at hold
            exact absurd rfl hold
          · exact absurd ⟨n, hlo, hhi, hsub n hn⟩ huntouched
      exact iff_of_true (hforgotten h) (hforgotten h')
  | some s =>
      cases held₂ with
      | none => cases hpresent.mpr rfl
      | some s' =>
          constructor
          · intro heq hstale
            cases heq
            constructor
            · exact h.forgotten_of_eq hsub hquiet hlive hmark hstale h'
            · exact h'.forgotten_of_eq hsub hquiet hlive hmark hstale h
          · intro hboth
            rcases h.mark_eq hsub hquiet hlive with ⟨hforgot, hmarked⟩
            rcases h'.mark_eq hsub hquiet hlive with ⟨hforgot', hmarked'⟩
            by_cases hstale : held.getD unmarked ≠ unmarked ∨
                G.TouchedIn k lo last
            · have hiff := hboth hstale
              by_cases hforgotten : Forgotten F G blank k ends last
              · rw [hforgot hforgotten, hforgot' (hiff.mp hforgotten)]
              · rw [(hmarked hforgotten).unique
                  (hmarked' fun hn => hforgotten (hiff.mpr hn))]
            · rcases not_or.mp hstale with ⟨hold, hnone⟩
              have hclean : ∀ {ends : List ℕ} {s : S},
                  Marked F G blank k mark unmarked lo held ends last (some s) →
                    s = unmarked := by
                intro ends s hmarked
                rcases hmarked.mark_eq hsub hquiet hlive with
                  ⟨hforgot, hmarked⟩
                by_cases hforgotten : Forgotten F G blank k ends last
                · exact hforgot hforgotten
                · rw [(hmarked hforgotten).eq_old hnone]
                  exact of_not_not hold
              rw [hclean h, hclean h']

end Run

end Following
