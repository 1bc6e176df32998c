import UsdtPir.AskedQuestions
import UsdtPir.CatchUp
import UsdtPir.DurableSync
import UsdtPir.Interruption

/-!
# The age of the last sync

The progress handle holds the time of its last record, and a monitor is shown
how long ago that was.  Progress is recorded before the blocks are fetched and
again after a pass, so the age tells when an attempt last had something to do,
and when one was last completed only if no other has come that far since.
-/

namespace UsdtPir

open Interaction
open Program

/-! ## The handle -/

structure Sample where
  cursor : ℕ
  tip : ℕ
  lagBlocks : ℕ
  ageSecs : Option ℕ
  deriving DecidableEq

/-- `Progress::sample`, at the time `now`. -/
def Progress.sample (progress : Progress) (now : ℕ) : Sample where
  cursor := progress.cursor
  tip := progress.tip
  lagBlocks := progress.tip - progress.cursor
  ageSecs :=
    if 0 < progress.recordedAt then some (now - progress.recordedAt) else none

/-- The handle of a process that has not recorded anything. -/
def Progress.handle : Progress :=
  ⟨0, 0, 0⟩

/-- The readings of the clock so far. -/
def noteClock (readings : List ℕ) : (q : Request) → Answer q → List ℕ
  | .unixNow, now => readings ++ ([now] : List ℕ)
  | _, _ => readings

theorem noteClock_prefix (readings : List ℕ) (q : Request) (answer : Answer q) :
    readings <+: noteClock readings q answer := by
  cases q with
  | unixNow => exact List.prefix_append readings ([answer] : List ℕ)
  | _ => exact List.prefix_rfl

theorem noteClock_eq (readings : List ℕ) (q : Request) (answer : Answer q)
    (h : q.LeavesClock) : noteClock readings q answer = readings := by
  cases q with
  | unixNow => exact h.elim
  | _ => rfl

/-- The handle holds the last reading. -/
def Shows (readings : List ℕ) (progress : Progress) : Prop :=
  progress.recordedAt = readings.getLast?.getD 0

def Shown (readings : List ℕ) (s : Process) : Prop :=
  ∃ progress, s.progress = some progress ∧ Shows readings progress

theorem Shown.congr {readings : List ℕ} {s s' : Process} (h : Shown readings s)
    (hprogress : s'.progress = s.progress) : Shown readings s' := by
  unfold Shown
  rw [hprogress]
  exact h

/-! ## What the stages leave alone -/

section Stages

variable {ω : Type} {env : Environment Request Answer ω} {world : ω}
    {s s' : Process} {cfg : FollowConfig} {updates : Bool}
    {truth : (q : Request) → Answer q → Prop} {lo toBlock target : ℕ}

/-- A step that ends with the handle as it was. -/
def Leaves {α : Type} (env : Environment Request Answer ω) (p : Sync α) : Prop :=
  ∀ world s, Meets env p world s (fun _ _ s' => s'.progress = s.progress)
    (fun _ _ s' => s'.progress = s.progress)

theorem RepairStep.progress (h : RepairStep truth cfg s s') :
    s'.progress = s.progress := by
  cases h with
  | final => rfl
  | unknown => rfl
  | same => rfl
  | repaired htip hhash hanswer hne hrepaired =>
      rcases hrepaired with ⟨rows, map, -, -, -, -, rfl⟩
      rfl

theorem leaves_repairIfNeeded : Leaves env (repairIfNeeded cfg) := by
  intro world s
  apply meets_mono (meets_repairIfNeeded env.keeps_gives)
  · intro final _ s' h
    exact h.progress
  · intro final failure s' h
    rw [h]

theorem leaves_resolve {tip : Tip} : Leaves env tip.resolve := by
  intro world s
  apply meets_mono meets_resolve
  · intro final target s' h
    rw [h.1]
  · intro final failure s' h
    rw [h.1]

theorem leaves_sync : Leaves env (sync cfg lo toBlock) := by
  intro world s
  simp only [sync, meets_bind, meets_modify]
  by_cases hlo : lo ≤ toBlock
  · apply meets_mono (meets_syncInto env.keeps_gives hlo)
    · intro middle _ s₁ hdone
      rcases hdone with ⟨lo', s₂, -, hchunks, rfl⟩
      simp only [meets_get, meets_pure]
      exact hchunks.sameOutside.progress
    · intro middle failure s₁ hstopped
      rcases hstopped with ⟨lo', hchunks⟩
      exact hchunks.sameOutside.progress
  · apply meets_mono (meets_syncInto_empty (Nat.lt_of_not_le hlo))
    · intro middle _ s₁ hs₁
      simp only [meets_get, meets_pure]
      rw [hs₁]
    · intro middle failure s₁ h
      exact h.elim

theorem leaves_saveMapOrFail : Leaves env saveMapOrFail := by
  intro world s
  rw [meets_saveMapOrFail]
  intro answer after _
  cases answer with
  | ok written => rfl
  | error e => rfl

theorem leaves_syncToTarget : Leaves env (syncToTarget cfg target) := by
  intro world s
  simp only [syncToTarget, meets_bind, meets_instantNow, meets_modify, meets_get,
    meets_attempt]
  intro now after _
  apply meets_mono (leaves_sync _ _)
  · intro middle totals s₁ hs₁
    apply meets_mono (leaves_saveMapOrFail _ _)
    · intro final _ s' hs'
      exact hs'.trans hs₁
    · intro final failure s' hs'
      exact hs'.trans hs₁
  · intro middle failure s₁ hs₁
    cases failure with
    | err chain =>
        simp only [meets_bind, meets_throw]
        apply meets_mono (leaves_saveMapOrFail _ _)
        · intro final _ s' hs'
          exact hs'.trans hs₁
        · intro final failure s' hs'
          exact hs'.trans hs₁
    | panic message => exact hs₁
    | killed => exact hs₁

theorem leaves_updateReorgWatch : Leaves env (updateReorgWatch cfg) := by
  intro world s
  apply meets_mono (meets_updateReorgWatch env.keeps_gives)
  · intro final _ s' h
    rw [h.2]
  · intro final failure s' h
    rw [h]

theorem leaves_publishChanges : Leaves env (publishChanges updates) := by
  intro world s
  apply meets_mono meets_publishChanges
  · intro final _ s' h
    rw [h.2]
  · intro final failure s' h
    rw [h]

theorem leaves_onSuccess : Leaves env onSuccess :=
  fun _ _ => rfl

theorem leaves_onFailure : Leaves env onFailure := by
  intro world s
  apply meets_mono meets_onFailure
  · intro final _ s' h
    rw [h.2]
  · intro final failure s' h
    exact h.elim

theorem asks_syncToTarget :
    Asks Request.LeavesClock (syncToTarget cfg target) := by
  unfold syncToTarget
  apply asks_bind
  · exact asks_consult .instantNow trivial
  · intro now
    apply asks_bind asks_modify
    intro _
    apply asks_bind asks_get
    intro s
    apply asks_bind (asks_attempt asks_sync)
    intro synced
    cases synced with
    | ok totals => exact asks_saveMapOrFail fun _ => trivial
    | error failure =>
        cases failure with
        | err chain =>
            apply asks_bind (asks_saveMapOrFail fun _ => trivial)
            intro _
            exact asks_throw
        | panic message => exact asks_throw
        | killed => exact asks_throw

end Stages

/-! ## Attempts and the clock -/

section Clock

variable {ω : Type} {env : Environment Request Answer ω} {world : ω}
    {s s' : Process} {cfg : FollowConfig} {updates : Bool}
    {kept : List ℕ} {target cursor tip : ℕ}

/-- A step that does not look at the clock leaves what is shown. -/
theorem Leaves.meets_shown {α : Type} {p : Sync α} (hleaves : Leaves env p)
    (hasks : Asks Request.LeavesClock p) (hs : Shown kept s) :
    Meets (env.observed noteClock) p (world, kept) s
      (fun final _ s' => final.2 = kept ∧ Shown kept s')
      (fun final _ s' => final.2 = kept ∧ Shown kept s') := by
  have hnote : ∀ readings q (answer : Answer q), q.LeavesClock →
      readings = kept → noteClock readings q answer = kept := by
    intro readings q answer hq hkept
    rw [noteClock_eq readings q answer hq, hkept]
  apply meets_mono ((hleaves world s).observed hasks hnote rfl)
  · intro final result s' h
    exact ⟨h.1, hs.congr h.2⟩
  · intro final failure s' h
    exact ⟨h.1, hs.congr h.2⟩

theorem meets_recordProgress_clock (hs : Shown kept s) :
    Meets (env.observed noteClock) (recordProgress cursor tip) (world, kept) s
      (fun final _ s' => (∃ now, final.2 = kept ++ [now]) ∧
        Shown final.2 s' ∧ s'.map = s.map)
      (fun _ _ _ => False) := by
  rcases hs with ⟨progress, hprogress, -⟩
  simp only [recordProgress, meets_bind, meets_get, hprogress, meets_unixNow,
    meets_modify]
  intro (now : ℕ) after hanswer
  have hkept : after.2 = kept ++ [now] := hanswer.2
  have hshows : Shows after.2 ⟨cursor, tip, now⟩ := by simp [Shows, hkept]
  exact ⟨⟨now, hkept⟩, ⟨_, rfl, hshows⟩, trivial⟩

/-- The clock was looked at, or there was nothing to do. -/
def Looked (kept : List ℕ) (target cursor : ℕ) (readings : List ℕ) : Prop :=
  cursor < target → kept.length < readings.length

theorem looked_concat {now : ℕ} {readings : List ℕ}
    (h : kept ++ [now] <+: readings) : Looked kept target cursor readings := by
  intro _
  have hlength := h.length_le
  rw [List.length_append, List.length_singleton] at hlength
  exact hlength

theorem meets_catchUpTo_clock (hs : Shown kept s) :
    Meets (env.observed noteClock) (catchUpTo cfg target) (world, kept) s
      (fun final _ s' => Shown final.2 s' ∧
        Looked kept target s.map.cursor final.2)
      (fun final _ s' => Shown final.2 s') := by
  simp only [catchUpTo, meets_bind, meets_get]
  split
  · rename_i hle
    rw [meets_pure]
    exact ⟨hs, fun hlt => absurd hle (Nat.not_le_of_lt hlt)⟩
  · simp only [meets_bind]
    apply meets_mono (meets_recordProgress_clock hs)
    · intro middle _ s₁ hrecorded
      rcases hrecorded with ⟨⟨now, hnow⟩, hs₁, -⟩
      have hgrown : kept ++ [now] <+: middle.2 := hnow ▸ List.prefix_rfl
      apply meets_mono (leaves_syncToTarget.meets_shown asks_syncToTarget hs₁)
      · intro final _ s' h
        rw [h.1]
        exact ⟨h.2, looked_concat hgrown⟩
      · intro final failure s' h
        rw [h.1]
        exact h.2
    · intro final failure s' h
      exact h.elim

theorem meets_finishPass_clock (hs : Shown kept s) :
    Meets (env.observed noteClock) (finishPass cfg updates) (world, kept) s
      (fun final _ s' => Shown final.2 s' ∧ kept <+: final.2)
      (fun final _ s' => Shown final.2 s') := by
  simp only [finishPass, meets_bind]
  apply meets_mono
    (leaves_updateReorgWatch.meets_shown asks_updateReorgWatch hs)
  · intro stored _ s₁ h₁
    have hs₁ : Shown stored.2 s₁ := h₁.1 ▸ h₁.2
    have hasks : Asks Request.LeavesClock saveMapOrFail :=
      asks_saveMapOrFail fun _ => trivial
    apply meets_mono (leaves_saveMapOrFail.meets_shown hasks hs₁)
    · intro saved _ s₂ h₂
      have hs₂ : Shown saved.2 s₂ := h₂.1 ▸ h₂.2
      rw [meets_get]
      apply meets_mono (meets_recordProgress_clock hs₂)
      · intro recorded _ s₃ h₃
        rcases h₃ with ⟨⟨now, hnow⟩, hs₃, -⟩
        have hkept : kept <+: recorded.2 := by
          rw [hnow, h₂.1, h₁.1]
          exact List.prefix_append kept [now]
        simp only [markSnapshot, meets_bind, meets_instantNow, meets_modify]
        intro instant after hanswer
        have hafter : after.2 = recorded.2 := hanswer.2
        have hs₄ : Shown after.2 { s₃ with lastSnapshot := instant } := by
          rw [hafter]
          exact hs₃.congr rfl
        apply meets_mono
          (leaves_publishChanges.meets_shown asks_publishChanges hs₄)
        · intro final _ s' h
          rw [h.1]
          exact ⟨h.2, hafter ▸ hkept⟩
        · intro final failure s' h
          rw [h.1]
          exact h.2
      · intro final failure s' h
        exact h.elim
    · intro final failure s' h
      rw [h.1]
      exact h.2
  · intro final failure s' h
    rw [h.1]
    exact h.2

theorem meets_passTo_clock (hs : Shown kept s) :
    Meets (env.observed noteClock) (passTo cfg updates target) (world, kept) s
      (fun final _ s' => Shown final.2 s' ∧
        Looked kept target s.map.cursor final.2)
      (fun final _ s' => Shown final.2 s') := by
  simp only [passTo, meets_bind, meets_get]
  split
  · rename_i hle
    rw [meets_pure]
    exact ⟨hs, fun hlt => absurd hle (Nat.not_le_of_lt hlt)⟩
  · simp only [syncTo, meets_bind, meets_get, meets_pure]
    apply meets_mono (meets_recordProgress_clock hs)
    · intro middle _ s₁ hrecorded
      rcases hrecorded with ⟨⟨now, hnow⟩, hs₁, -⟩
      apply meets_mono (leaves_sync.meets_shown asks_sync hs₁)
      · intro synced _ s₂ h₂
        have hs₂ : Shown synced.2 s₂ := h₂.1 ▸ h₂.2
        apply meets_mono (meets_finishPass_clock hs₂)
        · intro final _ s' h
          constructor
          · exact h.1
          · apply looked_concat
            rw [← hnow, ← h₂.1]
            exact h.2
        · intro final failure s' h
          exact h
      · intro final failure s' h
        rw [h.1]
        exact h.2
    · intro final failure s' h
      exact h.elim

end Clock

/-! ## Runs of `serve` -/

/-- Before and after the first catch-up that returned `Ok`. -/
inductive ServePhase
  | catchingUp
  | following
  deriving DecidableEq

/-- What an attempt does before it knows its target. -/
def ServePhase.aim (cfg : FollowConfig) : ServePhase → Sync ℕ
  | catchingUp => cfg.tip.resolve
  | following => do
      repairIfNeeded cfg
      cfg.tip.resolve

/-- What it does from then on. -/
def ServePhase.work (cfg : FollowConfig) (updates : Bool) : ServePhase → ℕ → Sync Unit
  | catchingUp, target => catchUpTo cfg target
  | following, target => passTo cfg updates target

/-- `catch_up_once` or `pass`. -/
def ServePhase.attempt (cfg : FollowConfig) (updates : Bool) : ServePhase → Sync Unit
  | catchingUp => catchUpOnce cfg
  | following => pass cfg updates

/-- One catch-up or pass: where it began and where it returned. -/
structure Attempted (ω : Type) where
  phase : ServePhase
  entered : ω × List ℕ
  before : Process
  outcome : Except Failure Unit
  left : ω × List ℕ
  after : Process

/-- The clock as it was read from the start of the attempt to its end. -/
def Attempted.readings {ω : Type} (a : Attempted ω) : List ℕ :=
  a.left.2.drop a.entered.2.length

/-- The attempt found blocks to sync and returned `Ok`. -/
def Attempted.Synced {ω : Type} (env : Environment Request Answer ω)
    (cfg : FollowConfig) (updates : Bool) (a : Attempted ω) : Prop :=
  a.outcome = .ok () ∧ ∃ middle s₁ target,
    (a.phase.aim cfg).Runs (env.observed noteClock) a.entered a.before middle
      (.ok target) s₁ ∧
    s₁.map.cursor < target ∧
    (a.phase.work cfg updates target).Runs (env.observed noteClock) middle s₁
      a.left (.ok ()) a.after

/-- The attempts of `serve` so far, oldest first, and the state between two of
them.  The loop is entered, at some time, after the first catch-up that
returned `Ok`. -/
inductive ServeRun {ω : Type} (env : Environment Request Answer ω)
    (cfg : FollowConfig) (updates : Bool) (world : ω) (s : Process) :
    List (Attempted ω) → ServePhase → ω × List ℕ → Process → Prop
  | start : ServeRun env cfg updates world s [] .catchingUp (world, []) s
  | behind {attempts : List (Attempted ω)} {middle final : ω × List ℕ}
      {s₁ s' : Process} {chain : List String}
      (hrun : ServeRun env cfg updates world s attempts .catchingUp middle s₁)
      (hattempt : (catchUpOnce cfg).Runs (env.observed noteClock) middle s₁
        final (.error (.err chain)) s') :
      ServeRun env cfg updates world s
        (attempts ++ [⟨.catchingUp, middle, s₁, .error (.err chain), final, s'⟩])
        .catchingUp final s'
  | caughtUp {attempts : List (Attempted ω)} {middle final : ω × List ℕ}
      {s₁ s' : Process} {now : ℕ}
      (hrun : ServeRun env cfg updates world s attempts .catchingUp middle s₁)
      (hattempt : (catchUpOnce cfg).Runs (env.observed noteClock) middle s₁
        final (.ok ()) s') :
      ServeRun env cfg updates world s
        (attempts ++ [⟨.catchingUp, middle, s₁, .ok (), final, s'⟩])
        .following final (s'.startFollow now)
  | passed {attempts : List (Attempted ω)} {middle final settled : ω × List ℕ}
      {s₁ s₂ s' : Process}
      (hrun : ServeRun env cfg updates world s attempts .following middle s₁)
      (hattempt : (pass cfg updates).Runs (env.observed noteClock) middle s₁
        final (.ok ()) s₂)
      (hsettled : onSuccess.Runs (env.observed noteClock) final s₂ settled
        (.ok ()) s') :
      ServeRun env cfg updates world s
        (attempts ++ [⟨.following, middle, s₁, .ok (), final, s₂⟩])
        .following settled s'
  | failed {attempts : List (Attempted ω)} {middle final settled : ω × List ℕ}
      {s₁ s₂ s' : Process} {chain : List String}
      (hrun : ServeRun env cfg updates world s attempts .following middle s₁)
      (hattempt : (pass cfg updates).Runs (env.observed noteClock) middle s₁
        final (.error (.err chain)) s₂)
      (hsettled : onFailure.Runs (env.observed noteClock) final s₂ settled
        (.ok ()) s') :
      ServeRun env cfg updates world s
        (attempts ++ [⟨.following, middle, s₁, .error (.err chain), final, s₂⟩])
        .following settled s'

/-- The last attempt that synced and returned `Ok`. -/
def LastSynced {ω : Type} (env : Environment Request Answer ω)
    (cfg : FollowConfig) (updates : Bool) (attempts : List (Attempted ω))
    (a : Attempted ω) : Prop :=
  ∃ earlier later, attempts = earlier ++ a :: later ∧
    a.Synced env cfg updates ∧ ∀ b ∈ later, ¬ b.Synced env cfg updates

/-- The age is unknown until an attempt has synced, and then counts from a
reading of the clock during the last one that did. -/
def ReportsCompleted {ω : Type} (env : Environment Request Answer ω)
    (cfg : FollowConfig) (updates : Bool) (attempts : List (Attempted ω))
    (age : ℕ → Option ℕ) : Prop :=
  ((∀ a ∈ attempts, ¬ a.Synced env cfg updates) → ∀ now, age now = none) ∧
    ∀ a, LastSynced env cfg updates attempts a →
      ∃ t ∈ a.readings, ∀ now, age now = some (now - t)

/-- No attempt has come as far as recording its progress since the last one that
synced and returned `Ok`. -/
def NoneSince {ω : Type} (env : Environment Request Answer ω)
    (cfg : FollowConfig) (updates : Bool) (attempts : List (Attempted ω))
    (readings : List ℕ) : Prop :=
  ((∀ a ∈ attempts, ¬ a.Synced env cfg updates) → readings = []) ∧
    ∀ a, LastSynced env cfg updates attempts a → readings = a.left.2

section Runs

variable {ω : Type} {env : Environment Request Answer ω} {world final : ω}
    {s s' : Process} {cfg : FollowConfig} {updates : Bool}
    {attempts : List (Attempted ω)} {phase : ServePhase} {kept readings : List ℕ}
    {a : Attempted ω}

theorem prefix_of_runs {α : Type} {p : Sync α} {entered left : ω × List ℕ}
    {outcome : Except Failure α}
    (hrun : p.Runs (env.observed noteClock) entered s left outcome s') :
    entered.2 <+: left.2 :=
  Dialogue.Runs.extends (R := (· <+: ·)) (fun _ => List.prefix_rfl)
    List.IsPrefix.trans noteClock_prefix hrun

theorem meets_attempt_clock {ok : ω × List ℕ → Unit → Process → Prop}
    {err : ω × List ℕ → Failure → Process → Prop} {entered : ω × List ℕ} :
    Meets (env.observed noteClock) (phase.attempt cfg updates) entered s ok err ↔
      Meets (env.observed noteClock) (phase.aim cfg) entered s
        (fun middle target s₁ => Meets (env.observed noteClock)
          (phase.work cfg updates target) middle s₁ ok err) err := by
  cases phase with
  | catchingUp => simp only [ServePhase.attempt, catchUpOnce, meets_bind]; rfl
  | following => simp only [ServePhase.attempt, pass, ServePhase.aim, meets_bind]; rfl

theorem meets_aim_clock (hs : Shown kept s) :
    Meets (env.observed noteClock) (phase.aim cfg) (world, kept) s
      (fun middle _ s₁ => middle.2 = kept ∧ Shown kept s₁)
      (fun middle _ s₁ => middle.2 = kept ∧ Shown kept s₁) := by
  cases phase with
  | catchingUp => exact leaves_resolve.meets_shown asks_resolve hs
  | following =>
      simp only [ServePhase.aim, meets_bind]
      apply meets_mono
        (leaves_repairIfNeeded.meets_shown
          (asks_repairIfNeeded (fun _ h => h.leavesClock) fun _ => trivial) hs)
      · intro middle _ s₁ h
        have hs₁ : Shown middle.2 s₁ := h.1 ▸ h.2
        rw [← h.1]
        exact leaves_resolve.meets_shown asks_resolve hs₁
      · intro middle failure s₁ h
        exact h

theorem meets_work_clock {target : ℕ} (hs : Shown kept s) :
    Meets (env.observed noteClock) (phase.work cfg updates target) (world, kept)
      s
      (fun final _ s' => Shown final.2 s' ∧
        Looked kept target s.map.cursor final.2)
      (fun final _ s' => Shown final.2 s') := by
  cases phase with
  | catchingUp => exact meets_catchUpTo_clock hs
  | following => exact meets_passTo_clock hs

theorem meets_attempt_shown (hs : Shown kept s) :
    Meets (env.observed noteClock) (phase.attempt cfg updates) (world, kept) s
      (fun final _ s' => Shown final.2 s')
      (fun final _ s' => Shown final.2 s') := by
  rw [meets_attempt_clock]
  apply meets_mono (meets_aim_clock hs)
  · intro middle target s₁ h
    have hs₁ : Shown middle.2 s₁ := h.1 ▸ h.2
    apply meets_mono (meets_work_clock hs₁)
    · intro final _ s' h'
      exact h'.1
    · intro final failure s' h'
      exact h'
  · intro middle failure s₁ h
    rw [h.1]
    exact h.2

/-- An attempt that synced has looked at the clock. -/
theorem Attempted.Synced.looked (h : a.Synced env cfg updates)
    (hs : Shown a.entered.2 a.before) : a.readings ≠ [] := by
  rcases h with ⟨-, middle, s₁, target, haim, hlt, hwork⟩
  have hmiddle := (meets_aim_clock hs).of_ok haim
  have hs₁ : Shown middle.2 s₁ := hmiddle.1 ▸ hmiddle.2
  have hlonger := ((meets_work_clock hs₁).of_ok hwork).2 hlt
  rw [hmiddle.1] at hlonger
  intro hnone
  rw [Attempted.readings, List.drop_eq_nil_iff] at hnone
  omega

/-- What is known of an attempt by its end. -/
structure Attempted.Timed (env : Environment Request Answer ω)
    (cfg : FollowConfig) (updates : Bool) (a : Attempted ω) (kept : List ℕ) :
    Prop where
  grows : a.entered.2 <+: a.left.2
  past : a.left.2 <+: kept
  looked : a.Synced env cfg updates → a.readings ≠ []

theorem Attempted.timed {outcome : Except Failure Unit}
    {entered left settled : ω × List ℕ}
    (hrun : (phase.attempt cfg updates).Runs (env.observed noteClock) entered s
      left outcome s')
    (hsettled : left.2 <+: settled.2) (hs : Shown entered.2 s) :
    Attempted.Timed env cfg updates ⟨phase, entered, s, outcome, left, s'⟩
      settled.2 where
  grows := prefix_of_runs hrun
  past := hsettled
  looked hsynced := hsynced.looked hs

theorem shown_of_runs {outcome : Except Failure Unit}
    {entered left : ω × List ℕ}
    (hrun : (phase.attempt cfg updates).Runs (env.observed noteClock) entered s
      left outcome s')
    (hs : Shown entered.2 s) : Shown left.2 s' := by
  cases outcome with
  | ok result => exact (meets_attempt_shown hs).of_ok hrun
  | error failure => exact (meets_attempt_shown hs).of_error hrun

/-- Between two attempts the handle holds the last reading, and what is known of
the attempts stays true. -/
theorem ServeRun.timed {entered : ω × List ℕ} {start : Process}
    (hrun : ServeRun env cfg updates world start attempts phase entered s)
    (hstart : Shown [] start) :
    Shown entered.2 s ∧
      ∀ a ∈ attempts, a.Timed env cfg updates entered.2 := by
  have hextend : ∀ {attempts : List (Attempted ω)} {a : Attempted ω}
      {middle final : ω × List ℕ},
      (∀ b ∈ attempts, b.Timed env cfg updates middle.2) →
        middle.2 <+: final.2 → a.Timed env cfg updates final.2 →
        ∀ b ∈ attempts ++ [a], b.Timed env cfg updates final.2 := by
    intro attempts a middle final hbefore hgrows ha b hb
    rcases List.mem_append.mp hb with hb | hb
    · have hb := hbefore b hb
      exact ⟨hb.grows, hb.past.trans hgrows, hb.looked⟩
    · rw [List.mem_singleton] at hb
      rw [hb]
      exact ha
  induction hrun with
  | start =>
      constructor
      · exact hstart
      · intro a ha
        cases ha
  | behind hrun hattempt ih =>
      have hattempt' : (ServePhase.catchingUp.attempt cfg updates).Runs _ _ _ _ _ _ :=
        hattempt
      constructor
      · exact shown_of_runs hattempt' ih.1
      · exact hextend ih.2 (prefix_of_runs hattempt)
          (Attempted.timed hattempt' List.prefix_rfl ih.1)
  | caughtUp hrun hattempt ih =>
      have hattempt' : (ServePhase.catchingUp.attempt cfg updates).Runs _ _ _ _ _ _ :=
        hattempt
      constructor
      · exact (shown_of_runs hattempt' ih.1).congr rfl
      · exact hextend ih.2 (prefix_of_runs hattempt)
          (Attempted.timed hattempt' List.prefix_rfl ih.1)
  | passed hrun hattempt hsettled ih =>
      have hattempt' : (ServePhase.following.attempt cfg updates).Runs _ _ _ _ _ _ :=
        hattempt
      have hs₂ := shown_of_runs hattempt' ih.1
      have hgrows := prefix_of_runs hsettled
      constructor
      · have hkept := (leaves_onSuccess.meets_shown asks_modify hs₂).of_ok
          hsettled
        rw [hkept.1]
        exact hkept.2
      · exact hextend ih.2 ((prefix_of_runs hattempt).trans hgrows)
          (Attempted.timed hattempt' hgrows ih.1)
  | failed hrun hattempt hsettled ih =>
      have hattempt' : (ServePhase.following.attempt cfg updates).Runs _ _ _ _ _ _ :=
        hattempt
      have hs₂ := shown_of_runs hattempt' ih.1
      have hgrows := prefix_of_runs hsettled
      constructor
      · have hkept := (leaves_onFailure.meets_shown asks_onFailure hs₂).of_ok
          hsettled
        rw [hkept.1]
        exact hkept.2
      · exact hextend ih.2 ((prefix_of_runs hattempt).trans hgrows)
          (Attempted.timed hattempt' hgrows ih.1)

theorem Attempted.left_eq (h : a.entered.2 <+: a.left.2) :
    a.left.2 = a.entered.2 ++ a.readings := by
  rcases h with ⟨rest, hrest⟩
  rw [Attempted.readings, ← hrest, List.drop_left]

/-- The last reading of an attempt that looked is one of its own. -/
theorem Attempted.Timed.last (h : a.Timed env cfg updates kept)
    (ha : a.readings ≠ []) :
    a.left.2.getLast?.getD 0 = a.readings.getLast ha := by
  rw [Attempted.left_eq h.grows, List.getLast?_append_of_ne_nil _ ha,
    List.getLast?_eq_getLast_of_ne_nil ha, Option.getD_some]

theorem ageSecs_eq_none {progress : Progress} (h : progress.recordedAt = 0)
    (now : ℕ) : (progress.sample now).ageSecs = none := by
  simp [Progress.sample, h]

theorem ageSecs_eq_some {progress : Progress} (h : 0 < progress.recordedAt)
    (now : ℕ) :
    (progress.sample now).ageSecs = some (now - progress.recordedAt) := by
  simp [Progress.sample, h]

/-- Nothing has come as far as the clock since the last completed sync, so the
last reading is from within it. -/
theorem NoneSince.reports {progress : Progress}
    (htimed : ∀ a ∈ attempts, a.Timed env cfg updates kept)
    (hpos : ∀ t ∈ readings, 0 < t) (hshows : Shows readings progress)
    (h : NoneSince env cfg updates attempts readings) :
    ReportsCompleted env cfg updates attempts
      fun now => (progress.sample now).ageSecs := by
  constructor
  · intro hnone
    apply ageSecs_eq_none
    rw [hshows, h.1 hnone]
    rfl
  · intro a ha
    have hreadings := h.2 a ha
    rcases ha with ⟨earlier, later, hsplit, hsynced, -⟩
    have hmem : a ∈ attempts := by
      rw [hsplit]
      exact List.mem_append_right _ List.mem_cons_self
    have hlooked := (htimed a hmem).looked hsynced
    have hlast := (htimed a hmem).last hlooked
    have hrecorded : progress.recordedAt = a.readings.getLast hlooked := by
      rw [hshows, hreadings]
      exact hlast
    have hin : a.readings.getLast hlooked ∈ readings := by
      rw [hreadings, Attempted.left_eq (htimed a hmem).grows]
      exact List.mem_append_right _ (List.getLast_mem hlooked)
    refine ⟨_, List.getLast_mem hlooked, ?_⟩
    rw [← hrecorded] at hin ⊢
    exact ageSecs_eq_some (hpos _ hin)

/-- The other way round, the clock must move on: of two readings of the same
second the later one cannot be told. -/
theorem NoneSince.of_reports {progress : Progress}
    (htimed : ∀ a ∈ attempts, a.Timed env cfg updates kept)
    (hkept : kept <+: readings) (hpos : ∀ t ∈ readings, 0 < t)
    (hclock : readings.Pairwise (· < ·)) (hshows : Shows readings progress)
    (h : ReportsCompleted env cfg updates attempts
      fun now => (progress.sample now).ageSecs) :
    NoneSince env cfg updates attempts readings := by
  have hlast : ∀ hne : readings ≠ [],
      progress.recordedAt = readings.getLast hne := by
    intro hne
    rw [hshows, List.getLast?_eq_getLast_of_ne_nil hne, Option.getD_some]
  constructor
  · intro hnone
    by_contra hne
    have hage := h.1 hnone 0
    have hsome := hpos _ (List.getLast_mem hne)
    rw [← hlast hne] at hsome
    dsimp only at hage
    rw [ageSecs_eq_some hsome] at hage
    cases hage
  · intro a ha
    rcases h.2 a ha with ⟨t, ht, hage⟩
    rcases ha with ⟨earlier, later, hsplit, hsynced, -⟩
    have hmem : a ∈ attempts := by
      rw [hsplit]
      exact List.mem_append_right _ List.mem_cons_self
    have hleft : t ∈ a.left.2 := by
      rw [Attempted.left_eq (htimed a hmem).grows]
      exact List.mem_append_right _ ht
    rcases (htimed a hmem).past.trans hkept with ⟨rest, hrest⟩
    by_contra hne
    have hmore : rest ≠ [] := by
      intro hnil
      rw [hnil, List.append_nil] at hrest
      exact hne hrest.symm
    have hreadings : readings ≠ [] := by
      rw [← hrest]
      exact List.append_ne_nil_of_right_ne_nil _ hmore
    have hrecorded : progress.recordedAt = rest.getLast hmore := by
      rw [hlast hreadings]
      simp only [← hrest]
      exact List.getLast_append_of_ne_nil _ hmore
    have hlater : t < progress.recordedAt := by
      rw [← hrest, List.pairwise_append] at hclock
      rw [hrecorded]
      exact hclock.2.2 t hleft _ (List.getLast_mem hmore)
    have hsame := hage progress.recordedAt
    dsimp only at hsame
    rw [ageSecs_eq_some (Nat.lt_of_le_of_lt (Nat.zero_le t) hlater),
      Option.some.injEq] at hsame
    omega

end Runs

/-- In every run of `serve`, whether an attempt is under way or not: the age
counts from the last completed sync exactly when no attempt has come as far as
recording its progress since. -/
theorem freshness_reports_completed {ω : Type}
    {env : Environment Request Answer ω} {world : ω} {start s : Process}
    {cfg : FollowConfig} {updates : Bool} {attempts : List (Attempted ω)}
    {phase : ServePhase} {entered reached : ω × List ℕ}
    (hhandle : start.progress = some Progress.handle)
    (hrun : ServeRun env cfg updates world start attempts phase entered s)
    (hreached : (phase.attempt cfg updates).Visits (env.observed noteClock)
      entered s reached)
    (hpos : ∀ t ∈ reached.2, 0 < t) :
    Shown entered.2 s ∧ ∀ progress, Shows reached.2 progress →
      (NoneSince env cfg updates attempts reached.2 →
        ReportsCompleted env cfg updates attempts
          fun now => (progress.sample now).ageSecs) ∧
      (reached.2.Pairwise (· < ·) →
        (ReportsCompleted env cfg updates attempts
          fun now => (progress.sample now).ageSecs) →
        NoneSince env cfg updates attempts reached.2) := by
  have hstart : Shown [] start := ⟨Progress.handle, hhandle, rfl⟩
  rcases hrun.timed hstart with ⟨hs, htimed⟩
  have hgrows : entered.2 <+: reached.2 :=
    Dialogue.Visits.extends (R := (· <+: ·)) (fun _ => List.prefix_rfl)
      List.IsPrefix.trans noteClock_prefix hreached
  constructor
  · exact hs
  · intro progress hshows
    constructor
    · intro hnone
      exact hnone.reports htimed hpos hshows
    · intro hclock hreports
      exact NoneSince.of_reports htimed hgrows hpos hclock hshows hreports

/-- What is promised of every state of every run. -/
def ReportsAlways {ω : Type} (env : Environment Request Answer ω) : Prop :=
  ∀ {world : ω} {start s : Process} {cfg : FollowConfig} {updates : Bool}
    {attempts : List (Attempted ω)} {phase : ServePhase} {entered reached : ω × List ℕ},
    start.progress = some Progress.handle →
      ServeRun env cfg updates world start attempts phase entered s →
      (phase.attempt cfg updates).Visits (env.observed noteClock) entered s
        reached →
      (∀ t ∈ reached.2, 0 < t) →
      ∀ progress, Shows reached.2 progress →
        ReportsCompleted env cfg updates attempts
          fun now => (progress.sample now).ageSecs

/-! ### A provider that serves no logs -/

namespace NoLogs

def config : FollowConfig :=
  ⟨50, 600, .finalized, 64, .wrapping⟩

def start : Process :=
  { Process.launched (BalanceMap.new 0) with progress := some Progress.handle }

/-- The clock reads 100, and logs are served or not. -/
def answer (broken : Bool) (world : Unit) : (q : Request) → Answer q × Unit
  | .unixNow => ((100 : ℕ), world)
  | .getLogs f =>
      (if broken then Except.error ⟨"timeout"⟩
        else (DiskFull.chain.respond 3 5 world (.getLogs f)).1, world)
  | q => DiskFull.chain.respond 3 5 world q

def env (broken : Bool) : Environment Request Answer Unit :=
  .answering (answer broken)

def finish (broken : Bool) : (Except Failure Unit × Process) × (Unit × List ℕ) :=
  (catchUpOnce config).exec (noted (answer broken) noteClock) ((), []) start

def left (broken : Bool) : Unit × List ℕ :=
  ((), (finish broken).2.2)

theorem run (broken : Bool) {outcome : Except Failure Unit}
    (houtcome : (finish broken).1.1 = outcome) :
    (catchUpOnce config).Runs ((env broken).observed noteClock) ((), []) start
      (left broken) outcome (finish broken).1.2 := by
  have hanswers : ∀ world question, env broken () question
      (answer broken world question).1 () :=
    fun _ _ => rfl
  unfold left finish at *
  exact runs_exec_noted (fun _ => ()) (catchUpOnce config) () [] start
    hanswers houtcome

def attempted (broken : Bool) (outcome : Except Failure Unit) : Attempted Unit :=
  ⟨.catchingUp, ((), []), start, outcome, left broken, (finish broken).1.2⟩

theorem readings_eq (broken : Bool) : (left broken).2 = [100] := by
  cases broken with
  | true => decide +kernel
  | false => decide +kernel

theorem reading_pos (broken : Bool) : ∀ t ∈ (left broken).2, 0 < t := by
  rw [readings_eq]
  simp

theorem caughtUp : ServeRun (env false) config false () start
    [attempted false (.ok ())] .following (left false)
    ((finish false).1.2.startFollow 0) := by
  have hok : (finish false).1.1 = .ok () := by decide +kernel
  exact .caughtUp .start (run false hok)

theorem freshness_reports_completed_caughtUp :
    Shown (left false).2 ((finish false).1.2.startFollow 0) ∧
      ∀ progress, Shows (left false).2 progress →
        (NoneSince (env false) config false [attempted false (.ok ())]
            (left false).2 →
          ReportsCompleted (env false) config false
            [attempted false (.ok ())] fun now => (progress.sample now).ageSecs) ∧
        ((left false).2.Pairwise (· < ·) →
          (ReportsCompleted (env false) config false
            [attempted false (.ok ())] fun now =>
              (progress.sample now).ageSecs) →
          NoneSince (env false) config false [attempted false (.ok ())]
            (left false).2) :=
  freshness_reports_completed rfl caughtUp (.here _ _) (reading_pos false)

theorem behind : ServeRun (env true) config false () start
    [attempted true (.error (.err ["timeout"]))] .catchingUp (left true)
    (finish true).1.2 := by
  have herror : (finish true).1.1 = .error (.err ["timeout"]) := by
    decide +kernel
  exact .behind .start (run true herror)

/-- Nothing was ever synced, and the age is seven seconds. -/
theorem age_of_failed_attempt : ¬ ReportsAlways (env true) := by
  intro hreports
  have hshows : Shows (left true).2 ⟨0, 3, 100⟩ := by
    rw [readings_eq]
    rfl
  have hnone : ∀ a ∈ [attempted true (.error (.err ["timeout"]))],
      ¬ a.Synced (env true) config false := by
    intro a ha hsynced
    rw [List.mem_singleton] at ha
    rw [ha] at hsynced
    cases hsynced.1
  have hage := (hreports rfl behind (.here _ _) (reading_pos true) _ hshows).1
    hnone 107
  cases hage

end NoLogs

end UsdtPir
