import UsdtPir.ReorgWatch

/-!
# Catching up before the loop

`serve` syncs to the tip before it publishes anything.  Each attempt has a pass
state of its own and checks no hash, and the map is saved whether or not the
sync worked; then the follow loop starts with another new pass state.
-/

namespace UsdtPir

open Interaction
open Program
open Following

def syncToTarget (cfg : FollowConfig) (target : ℕ) : Sync Unit := do
  let now ← Ask.instantNow
  Program.modify fun s => { s with
    lastSnapshot := now
    watch := default
    changed := ∅ }
  let s ← Program.get
  let synced ← attempt (sync cfg (s.map.cursor + 1) target)
  match synced with
  | .ok _ => saveMapOrFail
  | .error (.err chain) => do
      saveMapOrFail
      .throw (.err chain)
  | .error failure => .throw failure

/-- `catch_up_once`, once the target is resolved. -/
def catchUpTo (cfg : FollowConfig) (target : ℕ) : Sync Unit := do
  let s ← Program.get
  if target ≤ s.map.cursor then
    pure ()
  else do
    recordProgress s.map.cursor target
    syncToTarget cfg target

def catchUpOnce (cfg : FollowConfig) : Sync Unit := do
  let target ← cfg.tip.resolve
  catchUpTo cfg target

/-- One attempt of `catch_up_before_publish`: an error is survived. -/
def catchUpRound (cfg : FollowConfig) : Sync (Except Failure Unit) := do
  let outcome ← attempt (catchUpOnce cfg)
  match outcome with
  | .ok () => pure outcome
  | .error (.err _) => pure outcome
  | .error failure => .throw failure

/-- The process with the watch of a new pass state. -/
def Process.renewed (s : Process) : Process :=
  { s with watch := default }

/-- What an attempt leaves: the map as it was, or chunks up to the tip folded in
under a new watch. -/
def CaughtUp (truth : (q : Request) → Answer q → Prop) (cfg : FollowConfig)
    (s s' : Process) : Prop :=
  s'.map = s.map ∨
    ∃ target, ResolvesTo truth cfg.tip target ∧ s.map.cursor < target ∧
      Scanned truth cfg target s.renewed s'

section Rules

variable {ω : Type} {env : Environment Request Answer ω} {world : ω}
    {s s₁ s' : Process} {truth : (q : Request) → Answer q → Prop}
    {cfg : FollowConfig} {target : ℕ}

theorem meets_sync (hkeeps : env.Keeps truth) (hlt : s.map.cursor < target) :
    Meets env (sync cfg (s.map.cursor + 1) target) world s
      (fun _ _ s' => Scanned truth cfg target s s')
      (fun _ _ s' => Scanned truth cfg target s s') := by
  have hle : s.map.cursor + 1 ≤ target := hlt
  have hstart : SyncStarted cfg target s (Process.startSync { s with
      totals := startTotals cfg (s.map.cursor + 1) target }) :=
    ⟨s.progress, rfl⟩
  simp only [sync, meets_bind, meets_modify]
  apply meets_mono (meets_syncInto hkeeps hle)
  · intro final _ s₃ hend
    rcases hend with ⟨lo', s₂, -, hchunks, rfl⟩
    simp only [meets_get, meets_pure]
    exact hstart.scanned hchunks (hstart.pruned_same hchunks)
  · intro final failure s' hend
    rcases hend with ⟨lo', hchunks⟩
    exact hstart.scanned hchunks (.refl _)

theorem meets_saveMapOrFail_same :
    Meets env saveMapOrFail world s (fun _ _ s' => SameMap s s')
      (fun _ _ s' => SameMap s s') := by
  rw [meets_saveMapOrFail]
  intro answer after _
  cases answer with
  | ok written => exact ⟨rfl, rfl, .inr rfl⟩
  | error e => exact .refl s

theorem Scanned.same (h : Scanned truth cfg target s s₁)
    (hsame : SameMap s₁ s') : Scanned truth cfg target s s' := by
  rcases h with ⟨s₂, s₃, lo', hbefore, hchunks, hafter⟩
  exact ⟨s₂, s₃, lo', hbefore, hchunks, hafter.trans hsame⟩

theorem Scanned.of_same (h : Scanned truth cfg target s₁ s')
    (hsame : SameMap s s₁) : Scanned truth cfg target s s' := by
  rcases h with ⟨s₂, s₃, lo', hbefore, hchunks, hafter⟩
  exact ⟨s₂, s₃, lo', hsame.trans hbefore, hchunks, hafter⟩

theorem meets_syncToTarget (hkeeps : env.Keeps truth)
    (hlt : s.map.cursor < target) :
    Meets env (syncToTarget cfg target) world s
      (fun _ _ s' => Scanned truth cfg target s.renewed s')
      (fun _ _ s' => Scanned truth cfg target s.renewed s') := by
  have hsaves : ∀ {s₁ world}, Scanned truth cfg target s.renewed s₁ →
      Meets env saveMapOrFail world s₁
        (fun _ _ s' => Scanned truth cfg target s.renewed s')
        (fun _ _ s' => Scanned truth cfg target s.renewed s') := by
    intro s₁ world hscanned
    exact meets_mono meets_saveMapOrFail_same
      (fun _ _ _ hsame => hscanned.same hsame)
      (fun _ _ _ hsame => hscanned.same hsame)
  simp only [syncToTarget, meets_bind, meets_instantNow, meets_modify,
    meets_get, meets_attempt]
  intro now after _
  have hrenewed : SameMap s.renewed
      { s with lastSnapshot := now, watch := default, changed := ∅ } :=
    ⟨rfl, rfl, .inl rfl⟩
  apply meets_mono (meets_sync (s := { s with
    lastSnapshot := now
    watch := default
    changed := ∅ }) hkeeps hlt)
  · intro final totals s₁ hscanned
    exact hsaves (hscanned.of_same hrenewed)
  · intro final failure s₁ hscanned
    cases failure with
    | err chain =>
        simp only [meets_bind, meets_throw]
        exact hsaves (hscanned.of_same hrenewed)
    | panic message => exact hscanned.of_same hrenewed
    | killed => exact hscanned.of_same hrenewed

theorem meets_catchUpTo (hkeeps : env.Keeps truth)
    (htarget : ResolvesTo truth cfg.tip target) :
    Meets env (catchUpTo cfg target) world s
      (fun _ _ s' => CaughtUp truth cfg s s')
      (fun _ _ s' => CaughtUp truth cfg s s') := by
  simp only [catchUpTo, meets_bind, meets_get]
  by_cases hle : target ≤ s.map.cursor
  · rw [if_pos hle, meets_pure]
    exact .inl rfl
  · rw [if_neg hle]
    simp only [meets_bind]
    apply meets_mono meets_recordProgress
    · intro recorded _ s₁ hs₁
      have hmap : s₁.map = s.map := by rw [hs₁]
      have hrenewed : SameMap s.renewed s₁.renewed := by
        rw [hs₁]
        exact ⟨rfl, rfl, .inl rfl⟩
      have hlt : s₁.map.cursor < target := by
        rw [hmap]
        omega
      have hlt' : s.map.cursor < target := by omega
      apply meets_mono (meets_syncToTarget hkeeps hlt)
      · intro final _ s' hscanned
        exact .inr ⟨target, htarget, hlt', hscanned.of_same hrenewed⟩
      · intro final failure s' hscanned
        exact .inr ⟨target, htarget, hlt', hscanned.of_same hrenewed⟩
    · intro final failure s' habs
      exact habs.elim

theorem meets_catchUpOnce (hkeeps : env.Keeps truth) :
    Meets env (catchUpOnce cfg) world s
      (fun _ _ s' => CaughtUp truth cfg s s')
      (fun _ _ s' => CaughtUp truth cfg s s') := by
  simp only [catchUpOnce, meets_bind]
  apply meets_mono meets_resolve
  · intro resolved target s₁ htarget
    rw [htarget.1]
    exact meets_catchUpTo hkeeps (htarget.2.imp fun q answer hanswer =>
      hkeeps _ q answer _ hanswer)
  · intro final failure s' huntouched
    rw [huntouched.1]
    exact .inl rfl

/-- However an attempt ends, it leaves one of the states listed above. -/
theorem meets_catchUpRound (hkeeps : env.Keeps truth) :
    Meets env (catchUpRound cfg) world s
      (fun _ _ s' => CaughtUp truth cfg s s')
      (fun _ _ s' => CaughtUp truth cfg s s') := by
  simp only [catchUpRound, meets_bind, meets_attempt]
  apply meets_mono (meets_catchUpOnce hkeeps)
  · intro final _ s' hcaught
    simp only [meets_pure]
    exact hcaught
  · intro final failure s' hcaught
    cases failure with
    | err chain =>
        simp only [meets_pure]
        exact hcaught
    | panic message => exact hcaught
    | killed => exact hcaught

end Rules

end UsdtPir
