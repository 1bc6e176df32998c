import UsdtPir.Interruption

/-!
# Records of a run

An observer notes every question with its answer, and never changes an answer.
A program that asks none of the questions an observer cares about leaves its
record alone, so what is known of the program carries over.
-/

namespace Interaction

universe u v w x y

/-- The environment with a record that `note` extends at every answer. -/
def Environment.observed {Q : Type u} {A : Q → Type v} {ω : Type x}
    {κ : Type y} (env : Environment Q A ω) (note : κ → (q : Q) → A q → κ) :
    Environment Q A (ω × κ) :=
  fun world question answer after =>
    env world.1 question answer after.1 ∧
      after.2 = note world.2 question answer

namespace Dialogue

variable {Q : Type u} {A : Q → Type v} {ρ τ : Type w} {ω : Type x}
    {κ : Type y} {kind : Q → Prop}

/-- Every question is of the kind, whatever was answered before. -/
def Asks (kind : Q → Prop) : Dialogue Q A ρ → Prop
  | done _ => True
  | ask question next => kind question ∧ ∀ answer, Asks kind (next answer)

theorem Asks.bind {d : Dialogue Q A ρ} {f : ρ → Dialogue Q A τ}
    (hd : d.Asks kind) (hf : ∀ result, (f result).Asks kind) :
    (d.bind f).Asks kind := by
  induction d with
  | done result => exact hf result
  | ask question next ih =>
      rcases hd with ⟨hkind, hnext⟩
      constructor
      · exact hkind
      · intro answer
        exact ih answer (hnext answer)

theorem Asks.mono {kind' : Q → Prop} {d : Dialogue Q A ρ}
    (hd : d.Asks kind) (himp : ∀ question, kind question → kind' question) :
    d.Asks kind' := by
  induction d with
  | done result => trivial
  | ask question next ih =>
      rcases hd with ⟨hkind, hnext⟩
      constructor
      · exact himp question hkind
      · intro answer
        exact ih answer (hnext answer)

/-- What the questions of the kind leave true of the record stays true. -/
theorem Asks.ensures_observed {env : Environment Q A ω}
    {note : κ → (q : Q) → A q → κ} {post : ω → ρ → Prop} {P : κ → Prop}
    {world : ω} {kept : κ} {d : Dialogue Q A ρ} (hasks : d.Asks kind)
    (hnote : ∀ kept question answer, kind question → P kept →
      P (note kept question answer))
    (hkept : P kept) (hens : Ensures env post world d) :
    Ensures (env.observed note)
      (fun final result => P final.2 ∧ post final.1 result) (world, kept) d := by
  induction d generalizing world kept with
  | done result => exact ⟨hkept, hens⟩
  | ask question next ih =>
      rcases hasks with ⟨hkind, hnext⟩
      rintro answer ⟨after, recorded⟩ ⟨hanswer, hrecorded⟩
      apply ih answer (hnext answer)
      · change recorded = note kept question answer at hrecorded
        rw [hrecorded]
        exact hnote kept question answer hkind hkept
      · exact hens answer after hanswer

/-- A record that every answer extends is extended by a run. -/
theorem Runs.extends {env : Environment Q A ω} {note : κ → (q : Q) → A q → κ}
    {R : κ → κ → Prop} (hrefl : ∀ kept, R kept kept)
    (htrans : ∀ {first second third}, R first second → R second third →
      R first third)
    (hnote : ∀ kept question answer, R kept (note kept question answer))
    {world final : ω × κ} {d : Dialogue Q A ρ} {result : ρ}
    (hrun : Runs (env.observed note) world d final result) :
    R world.2 final.2 := by
  induction hrun with
  | done world result => exact hrefl world.2
  | @ask world after final question next answer result hanswer hrest ih =>
      have hone := hnote world.2 question answer
      rw [← hanswer.2] at hone
      exact htrans hone ih

theorem Visits.extends {env : Environment Q A ω}
    {note : κ → (q : Q) → A q → κ} {R : κ → κ → Prop}
    (hrefl : ∀ kept, R kept kept)
    (htrans : ∀ {first second third}, R first second → R second third →
      R first third)
    (hnote : ∀ kept question answer, R kept (note kept question answer))
    {world final : ω × κ} {d : Dialogue Q A ρ}
    (hvisits : Visits (env.observed note) world d final) :
    R world.2 final.2 := by
  induction hvisits with
  | here world d => exact hrefl world.2
  | @ask world after final question next answer hanswer hrest ih =>
      have hone := hnote world.2 question answer
      rw [← hanswer.2] at hone
      exact htrans hone ih

/-- What holds whatever is recorded holds without a record. -/
theorem ensures_of_observed {env : Environment Q A ω}
    {note : κ → (q : Q) → A q → κ} {post : ω → ρ → Prop} {world : ω} {kept : κ}
    {d : Dialogue Q A ρ}
    (hens : Ensures (env.observed note) (fun final result => post final.1 result)
      (world, kept) d) : Ensures env post world d := by
  induction d generalizing world kept with
  | done result => exact hens
  | ask question next ih =>
      intro answer after hanswer
      exact ih answer (hens answer (after, note kept question answer)
        ⟨hanswer, rfl⟩)

end Dialogue

namespace Program

variable {Q : Type u} {A : Q → Type v} {σ ε ρ τ : Type w} {ω : Type x}
    {κ : Type y} {kind : Q → Prop}

def Asks (kind : Q → Prop) (p : Program Q A σ ε ρ) : Prop :=
  ∀ state, (p state).Asks kind

theorem asks_pure {result : ρ} :
    Asks kind (Pure.pure result : Program Q A σ ε ρ) :=
  fun _ => trivial

theorem asks_throw {failure : ε} :
    Asks kind (Program.throw failure : Program Q A σ ε ρ) :=
  fun _ => trivial

theorem asks_get : Asks kind (Program.get : Program Q A σ ε σ) :=
  fun _ => trivial

theorem asks_modify {f : σ → σ} :
    Asks kind (Program.modify f : Program Q A σ ε PUnit) :=
  fun _ => trivial

theorem asks_ofExcept {e : Except ε ρ} :
    Asks kind (ofExcept e : Program Q A σ ε ρ) := by
  cases e with
  | ok result => exact asks_pure
  | error failure => exact asks_throw

theorem asks_query {A : Q → Type w} {question : Q} (h : kind question) :
    Asks kind (query question : Program Q A σ ε (A question)) :=
  fun _ => ⟨h, fun _ => trivial⟩

theorem asks_bind {p : Program Q A σ ε τ} {f : τ → Program Q A σ ε ρ}
    (hp : Asks kind p) (hf : ∀ result, Asks kind (f result)) :
    Asks kind (p >>= f) := by
  intro state
  apply Dialogue.Asks.bind (hp state)
  intro outcome
  rcases outcome with ⟨failure | result, state'⟩
  · trivial
  · exact hf result state'

theorem asks_attempt {p : Program Q A σ ε ρ} (hp : Asks kind p) :
    Asks kind (attempt p) := by
  intro state
  apply Dialogue.Asks.bind (hp state)
  intro outcome
  trivial

theorem Asks.weaken {kind' : Q → Prop} {p : Program Q A σ ε ρ}
    (hp : Asks kind p) (himp : ∀ question, kind question → kind' question) :
    Asks kind' p :=
  fun state => (hp state).mono himp

/-- The record keeps what these questions cannot change, and everything else is
as without an observer. -/
theorem Meets.observed {env : Environment Q A ω}
    {note : κ → (q : Q) → A q → κ} {p : Program Q A σ ε ρ} {P : κ → Prop}
    {world : ω} {kept : κ} {state : σ} {ok : ω → ρ → σ → Prop}
    {err : ω → ε → σ → Prop} (hmeets : Meets env p world state ok err)
    (hasks : Asks kind p)
    (hnote : ∀ kept question answer, kind question → P kept →
      P (note kept question answer)) (hkept : P kept) :
    Meets (env.observed note) p (world, kept) state
      (fun final result state' => P final.2 ∧ ok final.1 result state')
      (fun final failure state' => P final.2 ∧ err final.1 failure state') := by
  refine Dialogue.ensures_mono
    ((hasks state).ensures_observed hnote hkept hmeets) ?_
  rintro final ⟨failure | result, state'⟩ hpost
  · exact hpost
  · exact hpost

theorem Meets.of_observed {env : Environment Q A ω}
    {note : κ → (q : Q) → A q → κ} {p : Program Q A σ ε ρ} {world : ω} {kept : κ}
    {state : σ} {ok : ω → ρ → σ → Prop} {err : ω → ε → σ → Prop}
    (hmeets : Meets (env.observed note) p (world, kept) state
      (fun final => ok final.1) (fun final => err final.1)) :
    Meets env p world state ok err := by
  apply Dialogue.ensures_of_observed
  refine Dialogue.ensures_mono hmeets ?_
  rintro final ⟨failure | result, state'⟩ hpost
  · exact hpost
  · exact hpost

theorem Meets.and {env : Environment Q A ω} {p : Program Q A σ ε ρ}
    {world : ω} {state : σ} {ok ok' : ω → ρ → σ → Prop}
    {err err' : ω → ε → σ → Prop} (h : Meets env p world state ok err)
    (h' : Meets env p world state ok' err') :
    Meets env p world state
      (fun final result state' => ok final result state' ∧
        ok' final result state')
      (fun final failure state' => err final failure state' ∧
        err' final failure state') := by
  rw [meets_iff_forall_runs] at h h' ⊢
  constructor
  · intro final result state' hrun
    exact ⟨h.1 final result state' hrun, h'.1 final result state' hrun⟩
  · intro final failure state' hrun
    exact ⟨h.2 final failure state' hrun, h'.2 final failure state' hrun⟩

/-- A respondent with a record. -/
def noted {υ : Type x} (respond : υ → (q : Q) → A q × υ)
    (note : κ → (q : Q) → A q → κ) (world : υ × κ) (question : Q) :
    A question × (υ × κ) :=
  ((respond world.1 question).1, ((respond world.1 question).2,
    note world.2 question (respond world.1 question).1))

theorem runs_exec_noted {υ : Type x} {env : Environment Q A ω}
    {respond : υ → (q : Q) → A q × υ} {note : κ → (q : Q) → A q → κ}
    (view : υ → ω) (p : Program Q A σ ε ρ) (world : υ) (kept : κ) (state : σ)
    (hrespond : ∀ world question,
      env (view world) question (respond world question).1
        (view (respond world question).2))
    {outcome : Except ε ρ}
    (houtcome : (exec (noted respond note) p (world, kept) state).1.1 =
      outcome) :
    p.Runs (env.observed note) (view world, kept) state
      (view (exec (noted respond note) p (world, kept) state).2.1,
        (exec (noted respond note) p (world, kept) state).2.2)
      outcome (exec (noted respond note) p (world, kept) state).1.2 := by
  have hnoted : ∀ (world : υ × κ) question,
      env.observed note (view world.1, world.2) question
        (noted respond note world question).1
        (view (noted respond note world question).2.1,
          (noted respond note world question).2.2) := by
    intro world question
    exact ⟨hrespond world.1 question, rfl⟩
  rw [← houtcome]
  exact runs_exec (fun world => (view world.1, world.2)) p (world, kept) state
    hnoted

end Program

end Interaction
