import UsdtPir.Interaction

/-!
# Programs that are cut off

A run visits every state of the environment between its questions, and a
program that is cut off leaves the environment in one of them.  `Guards` adds
to the weakest precondition what holds in all of them.
-/

namespace Interaction

universe u v w x

namespace Dialogue

variable {Q : Type u} {A : Q → Type v} {ρ τ : Type w} {ω : Type x}

/-- The dialogue can take the environment to a state, finished or not. -/
inductive Visits (env : Environment Q A ω) :
    ω → Dialogue Q A ρ → ω → Prop
  | here (world : ω) (d : Dialogue Q A ρ) : Visits env world d world
  | ask {world after final : ω} {question : Q}
      {next : A question → Dialogue Q A ρ} {answer : A question}
      (hanswer : env world question answer after)
      (hrest : Visits env after (next answer) final) :
      Visits env world (ask question next) final

/-- `I` holds at every state on the way, and `post` at the end. -/
def Guards (env : Environment Q A ω) (I : ω → Prop) (post : ω → ρ → Prop) :
    ω → Dialogue Q A ρ → Prop
  | world, done result => I world ∧ post world result
  | world, ask question next =>
      I world ∧ ∀ answer after, env world question answer after →
        Guards env I post after (next answer)

theorem Guards.here {env : Environment Q A ω} {I : ω → Prop}
    {post : ω → ρ → Prop} {world : ω} {d : Dialogue Q A ρ}
    (h : Guards env I post world d) : I world := by
  cases d with
  | done result => exact h.1
  | ask question next => exact h.1

theorem Guards.visits {env : Environment Q A ω} {I : ω → Prop}
    {post : ω → ρ → Prop} {world final : ω} {d : Dialogue Q A ρ}
    (h : Guards env I post world d) (hvisits : Visits env world d final) :
    I final := by
  induction hvisits with
  | here world d => exact h.here
  | ask hanswer hrest ih => exact ih (h.2 _ _ hanswer)

theorem Guards.ensures {env : Environment Q A ω} {I : ω → Prop}
    {post : ω → ρ → Prop} {world : ω} {d : Dialogue Q A ρ}
    (h : Guards env I post world d) : Ensures env post world d := by
  induction d generalizing world with
  | done result => exact h.2
  | ask question next ih =>
      intro answer after hanswer
      exact ih answer (h.2 answer after hanswer)

theorem Guards.mono {env : Environment Q A ω} {I : ω → Prop}
    {post post' : ω → ρ → Prop} {world : ω} {d : Dialogue Q A ρ}
    (h : Guards env I post world d)
    (himp : ∀ final result, post final result → post' final result) :
    Guards env I post' world d := by
  induction d generalizing world with
  | done result => exact ⟨h.1, himp _ _ h.2⟩
  | ask question next ih =>
      constructor
      · exact h.1
      · intro answer after hanswer
        exact ih answer (h.2 answer after hanswer)

theorem Guards.bind {env : Environment Q A ω} {I : ω → Prop}
    {post : ω → τ → Prop} {world : ω} {d : Dialogue Q A ρ}
    {f : ρ → Dialogue Q A τ}
    (h : Guards env I (fun middle result => Guards env I post middle (f result))
      world d) :
    Guards env I post world (d.bind f) := by
  induction d generalizing world with
  | done result => exact h.2
  | ask question next ih =>
      constructor
      · exact h.1
      · intro answer after hanswer
        exact ih answer (h.2 answer after hanswer)

end Dialogue

namespace Program

variable {Q : Type u} {A : Q → Type v} {σ ε ρ τ : Type w} {ω : Type x}
    {env : Environment Q A ω} {I : ω → Prop} {world : ω} {state : σ}
    {ok : ω → ρ → σ → Prop} {err : ω → ε → σ → Prop}

/-- The environment when the program is cut off. -/
def Visits (env : Environment Q A ω) (p : Program Q A σ ε ρ) (world : ω)
    (state : σ) (final : ω) : Prop :=
  Dialogue.Visits env world (p state) final

/-- `I` holds whenever the program is cut off, and at its end the one or the
other postcondition. -/
def Guards (env : Environment Q A ω) (I : ω → Prop) (p : Program Q A σ ε ρ)
    (world : ω) (state : σ) (ok : ω → ρ → σ → Prop) (err : ω → ε → σ → Prop) :
    Prop :=
  Dialogue.Guards env I
    (fun final outcome =>
      match outcome with
      | (.ok result, state') => ok final result state'
      | (.error failure, state') => err final failure state')
    world (p state)

theorem Guards.visits {p : Program Q A σ ε ρ} {final : ω}
    (h : Guards env I p world state ok err)
    (hvisits : p.Visits env world state final) : I final :=
  Dialogue.Guards.visits h hvisits

theorem Guards.meets {p : Program Q A σ ε ρ}
    (h : Guards env I p world state ok err) : Meets env p world state ok err :=
  Dialogue.Guards.ensures h

theorem Guards.mono {p : Program Q A σ ε ρ} {ok' : ω → ρ → σ → Prop}
    {err' : ω → ε → σ → Prop} (h : Guards env I p world state ok err)
    (hok : ∀ final result state', ok final result state' →
      ok' final result state')
    (herr : ∀ final failure state', err final failure state' →
      err' final failure state') :
    Guards env I p world state ok' err' := by
  refine Dialogue.Guards.mono h ?_
  rintro final ⟨failure | result, state'⟩ hpost
  · exact herr _ _ _ hpost
  · exact hok _ _ _ hpost

theorem guards_pure {result : ρ} (hI : I world) (h : ok world result state) :
    Guards env I (Pure.pure result : Program Q A σ ε ρ) world state ok err :=
  ⟨hI, h⟩

theorem guards_of_ok {p : Program Q A σ ε ρ} {result : ρ} {state' : σ}
    (hp : p state = .done (.ok result, state')) (hI : I world)
    (h : ok world result state') : Guards env I p world state ok err := by
  unfold Guards
  rw [hp]
  exact ⟨hI, h⟩

theorem guards_of_error {p : Program Q A σ ε ρ} {failure : ε} {state' : σ}
    (hp : p state = .done (.error failure, state')) (hI : I world)
    (h : err world failure state') : Guards env I p world state ok err := by
  unfold Guards
  rw [hp]
  exact ⟨hI, h⟩

theorem guards_query_bind {A : Q → Type w} {env : Environment Q A ω}
    {question : Q} {f : A question → Program Q A σ ε ρ} (hI : I world)
    (h : ∀ answer after, env world question answer after →
      Guards env I (f answer) after state ok err) :
    Guards env I (Program.query question >>= f) world state ok err :=
  ⟨hI, h⟩

theorem Guards.bind {p : Program Q A σ ε τ} {f : τ → Program Q A σ ε ρ}
    (h : Guards env I p world state
      (fun middle result state' =>
        Guards env I (f result) middle state' ok err)
      (fun final failure state' => I final ∧ err final failure state')) :
    Guards env I (p >>= f) world state ok err := by
  refine Dialogue.Guards.bind (Dialogue.Guards.mono h ?_)
  rintro middle ⟨failure | result, state'⟩ hpost
  · exact hpost
  · exact hpost

end Program

end Interaction
