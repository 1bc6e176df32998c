import Mathlib.Logic.Basic
import Mathlib.Logic.Relation
import Mathlib.Tactic.Common

/-!
# Programs that consult an environment

A dialogue is a computation tree: it finishes, or it asks a question and goes
on with whatever answer comes back.  An environment is a relation that answers
questions and moves through states of its own, so one calculus covers a fixed
world, a failing one, and one that changes between two questions of the same
program.  The second half adds a private state and an error, in the order in
which ordinary imperative code has them: an error keeps the state it was
raised in.
-/

namespace Interaction

universe u v w x y

/-- A computation over questions `Q` whose answers have type `A q`. -/
inductive Dialogue (Q : Type u) (A : Q → Type v) (ρ : Type w) :
    Type (max u v w)
  | done (result : ρ)
  | ask (question : Q) (next : A question → Dialogue Q A ρ)

/-- `env w q a w'`: in state `w` the question `q` may be answered `a`, which
leaves the environment in state `w'`. -/
def Environment (Q : Type u) (A : Q → Type v) (ω : Type x) :=
  ω → (q : Q) → A q → ω → Prop

/-- Whatever the environment answers, in any state, satisfies `truth`. -/
def Environment.Keeps {Q : Type u} {A : Q → Type v} {ω : Type x}
    (env : Environment Q A ω) (truth : (q : Q) → A q → Prop) : Prop :=
  ∀ world question answer after,
    env world question answer after → truth question answer

/-- The answers the environment may give in some state. -/
def Environment.Gives {Q : Type u} {A : Q → Type v} {ω : Type x}
    (env : Environment Q A ω) (question : Q) (answer : A question) : Prop :=
  ∃ world after, env world question answer after

theorem Environment.keeps_gives {Q : Type u} {A : Q → Type v} {ω : Type x}
    (env : Environment Q A ω) : env.Keeps env.Gives :=
  fun world _ _ after hanswer => ⟨world, after, hanswer⟩

/-- The environment without a state of its own that gives any true answer. -/
def Environment.of {Q : Type u} {A : Q → Type v}
    (truth : (q : Q) → A q → Prop) : Environment Q A Unit :=
  fun _ question answer _ => truth question answer

theorem Environment.keeps_of {Q : Type u} {A : Q → Type v}
    (truth : (q : Q) → A q → Prop) : (Environment.of truth).Keeps truth :=
  fun _ _ _ _ hanswer => hanswer

/-- The environment that answers by a function. -/
def Environment.answering {Q : Type u} {A : Q → Type v} {ω : Type x}
    (respond : ω → (q : Q) → A q × ω) : Environment Q A ω :=
  fun world question answer after => respond world question = (answer, after)

/-- The part of an environment that gives only allowed answers. -/
def Environment.only {Q : Type u} {A : Q → Type v} {ω : Type x}
    (env : Environment Q A ω) (allowed : ω → (q : Q) → A q → Prop) :
    Environment Q A ω :=
  fun world question answer after =>
    env world question answer after ∧ allowed world question answer

/-- One state of the environment can follow another. -/
def Environment.Reaches {Q : Type u} {A : Q → Type v} {ω : Type x}
    (env : Environment Q A ω) : ω → ω → Prop :=
  Relation.ReflTransGen fun world after =>
    ∃ question answer, env world question answer after

/-- `between world final` holds of every answer that a run from `world` to
`final` receives. -/
structure Environment.Explains {Q : Type u} {A : Q → Type v} {ω : Type x}
    (env : Environment Q A ω)
    (between : ω → ω → (q : Q) → A q → Prop) : Prop where
  first : ∀ {world question answer after final},
    env world question answer after → env.Reaches after final →
      between world final question answer
  later : ∀ {world question answer after final question' answer'},
    env world question answer after →
      between after final question' answer' →
        between world final question' answer'

theorem Environment.Keeps.explains {Q : Type u} {A : Q → Type v} {ω : Type x}
    {env : Environment Q A ω} {truth : (q : Q) → A q → Prop}
    (hkeeps : env.Keeps truth) : env.Explains fun _ _ => truth where
  first hanswer _ := hkeeps _ _ _ _ hanswer
  later _ htrue := htrue

namespace Dialogue

variable {Q : Type u} {A : Q → Type v} {ρ τ : Type w} {ω : Type x}

def bind : Dialogue Q A ρ → (ρ → Dialogue Q A τ) → Dialogue Q A τ
  | done result, f => f result
  | ask question next, f => ask question fun answer => (next answer).bind f

/-- The dialogue can finish with a result, taking the environment from one
state to another. -/
inductive Runs (env : Environment Q A ω) :
    ω → Dialogue Q A ρ → ω → ρ → Prop
  | done (world : ω) (result : ρ) : Runs env world (done result) world result
  | ask {world after final : ω} {question : Q}
      {next : A question → Dialogue Q A ρ} {answer : A question} {result : ρ}
      (hanswer : env world question answer after)
      (hrest : Runs env after (next answer) final result) :
      Runs env world (ask question next) final result

/-- Every way the environment can answer leads to a result satisfying `post`. -/
def Ensures (env : Environment Q A ω) (post : ω → ρ → Prop) :
    ω → Dialogue Q A ρ → Prop
  | world, done result => post world result
  | world, ask question next =>
      ∀ answer after, env world question answer after →
        Ensures env post after (next answer)

/-- Run against an environment given as a function. -/
def exec (respond : ω → (q : Q) → A q × ω) :
    ω → Dialogue Q A ρ → ρ × ω
  | world, done result => (result, world)
  | world, ask question next =>
      exec respond (respond world question).2
        (next (respond world question).1)

@[simp]
theorem ensures_done {env : Environment Q A ω} {post : ω → ρ → Prop}
    {world : ω} {result : ρ} :
    Ensures env post world (done result) ↔ post world result :=
  Iff.rfl

@[simp]
theorem ensures_ask {env : Environment Q A ω} {post : ω → ρ → Prop}
    {world : ω} {question : Q} {next : A question → Dialogue Q A ρ} :
    Ensures env post world (ask question next) ↔
      ∀ answer after, env world question answer after →
        Ensures env post after (next answer) :=
  Iff.rfl

/-- The weakest precondition is exactly what holds of every run. -/
theorem ensures_iff_forall_runs {env : Environment Q A ω}
    {post : ω → ρ → Prop} {world : ω} {d : Dialogue Q A ρ} :
    Ensures env post world d ↔
      ∀ final result, Runs env world d final result → post final result := by
  induction d generalizing world with
  | done result =>
      constructor
      · intro hpost final other hrun
        cases hrun
        exact hpost
      · intro hall
        exact hall world result (Runs.done world result)
  | ask question next ih =>
      constructor
      · intro hens final result hrun
        cases hrun with
        | ask hanswer hrest =>
            exact ih _ |>.mp (hens _ _ hanswer) final result hrest
      · intro hall answer after hanswer
        refine (ih answer).mpr fun final result hrest => ?_
        exact hall final result (Runs.ask hanswer hrest)

theorem Runs.mono {env env' : Environment Q A ω} {world final : ω}
    {d : Dialogue Q A ρ} {result : ρ}
    (himp : ∀ world question answer after,
      env world question answer after → env' world question answer after)
    (hrun : Runs env world d final result) : Runs env' world d final result := by
  induction hrun with
  | done world result => exact Runs.done world result
  | ask hanswer hrest ih => exact Runs.ask (himp _ _ _ _ hanswer) ih

theorem Runs.bind {env : Environment Q A ω} {world middle final : ω}
    {d : Dialogue Q A ρ} {f : ρ → Dialogue Q A τ} {first : ρ} {result : τ}
    (hfirst : Runs env world d middle first)
    (hrest : Runs env middle (f first) final result) :
    Runs env world (d.bind f) final result := by
  induction hfirst with
  | done world first => exact hrest
  | ask hanswer _ ih => exact Runs.ask hanswer (ih hrest)

theorem Runs.reaches {env : Environment Q A ω} {world final : ω}
    {d : Dialogue Q A ρ} {result : ρ} (hrun : Runs env world d final result) :
    env.Reaches world final := by
  induction hrun with
  | done world result => exact Relation.ReflTransGen.refl
  | ask hanswer hrest ih =>
      exact Relation.ReflTransGen.head ⟨_, _, hanswer⟩ ih

/-- A run needs no more of the environment than the answers it received. -/
theorem Runs.explained {env : Environment Q A ω}
    {between : ω → ω → (q : Q) → A q → Prop}
    (hexplains : env.Explains between) {world final : ω}
    {d : Dialogue Q A ρ} {result : ρ} (hrun : Runs env world d final result) :
    Runs (Environment.of (between world final)) () d () result := by
  induction hrun with
  | done world result => exact Runs.done () result
  | @ask world after final question next answer result hanswer hrest ih =>
      have hfirst : between world final question answer :=
        hexplains.first hanswer hrest.reaches
      have hlater : Runs (Environment.of (between world final)) ()
          (next answer) () result := by
        refine Runs.mono ?_ ih
        intro _ question' answer' _ htrue
        exact hexplains.later hanswer htrue
      exact Runs.ask hfirst hlater

theorem ensures_mono {env : Environment Q A ω} {post post' : ω → ρ → Prop}
    {world : ω} {d : Dialogue Q A ρ}
    (hens : Ensures env post world d)
    (himp : ∀ final result, post final result → post' final result) :
    Ensures env post' world d := by
  induction d generalizing world with
  | done result => exact himp _ _ hens
  | ask question next ih =>
      intro answer after hanswer
      exact ih answer (hens answer after hanswer)

theorem ensures_bind {env : Environment Q A ω} {post : ω → τ → Prop}
    {world : ω} {d : Dialogue Q A ρ} {f : ρ → Dialogue Q A τ} :
    Ensures env post world (d.bind f) ↔
      Ensures env (fun middle result => Ensures env post middle (f result))
        world d := by
  induction d generalizing world with
  | done result => rfl
  | ask question next ih =>
      simp only [bind, ensures_ask, ih]

/-- A respondent that keeps to the relation, for some view of its states,
gives a run of it. -/
theorem runs_exec {υ : Type y} {env : Environment Q A ω}
    {respond : υ → (q : Q) → A q × υ} (view : υ → ω) (world : υ)
    (d : Dialogue Q A ρ)
    (hrespond : ∀ world question,
      env (view world) question (respond world question).1
        (view (respond world question).2)) :
    Runs env (view world) d (view (exec respond world d).2)
      (exec respond world d).1 := by
  induction d generalizing world with
  | done result => exact Runs.done (view world) result
  | ask question next ih =>
      exact Runs.ask (hrespond world question) (ih _ _)

end Dialogue

/-! ## State and errors -/

/-- A dialogue with a private state `σ` that may stop with an error `ε`. -/
def Program (Q : Type u) (A : Q → Type v) (σ ε : Type w) (ρ : Type w) :=
  σ → Dialogue Q A (Except ε ρ × σ)

namespace Program

variable {Q : Type u} {A : Q → Type v} {σ ε ρ τ : Type w} {ω : Type x}

protected def pure (result : ρ) : Program Q A σ ε ρ :=
  fun state => .done (.ok result, state)

protected def bind (p : Program Q A σ ε ρ) (f : ρ → Program Q A σ ε τ) :
    Program Q A σ ε τ :=
  fun state => (p state).bind fun outcome =>
    match outcome with
    | (.ok result, state') => f result state'
    | (.error failure, state') => .done (.error failure, state')

instance : Monad (Program Q A σ ε) where
  pure := Program.pure
  bind := Program.bind

protected def throw (failure : ε) : Program Q A σ ε ρ :=
  fun state => .done (.error failure, state)

protected def get : Program Q A σ ε σ :=
  fun state => .done (.ok state, state)

protected def modify (f : σ → σ) : Program Q A σ ε PUnit :=
  fun state => .done (.ok ⟨⟩, f state)

/-- Run a program and hand its outcome, error included, to the caller. -/
def attempt (p : Program Q A σ ε ρ) : Program Q A σ ε (Except ε ρ) :=
  fun state => (p state).bind fun outcome =>
    .done (.ok outcome.1, outcome.2)

/-- Raise the error of a computed value. -/
def ofExcept : Except ε ρ → Program Q A σ ε ρ
  | .ok result => Program.pure result
  | .error failure => Program.throw failure

/-- Weakest precondition with one postcondition for results and one for
errors. -/
def Meets (env : Environment Q A ω) (p : Program Q A σ ε ρ)
    (world : ω) (state : σ)
    (ok : ω → ρ → σ → Prop) (err : ω → ε → σ → Prop) : Prop :=
  Dialogue.Ensures env
    (fun final outcome =>
      match outcome with
      | (.ok result, state') => ok final result state'
      | (.error failure, state') => err final failure state')
    world (p state)

/-- One way a program can go. -/
def Runs (env : Environment Q A ω) (p : Program Q A σ ε ρ)
    (world : ω) (state : σ) (final : ω) (outcome : Except ε ρ)
    (state' : σ) : Prop :=
  Dialogue.Runs env world (p state) final (outcome, state')

section Rules

variable {env : Environment Q A ω} {world : ω} {state : σ}
    {ok : ω → ρ → σ → Prop} {err : ω → ε → σ → Prop}

@[simp]
theorem meets_pure {result : ρ} :
    Meets env (Pure.pure result : Program Q A σ ε ρ) world state ok err ↔
      ok world result state :=
  Iff.rfl

@[simp]
theorem meets_bind {p : Program Q A σ ε τ} {f : τ → Program Q A σ ε ρ} :
    Meets env (p >>= f) world state ok err ↔
      Meets env p world state
        (fun middle result state' =>
          Meets env (f result) middle state' ok err) err := by
  show Dialogue.Ensures env _ world ((p state).bind _) ↔ _
  rw [Dialogue.ensures_bind]
  unfold Meets
  constructor <;> intro hens <;> refine Dialogue.ensures_mono hens ?_ <;>
    rintro final ⟨failure | result, state'⟩ hpost <;> exact hpost

@[simp]
theorem meets_throw {failure : ε} :
    Meets env (Program.throw failure : Program Q A σ ε ρ) world state ok err ↔
      err world failure state :=
  Iff.rfl

@[simp]
theorem meets_get {ok : ω → σ → σ → Prop} :
    Meets env (Program.get : Program Q A σ ε σ) world state ok err ↔
      ok world state state :=
  Iff.rfl

@[simp]
theorem meets_modify {f : σ → σ} {ok : ω → PUnit → σ → Prop} :
    Meets env (Program.modify f : Program Q A σ ε PUnit) world state ok err ↔
      ok world ⟨⟩ (f state) :=
  Iff.rfl

@[simp]
theorem meets_ofExcept {e : Except ε ρ} :
    Meets env (ofExcept e : Program Q A σ ε ρ) world state ok err ↔
      (∀ result, e = .ok result → ok world result state) ∧
        ∀ failure, e = .error failure → err world failure state := by
  cases e with
  | ok result =>
      show ok world result state ↔ _
      simp
  | error failure =>
      show err world failure state ↔ _
      simp

@[simp]
theorem meets_attempt {p : Program Q A σ ε ρ}
    {ok : ω → Except ε ρ → σ → Prop} :
    Meets env (attempt p) world state ok err ↔
      Meets env p world state (fun final result => ok final (.ok result))
        (fun final failure => ok final (.error failure)) := by
  show Dialogue.Ensures env _ world ((p state).bind _) ↔ _
  rw [Dialogue.ensures_bind]
  unfold Meets
  constructor <;> intro hens <;> refine Dialogue.ensures_mono hens ?_ <;>
    rintro final ⟨failure | result, state'⟩ hpost <;> exact hpost

theorem meets_mono {p : Program Q A σ ε ρ}
    {ok' : ω → ρ → σ → Prop} {err' : ω → ε → σ → Prop}
    (hmeets : Meets env p world state ok err)
    (hok : ∀ final result state', ok final result state' →
      ok' final result state')
    (herr : ∀ final failure state', err final failure state' →
      err' final failure state') :
    Meets env p world state ok' err' := by
  refine Dialogue.ensures_mono hmeets ?_
  rintro final ⟨failure | result, state'⟩ hpost
  · exact herr _ _ _ hpost
  · exact hok _ _ _ hpost

/-- A program meets a specification exactly when all its runs do. -/
theorem meets_iff_forall_runs {p : Program Q A σ ε ρ} :
    Meets env p world state ok err ↔
      (∀ final result state',
        p.Runs env world state final (.ok result) state' →
          ok final result state') ∧
      (∀ final failure state',
        p.Runs env world state final (.error failure) state' →
          err final failure state') := by
  unfold Meets
  rw [Dialogue.ensures_iff_forall_runs]
  constructor
  · intro hall
    exact ⟨fun final result state' hrun => hall final (.ok result, state') hrun,
      fun final failure state' hrun =>
        hall final (.error failure, state') hrun⟩
  · rintro ⟨hok, herr⟩ final ⟨failure | result, state'⟩ hrun
    · exact herr final failure state' hrun
    · exact hok final result state' hrun

theorem Meets.of_ok {p : Program Q A σ ε ρ} {final : ω} {result : ρ}
    {state' : σ} (hmeets : Meets env p world state ok err)
    (hrun : p.Runs env world state final (.ok result) state') :
    ok final result state' :=
  (meets_iff_forall_runs.mp hmeets).1 final result state' hrun

theorem Meets.of_error {p : Program Q A σ ε ρ} {final : ω} {failure : ε}
    {state' : σ} (hmeets : Meets env p world state ok err)
    (hrun : p.Runs env world state final (.error failure) state') :
    err final failure state' :=
  (meets_iff_forall_runs.mp hmeets).2 final failure state' hrun

/-- What a program meets, next to the run itself. -/
theorem Meets.ran {p : Program Q A σ ε ρ}
    (hmeets : Meets env p world state ok err) :
    Meets env p world state
      (fun final result state' =>
        p.Runs env world state final (.ok result) state' ∧
          ok final result state')
      (fun final failure state' =>
        p.Runs env world state final (.error failure) state' ∧
          err final failure state') := by
  rw [meets_iff_forall_runs] at hmeets ⊢
  constructor
  · intro final result state' hrun
    exact ⟨hrun, hmeets.1 final result state' hrun⟩
  · intro final failure state' hrun
    exact ⟨hrun, hmeets.2 final failure state' hrun⟩

theorem Runs.reaches {p : Program Q A σ ε ρ} {final : ω}
    {outcome : Except ε ρ} {state' : σ}
    (hrun : p.Runs env world state final outcome state') :
    env.Reaches world final :=
  Dialogue.Runs.reaches hrun

theorem Meets.reaches {p : Program Q A σ ε ρ}
    (hmeets : Meets env p world state ok err) :
    Meets env p world state
      (fun final result state' => env.Reaches world final ∧
        ok final result state')
      (fun final failure state' => env.Reaches world final ∧
        err final failure state') := by
  rw [meets_iff_forall_runs]
  constructor
  · intro final result state' hrun
    exact ⟨hrun.reaches, hmeets.of_ok hrun⟩
  · intro final failure state' hrun
    exact ⟨hrun.reaches, hmeets.of_error hrun⟩

/-- What a program guarantees on the answers given between two states holds
of its runs from the one to the other. -/
theorem Meets.explained {between : ω → ω → (q : Q) → A q → Prop}
    {p : Program Q A σ ε ρ} {ok : ω → ρ → σ → Prop} {err : ω → ε → σ → Prop}
    (hexplains : env.Explains between)
    (hmeets : ∀ final, Meets (Environment.of (between world final)) p () state
      (fun _ => ok final) (fun _ => err final)) :
    Meets env p world state
      (fun final result state' => env.Reaches world final ∧
        ok final result state')
      (fun final failure state' => env.Reaches world final ∧
        err final failure state') := by
  rw [meets_iff_forall_runs]
  constructor
  · intro final result state' hrun
    exact ⟨hrun.reaches, (hmeets final).of_ok (hrun.explained hexplains)⟩
  · intro final failure state' hrun
    exact ⟨hrun.reaches, (hmeets final).of_error (hrun.explained hexplains)⟩

/-- A run of a sequence is a run of its first part, then one of the rest. -/
theorem runs_bind_ok {p : Program Q A σ ε τ} {f : τ → Program Q A σ ε ρ}
    {final : ω} {result : ρ} {state' : σ} :
    (p >>= f).Runs env world state final (.ok result) state' ↔
      ∃ middle first state₁, p.Runs env world state middle (.ok first) state₁ ∧
        (f first).Runs env middle state₁ final (.ok result) state' := by
  constructor
  · intro hrun
    have hmeets : Meets env (p >>= f) world state
        (fun final result state' => ∃ middle first state₁,
          p.Runs env world state middle (.ok first) state₁ ∧
            (f first).Runs env middle state₁ final (.ok result) state')
        (fun _ _ _ => True) := by
      rw [meets_bind, meets_iff_forall_runs]
      constructor
      · intro middle first state₁ hfirst
        rw [meets_iff_forall_runs]
        constructor
        · intro final result state' hrest
          exact ⟨middle, first, state₁, hfirst, hrest⟩
        · intro final failure state' hrest
          trivial
      · intro middle failure state₁ hfirst
        trivial
    exact hmeets.of_ok hrun
  · rintro ⟨middle, first, state₁, hfirst, hrest⟩
    exact Dialogue.Runs.bind hfirst hrest

end Rules

/-- Ask one question. -/
def query {Q : Type u} {A : Q → Type w} {σ ε : Type w} (question : Q) :
    Program Q A σ ε (A question) :=
  fun state => .ask question fun answer => .done (.ok answer, state)

@[simp]
theorem meets_query {Q : Type u} {A : Q → Type w} {σ ε : Type w}
    {env : Environment Q A ω} {world : ω} {state : σ} {question : Q}
    {ok : ω → A question → σ → Prop} {err : ω → ε → σ → Prop} :
    Meets env (query question : Program Q A σ ε (A question))
        world state ok err ↔
      ∀ answer after, env world question answer after →
        ok after answer state :=
  Iff.rfl

/-- Run against an environment given as a function. -/
def exec (respond : ω → (q : Q) → A q × ω) (p : Program Q A σ ε ρ)
    (world : ω) (state : σ) : (Except ε ρ × σ) × ω :=
  Dialogue.exec respond world (p state)

theorem runs_exec {υ : Type y} {env : Environment Q A ω}
    {respond : υ → (q : Q) → A q × υ} (view : υ → ω)
    (p : Program Q A σ ε ρ) (world : υ) (state : σ)
    (hrespond : ∀ world question,
      env (view world) question (respond world question).1
        (view (respond world question).2)) :
    p.Runs env (view world) state (view (exec respond p world state).2)
      (exec respond p world state).1.1 (exec respond p world state).1.2 :=
  Dialogue.runs_exec view world (p state) hrespond

theorem runs_answering (respond : ω → (q : Q) → A q × ω)
    (p : Program Q A σ ε ρ) (world : ω) (state : σ) {outcome : Except ε ρ}
    (houtcome : (exec respond p world state).1.1 = outcome) :
    p.Runs (Environment.answering respond) world state
      (exec respond p world state).2 outcome (exec respond p world state).1.2 := by
  have hanswers : ∀ world question, Environment.answering respond world question
      (respond world question).1 (respond world question).2 :=
    fun _ _ => rfl
  rw [← houtcome]
  exact runs_exec (fun world => world) p world state hanswers

end Program

end Interaction
