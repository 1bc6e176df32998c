import UsdtPir.Interaction

/-!
# Programs that agree until one of them stops

Two programs that ask the same questions and give the same results, except that
the first one may stop early with a failure of a given kind.  Where it never
stops that way, both have the same runs.
-/

namespace Interaction

universe u v w x

namespace Dialogue

variable {Q : Type u} {A : Q → Type v} {ρ τ : Type w} {ω : Type x}
    {stop : ρ → Prop} {d d' : Dialogue Q A ρ}

theorem bind_assoc {υ : Type w} (d : Dialogue Q A ρ) (f : ρ → Dialogue Q A τ)
    (g : τ → Dialogue Q A υ) :
    (d.bind f).bind g = d.bind fun result => (f result).bind g := by
  induction d with
  | done result => rfl
  | ask question next ih => simp only [Dialogue.bind, ih]

/-- The same questions and results, until the first dialogue stops. -/
inductive Agrees (stop : ρ → Prop) : Dialogue Q A ρ → Dialogue Q A ρ → Prop
  | done (result : ρ) : Agrees stop (.done result) (.done result)
  | stopped {result : ρ} (h : stop result) (d : Dialogue Q A ρ) :
      Agrees stop (.done result) d
  | ask {question : Q} {next next' : A question → Dialogue Q A ρ}
      (h : ∀ answer, Agrees stop (next answer) (next' answer)) :
      Agrees stop (.ask question next) (.ask question next')

theorem Agrees.refl (d : Dialogue Q A ρ) : Agrees stop d d := by
  induction d with
  | done result => exact .done result
  | ask question next ih => exact .ask ih

theorem Agrees.bind {stop' : τ → Prop} {f f' : ρ → Dialogue Q A τ}
    (h : Agrees stop d d') (hnext : ∀ result, Agrees stop' (f result) (f' result))
    (hstop : ∀ result, stop result → ∃ last, f result = .done last ∧ stop' last) :
    Agrees stop' (d.bind f) (d'.bind f') := by
  induction h with
  | done result => exact hnext result
  | stopped h d =>
      rcases hstop _ h with ⟨last, hlast, hstopped⟩
      simp only [Dialogue.bind, hlast]
      exact .stopped hstopped _
  | ask h ih => exact .ask ih

theorem Agrees.runs {env : Environment Q A ω} {world final : ω} {result : ρ}
    (h : Agrees stop d d') (hrun : Runs env world d final result)
    (hgoes : ¬ stop result) : Runs env world d' final result := by
  induction h generalizing world with
  | done last => exact hrun
  | stopped h d =>
      cases hrun with
      | done => exact absurd h hgoes
  | ask h ih =>
      cases hrun with
      | ask hanswer hrest => exact .ask hanswer (ih _ hrest)

/-- A run of the second dialogue is one of the first, or that one stops. -/
theorem Agrees.runs_of_ensures {env : Environment Q A ω} {world final : ω}
    {result : ρ} {post : ω → ρ → Prop} (h : Agrees stop d d')
    (hrun : Runs env world d' final result) (hnever : Ensures env post world d)
    (hpost : ∀ final result, post final result → ¬ stop result) :
    Runs env world d final result := by
  induction h generalizing world with
  | done last => exact hrun
  | stopped h d => exact absurd h (hpost _ _ hnever)
  | ask h ih =>
      cases hrun with
      | ask hanswer hrest =>
          exact .ask hanswer (ih _ hrest (hnever _ _ hanswer))

end Dialogue

namespace Program

variable {Q : Type u} {A : Q → Type v} {σ ε ρ τ : Type w} {ω : Type x}
    {stop : ε → Prop}

/-- The same questions and results from every state, until the first program
fails with one of the failures that stop it. -/
def Agrees (stop : ε → Prop) (p p' : Program Q A σ ε ρ) : Prop :=
  ∀ state, Dialogue.Agrees
    (fun outcome => ∃ failure, outcome.1 = .error failure ∧ stop failure)
    (p state) (p' state)

theorem program_bind_assoc {υ : Type w} (p : Program Q A σ ε ρ)
    (f : ρ → Program Q A σ ε τ) (g : τ → Program Q A σ ε υ) :
    (p >>= f) >>= g = p >>= fun result => f result >>= g := by
  funext state
  change Dialogue.bind (Dialogue.bind (p state) _) _ = Dialogue.bind (p state) _
  rw [Dialogue.bind_assoc]
  congr 1
  funext outcome
  cases outcome with
  | mk result state' =>
      cases result with
      | ok result => rfl
      | error failure => rfl

theorem program_pure_bind (result : ρ) (f : ρ → Program Q A σ ε τ) :
    (Pure.pure result : Program Q A σ ε ρ) >>= f = f result :=
  rfl

theorem agrees_refl (p : Program Q A σ ε ρ) : Agrees stop p p :=
  fun state => Dialogue.Agrees.refl (p state)

theorem agrees_throw {failure : ε} {p : Program Q A σ ε ρ} (h : stop failure) :
    Agrees stop (Program.throw failure) p :=
  fun state => .stopped ⟨failure, rfl, h⟩ (p state)

theorem agrees_bind {p p' : Program Q A σ ε ρ} {f f' : ρ → Program Q A σ ε τ}
    (h : Agrees stop p p') (hnext : ∀ result, Agrees stop (f result) (f' result)) :
    Agrees stop (p >>= f) (p' >>= f') := by
  intro state
  apply (h state).bind
  · intro outcome
    cases outcome with
    | mk result state' =>
        cases result with
        | ok result => exact hnext result state'
        | error failure => exact .done _
  · intro outcome hstop
    cases outcome with
    | mk result state' =>
        rcases hstop with ⟨failure, hfailure, hstopped⟩
        dsimp only at hfailure
        subst hfailure
        exact ⟨_, rfl, failure, rfl, hstopped⟩

theorem agrees_after (p : Program Q A σ ε ρ) {f f' : ρ → Program Q A σ ε τ}
    (hnext : ∀ result, Agrees stop (f result) (f' result)) :
    Agrees stop (p >>= f) (p >>= f') :=
  agrees_bind (agrees_refl p) hnext

/-- Whoever catches errors has to let the ones that stop through. -/
theorem agrees_attempt {p p' : Program Q A σ ε ρ}
    {f f' : Except ε ρ → Program Q A σ ε τ} (h : Agrees stop p p')
    (hnext : ∀ outcome, Agrees stop (f outcome) (f' outcome))
    (hstop : ∀ failure, stop failure → f (.error failure) = Program.throw failure) :
    Agrees stop (attempt p >>= f) (attempt p' >>= f') := by
  intro state
  have hbind : ∀ p : Program Q A σ ε ρ, ∀ f : Except ε ρ → Program Q A σ ε τ,
      (attempt p >>= f) state = (p state).bind fun outcome => f outcome.1 outcome.2 := by
    intro p f
    change Dialogue.bind (Dialogue.bind (p state) _) _ = _
    rw [Dialogue.bind_assoc]
    congr 1
  rw [hbind, hbind]
  apply (h state).bind
  · intro outcome
    exact hnext outcome.1 outcome.2
  · intro outcome hstopped
    cases outcome with
    | mk result state' =>
        rcases hstopped with ⟨failure, hfailure, hstopped⟩
        dsimp only at hfailure
        subst hfailure
        dsimp only
        rw [hstop failure hstopped]
        exact ⟨_, rfl, failure, rfl, hstopped⟩

theorem Agrees.runs {p p' : Program Q A σ ε ρ} {env : Environment Q A ω}
    {world final : ω} {state state' : σ} {outcome : Except ε ρ}
    (h : Agrees stop p p') (hrun : p.Runs env world state final outcome state')
    (hgoes : ∀ failure, outcome = .error failure → ¬ stop failure) :
    p'.Runs env world state final outcome state' := by
  apply (h state).runs hrun
  intro hstopped
  rcases hstopped with ⟨failure, hfailure, hstopped⟩
  exact hgoes failure hfailure hstopped

/-- Where the first program never stops early, the two have the same runs. -/
theorem Agrees.runs_iff {p p' : Program Q A σ ε ρ} {env : Environment Q A ω}
    {world final : ω} {state state' : σ} {outcome : Except ε ρ}
    (h : Agrees stop p p')
    (hnever : Meets env p world state (fun _ _ _ => True)
      (fun _ failure _ => ¬ stop failure)) :
    p.Runs env world state final outcome state' ↔
      p'.Runs env world state final outcome state' := by
  constructor
  · intro hrun
    apply h.runs hrun
    intro failure hfailure
    subst hfailure
    exact hnever.of_error hrun
  · intro hrun
    apply (h state).runs_of_ensures hrun hnever
    intro final outcome hpost hstopped
    cases outcome with
    | mk result state' =>
        rcases hstopped with ⟨failure, hfailure, hstopped⟩
        dsimp only at hfailure
        subst hfailure
        exact hpost hstopped

end Program

end Interaction
