import UsdtPir.CanonicalChain

/-!
# Chains that grow and chains that part

Two chains may agree up to a block and part after it, and a block hash tells
them apart.  While a program runs, its chain grows: the provider answers with
the head of the moment, and heads never fall.
-/

namespace UsdtPir

open Interaction
open Following

namespace Chain

variable (X Y Z : Chain)

/-- The two chains have the same blocks up to `n`. -/
def AgreesUpTo (n : ℕ) : Prop :=
  ∀ b ≤ n, X.logs b = Y.logs b ∧ X.owner b = Y.owner b ∧
    (∀ token a, X.balance token a b = Y.balance token a b) ∧
    X.hash b = Y.hash b

/-- Equal hashes mean the same block, with the same chain below it. -/
def HashesFix : Prop :=
  ∀ m n, m < 2 ^ 64 → n < 2 ^ 64 → X.hash m = Y.hash n →
    m = n ∧ X.AgreesUpTo Y m

/-- A provider whose chain grows: each answer is given at some head, and heads
do not fall. -/
def growing : Environment Request Answer ℕ :=
  fun head question answer head' =>
    head ≤ head' ∧ X.Says head question answer

/-- What is said while the head moves from `head` to `head'`. -/
def SaysBetween (head head' : ℕ) (question : Request)
    (answer : Answer question) : Prop :=
  ∃ h, head ≤ h ∧ h ≤ head' ∧ X.Says h question answer

variable {X Y Z}

theorem AgreesUpTo.refl (n : ℕ) : X.AgreesUpTo X n :=
  fun _ _ => ⟨rfl, rfl, fun _ _ => rfl, rfl⟩

theorem AgreesUpTo.symm {n : ℕ} (h : X.AgreesUpTo Y n) : Y.AgreesUpTo X n := by
  intro b hb
  obtain ⟨hlogs, howner, hbalance, hhash⟩ := h b hb
  exact ⟨hlogs.symm, howner.symm, fun token a => (hbalance token a).symm,
    hhash.symm⟩

theorem AgreesUpTo.mono {m n : ℕ} (h : X.AgreesUpTo Y n) (hle : m ≤ n) :
    X.AgreesUpTo Y m :=
  fun b hb => h b (hb.trans hle)

theorem AgreesUpTo.feed {n : ℕ} (h : X.AgreesUpTo Y n) (a : Address) :
    Feed.AgreeAt X.feed Y.feed a n := by
  intro b hb
  obtain ⟨hlogs, howner, hbalance, -⟩ := h b hb
  constructor
  · show X.balances a b = Y.balances a b
    rw [balances, balances, hbalance, hbalance]
  · show X.Touches b a ↔ Y.Touches b a
    rw [Touches, Touches, watched, watched, hlogs, howner]

theorem growing_reaches {head head' : ℕ} (h : X.growing.Reaches head head') :
    head ≤ head' := by
  induction h with
  | refl => exact le_rfl
  | tail _ hstep ih =>
      obtain ⟨question, answer, hle, -⟩ := hstep
      exact ih.trans hle

theorem growing_explains : X.growing.Explains X.SaysBetween where
  first hanswer hreaches :=
    ⟨_, le_rfl, hanswer.1.trans (growing_reaches hreaches), hanswer.2⟩
  later hanswer hlater := by
    obtain ⟨h, hle, hle', htells⟩ := hlater
    exact ⟨h, hanswer.1.trans hle, hle', htells⟩

theorem backs_saysBetween (head head' : ℕ) :
    X.Backs (X.SaysBetween head head') := by
  rintro question answer ⟨h, -, -, htells⟩
  exact htells.1

end Chain

end UsdtPir
