import Mathlib.Data.List.Basic

/-!
# Runs of labelled steps

A machine is a relation between a state, an event and the next state.  The
rules here carry what one step keeps over to a whole run, drop events that
another run does without, and bound the number of events until something has
happened.
-/

namespace Machine

universe u v w

variable {σ : Type u} {τ : Type v} {ε : Type w} {step : σ → ε → σ → Prop}
    {s s₁ s' : σ} {e : ε} {es es' : List ε}

/-- The steps labelled by a list of events, in order. -/
inductive Run (step : σ → ε → σ → Prop) : σ → List ε → σ → Prop
  | nil (s : σ) : Run step s [] s
  | cons {s s₁ s' : σ} {e : ε} {es : List ε} (hstep : step s e s₁)
      (hrest : Run step s₁ es s') : Run step s (e :: es) s'

theorem Run.append (h : Run step s es s₁) (h' : Run step s₁ es' s') :
    Run step s (es ++ es') s' := by
  induction h with
  | nil s => exact h'
  | cons hstep hrest ih => exact .cons hstep (ih h')

theorem Run.mono {step' : σ → ε → σ → Prop} (h : Run step s es s')
    (himp : ∀ {s e s'}, step s e s' → step' s e s') : Run step' s es s' := by
  induction h with
  | nil s => exact .nil s
  | cons hstep hrest ih => exact .cons (himp hstep) ih

theorem Run.snoc (h : Run step s es s₁) (hstep : step s₁ e s') :
    Run step s (es ++ [e]) s' :=
  h.append (.cons hstep (.nil s'))

theorem Run.split (h : Run step s (es ++ es') s') :
    ∃ s₁, Run step s es s₁ ∧ Run step s₁ es' s' := by
  induction es generalizing s with
  | nil => exact ⟨s, .nil s, h⟩
  | cons e es ih =>
      cases h with
      | cons hstep hrest =>
          rcases ih hrest with ⟨s₁, hfirst, hsecond⟩
          exact ⟨s₁, .cons hstep hfirst, hsecond⟩

theorem Run.invariant {P : σ → Prop} (h : Run step s es s') (hs : P s)
    (hkeeps : ∀ {s e s'}, step s e s' → P s → P s') : P s' := by
  induction h with
  | nil s => exact hs
  | cons hstep hrest ih => exact ih (hkeeps hstep hs)

/-- Along a run every step starts where the invariant holds. -/
theorem Run.within {P : σ → Prop} (h : Run step s es s') (hs : P s)
    (hkeeps : ∀ {s e s'}, step s e s' → P s → P s') :
    Run (fun s e s' => step s e s' ∧ P s) s es s' := by
  induction h with
  | nil s => exact .nil s
  | cons hstep hrest ih => exact .cons ⟨hstep, hs⟩ (ih (hkeeps hstep hs))

/-- Where a step ends well exactly if it starts well and on a condition, a run
ends well exactly if it starts well and all its steps meet the condition. -/
theorem Run.well_iff {P G : σ → Prop} {C : σ → ε → Prop}
    (h : Run step s es s') (hs : P s)
    (hkeeps : ∀ {s e s'}, step s e s' → P s → P s')
    (hstep : ∀ {s e s'}, step s e s' → P s → (G s' ↔ G s ∧ C s e)) :
    G s' ↔ G s ∧ Run (fun s e s' => step s e s' ∧ C s e) s es s' := by
  constructor
  · intro hend
    induction h with
    | nil s => exact ⟨hend, .nil s⟩
    | cons hfirst hrest ih =>
        obtain ⟨hnext, hrun⟩ := ih (hkeeps hfirst hs) hend
        obtain ⟨hstart, hcond⟩ := (hstep hfirst hs).mp hnext
        exact ⟨hstart, .cons ⟨hfirst, hcond⟩ hrun⟩
  · intro hgood
    obtain ⟨hstart, hrun⟩ := hgood
    have hkept : P s' ∧ G s' := by
      apply hrun.invariant (P := fun s => P s ∧ G s) ⟨hs, hstart⟩
      intro s e s' hboth hinv
      exact ⟨hkeeps hboth.1 hinv.1,
        (hstep hboth.1 hinv.1).mpr ⟨hinv.2, hboth.2⟩⟩
    exact hkept.2

/-- A property of the events so far and the state. -/
theorem Run.traced {P : List ε → σ → Prop} {past : List ε}
    (h : Run step s es s') (hs : P past s)
    (hkeeps : ∀ {past s e s'}, step s e s' → P past s → P (past ++ [e]) s') :
    P (past ++ es) s' := by
  induction h generalizing past with
  | nil s =>
      rw [List.append_nil]
      exact hs
  | cons hstep hrest ih =>
      have hrest' := ih (hkeeps hstep hs)
      rw [List.append_assoc] at hrest'
      exact hrest'

/-- The machine beside a note that is kept of its steps and does not act on
them. -/
def Noting {μ : Type*} (step : σ → ε → σ → Prop) (note : μ → σ → ε → σ → μ)
    (s : σ × μ) (e : ε) (s' : σ × μ) : Prop :=
  step s.1 e s'.1 ∧ s'.2 = note s.2 s.1 e s'.1

theorem noting_iff {μ : Type*} {note : μ → σ → ε → σ → μ} {m m' : μ} :
    Noting step note (s, m) e (s', m') ↔
      step s e s' ∧ m' = note m s e s' :=
  Iff.rfl

/-- Every run can be noted. -/
theorem Run.noting {μ : Type*} (h : Run step s es s')
    (note : μ → σ → ε → σ → μ) (m : μ) :
    ∃ m', Run (Noting step note) (s, m) es (s', m') := by
  induction h generalizing m with
  | nil s => exact ⟨m, .nil (s, m)⟩
  | @cons s s₁ s' e es hstep hrest ih =>
      obtain ⟨m', hrun⟩ := ih (note m s e s₁)
      exact ⟨m', .cons ⟨hstep, rfl⟩ hrun⟩

/-- What a function of the state does in a run. -/
theorem Run.map {step' : τ → ε → τ → Prop} {f : σ → τ} (h : Run step s es s')
    (hmatch : ∀ {s e s'}, step s e s' → step' (f s) e (f s')) :
    Run step' (f s) es (f s') := by
  induction h with
  | nil s => exact .nil (f s)
  | cons hstep hrest ih => exact .cons (hmatch hstep) ih

/-- Every step is matched by the same step on the related side. -/
theorem Run.mirror {step' : τ → ε → τ → Prop} {R : σ → τ → Prop} {t : τ}
    (h : Run step s es s') (hR : R s t)
    (hmatch : ∀ {s e s' t}, step s e s' → R s t →
      ∃ t', step' t e t' ∧ R s' t') :
    ∃ t', Run step' t es t' ∧ R s' t' := by
  induction h generalizing t with
  | nil s => exact ⟨t, .nil t, hR⟩
  | cons hstep hrest ih =>
      rcases hmatch hstep hR with ⟨t₁, hstep', hR₁⟩
      rcases ih hR₁ with ⟨t', hrest', hR'⟩
      exact ⟨t', .cons hstep' hrest', hR'⟩

/-- Every step is matched by one with a related event. -/
theorem Run.relabel {κ : Type*} {step' : τ → κ → τ → Prop} {R : σ → τ → Prop}
    {E : ε → κ → Prop} {ks : List κ} {t : τ} (h : Run step s es s')
    (hlabels : List.Forall₂ E es ks) (hR : R s t)
    (hmatch : ∀ {s e s' k t}, step s e s' → E e k → R s t →
      ∃ t', step' t k t' ∧ R s' t') :
    ∃ t', Run step' t ks t' ∧ R s' t' := by
  induction h generalizing ks t with
  | nil s =>
      cases hlabels
      exact ⟨t, .nil t, hR⟩
  | cons hstep hrest ih =>
      cases hlabels with
      | cons hlabel hlabels =>
          obtain ⟨t₁, hstep', hR₁⟩ := hmatch hstep hlabel hR
          obtain ⟨t', hrest', hR'⟩ := ih hlabels hR₁
          exact ⟨t', .cons hstep' hrest', hR'⟩

/-- Every step is matched by the same step, or by none. -/
theorem Run.erase {step' : τ → ε → τ → Prop} {R : σ → τ → Prop} {t : τ}
    (h : Run step s es s') (hR : R s t)
    (hmatch : ∀ {s e s' t}, step s e s' → R s t →
      R s' t ∨ ∃ t', step' t e t' ∧ R s' t') :
    ∃ kept t', kept.Sublist es ∧ Run step' t kept t' ∧ R s' t' := by
  induction h generalizing t with
  | nil s => exact ⟨[], t, .slnil, .nil t, hR⟩
  | cons hstep hrest ih =>
      rcases hmatch hstep hR with hR₁ | ⟨t₁, hstep', hR₁⟩
      · rcases ih hR₁ with ⟨kept, t', hsub, hrun, hR'⟩
        exact ⟨kept, t', hsub.cons _, hrun, hR'⟩
      · rcases ih hR₁ with ⟨kept, t', hsub, hrun, hR'⟩
        exact ⟨_ :: kept, t', hsub.cons_cons _, .cons hstep' hrun, hR'⟩

/-- Every step is matched by a run on the related side, with the same visible
events. -/
theorem Run.refine {κ : Type*} {step' : τ → κ → τ → Prop} {R : σ → τ → Prop}
    {visible : κ → Bool} {label : ε → List κ} {t : τ} (h : Run step s es s')
    (hR : R s t)
    (hmatch : ∀ {s e s' t}, step s e s' → R s t →
      ∃ ks t', Run step' t ks t' ∧ ks.filter visible = label e ∧ R s' t') :
    ∃ ks t', Run step' t ks t' ∧ ks.filter visible = es.flatMap label ∧
      R s' t' := by
  induction h generalizing t with
  | nil s => exact ⟨[], t, .nil t, rfl, hR⟩
  | cons hstep hrest ih =>
      obtain ⟨first, t₁, hfirst, hlabel, hR₁⟩ := hmatch hstep hR
      obtain ⟨rest, t', hrun, hlabels, hR'⟩ := ih hR₁
      refine ⟨first ++ rest, t', hfirst.append hrun, ?_, hR'⟩
      rw [List.filter_append, hlabel, hlabels, List.flatMap_cons]

/-- Where every active event costs something and nothing is ever gained, more
active events than there is to spend bring the goal about. -/
theorem Run.reached {active : ε → Bool} {cost : σ → ℕ} {G : σ → Prop}
    (h : Run step s es s') (hcount : cost s < es.countP active)
    (hgoal : ∀ {s e s'}, step s e s' → G s → G s')
    (hspend : ∀ {s e s'}, step s e s' → G s' ∨
      (cost s' ≤ cost s ∧ (active e = true → cost s' < cost s))) :
    G s' := by
  induction h with
  | nil s => simp at hcount
  | @cons s s₁ s' e es hstep hrest ih =>
      rcases hspend hstep with hdone | ⟨hle, hlt⟩
      · exact hrest.invariant hdone hgoal
      · apply ih
        by_cases hactive : active e = true
        · have hless := hlt hactive
          rw [List.countP_cons_of_pos hactive] at hcount
          omega
        · rw [List.countP_cons_of_neg hactive] at hcount
          omega

end Machine
