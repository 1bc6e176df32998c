import UsdtPir.Portal

/-!
# The server that listens

What a listening server exposes is the newest directory that any process before
it has shown.
-/

namespace UsdtPir

open Machine

section Endpoints

variable {P : EthPir} {cfg : PirConfig} {thread thread' : PirThread P}
    {left : Leftover} {e : PirEvent P} {d : Directory P}

/-- What a step shows is new in the handle, or was there before. -/
theorem shown_cases (left left' : Leftover)
    (hstep : PirStep P cfg thread e thread') :
    (∃ blob, thread.phase = .exposing blob ∧
        Directory.fromBlob blob = .ok thread'.exposed ∧
        thread'.published = thread'.exposed :: thread.published ∧
        (Host.up thread' left').shown (.work e) = [thread'.exposed]) ∨
      (thread'.exposed = thread.exposed ∧
        thread'.published = thread.published ∧
        ((Host.up thread' left').shown (.work e) = [] ∨
          (Host.up thread' left').shown (.work e) = [thread.exposed] ∧
          ∀ seen, KeepsNumbering ⟨.up thread left, seen⟩ (.host (.work e)) →
            thread.published ≠ [])) := by
  cases hstep with
  | @expose blob directory hphase hparse =>
      exact .inl ⟨blob, hphase, hparse, rfl, rfl⟩
  | serializeFails hphase hcall | persistFails hphase
  | exposeFails hphase hparse =>
      exact .inr ⟨rfl, rfl, .inr ⟨rfl, fun seen h => h.exposes thread left rfl⟩⟩
  | _ => exact .inr ⟨rfl, rfl, .inl rfl⟩

/-- What a listening server exposes was shown, and nothing newer was. -/
structure Serves (s : Endpoint P) (listening : Bool) : Prop where
  sound : s.Sound
  genuine : ∀ d ∈ s.seen, d.Genuine
  opened : ∀ thread left, s.host = .up thread left → thread.published ≠ [] →
    listening = true
  exposed : ∀ thread left, s.host = .up thread left → listening = true →
    thread.exposed ∈ s.seen
  newest : ∀ thread left, s.host = .up thread left → listening = true →
    ∀ d ∈ s.seen, d.parsed.Precedes thread.exposed.parsed

theorem Serves.work {seen : List (Directory P)} {listening : Bool}
    (hlaws : P.Versioned) (hwrites : P.Serializes)
    (hstep : PirStep P cfg thread e thread')
    (hkeeps : KeepsNumbering ⟨.up thread left, seen⟩ (.host (.work e)))
    (h : Serves ⟨.up thread left, seen⟩ listening) :
    Serves ⟨.up thread' (left.after e),
        (Host.up thread' (left.after e)).shown (.work e) ++ seen⟩
      (listens listening (.up thread' (left.after e)) (.host (.work e))) := by
  have hsound : Endpoint.Sound (P := P) ⟨.up thread' (left.after e),
      (Host.up thread' (left.after e)).shown (.work e) ++ seen⟩ :=
    h.sound.step hlaws hwrites (.host (.work hstep)) hkeeps
  have hahead := h.sound.up thread left rfl
  obtain hnew | hsame := shown_cases left (left.after e) hstep
  · obtain ⟨blob, hphase, hparse, hpublished, hshown⟩ := hnew
    have hlive : thread'.exposed.parsed = thread.live := by
      have hread := PirThread.inHand_exposing hahead.inHand hphase
      rw [Directory.parsed_fromBlob hparse] at hread
      exact Except.ok.inj hread
    rw [listens_work]
    rw [hshown] at hsound ⊢
    constructor
    · exact hsound
    · intro d hd
      obtain hd | hd := List.mem_cons.mp hd
      · rw [hd]
        exact Directory.genuine_fromBlob hparse
      · exact h.genuine d hd
    · intro _ _ _ _
      simp
    · intro other left' hup _
      cases hup
      simp
    · intro other left' hup _ d hd
      cases hup
      rw [hlive]
      obtain hd | hd := List.mem_cons.mp hd
      · rw [hd, hlive]
        exact .refl _
      · exact hahead.live d hd
  · obtain ⟨hexposed, hpublished, hshown⟩ := hsame
    have hbefore : listens listening (.up thread' (left.after e))
        (.host (.work e)) = true → listening = true := by
      intro hnow
      obtain hnone | ⟨-, hsome⟩ := hshown
      · rw [listens_work, hnone] at hnow
        simpa using hnow
      · exact h.opened thread left rfl (hsome seen hkeeps)
    have hmem : listening = true → ∀ d,
        d ∈ (Host.up thread' (left.after e)).shown (.work e) ++ seen →
        d ∈ seen := by
      intro hlistens d hd
      obtain hd | hd := List.mem_append.mp hd
      · obtain hnone | ⟨hsome, -⟩ := hshown
        · rw [hnone] at hd
          cases hd
        · rw [hsome, List.mem_singleton] at hd
          rw [hd]
          exact h.exposed thread left rfl hlistens
      · exact hd
    constructor
    · exact hsound
    · intro d hd
      obtain hd' | hd' := List.mem_append.mp hd
      · obtain hnone | ⟨hsome, hpublished⟩ := hshown
        · rw [hnone] at hd'
          cases hd'
        · apply h.genuine
          apply hmem (h.opened thread left rfl (hpublished seen hkeeps))
          exact hd
      · exact h.genuine d hd'
    · intro other left' hup hsome
      cases hup
      rw [hpublished] at hsome
      simp [listens_work, h.opened thread left rfl hsome]
    · intro other left' hup hlistens
      cases hup
      rw [hexposed]
      exact List.mem_append_right _ (h.exposed thread left rfl (hbefore hlistens))
    · intro other left' hup hlistens d hd
      cases hup
      rw [hexposed]
      exact h.newest thread left rfl (hbefore hlistens) d
        (hmem (hbefore hlistens) d hd)

/-- A process that has just been started has exposed nothing and does not
listen. -/
theorem Serves.step {s s' : Endpoint P} {event : EndpointEvent P}
    {listening : Bool} (hlaws : P.Versioned) (hwrites : P.Serializes)
    (hstep : EndpointStep P cfg s event s') (hkeeps : KeepsNumbering s event)
    (h : Serves s listening) :
    Serves s' (listens listening s'.host event) := by
  have hsound := h.sound.step hlaws hwrites hstep hkeeps
  cases hstep with
  | @host hostEvent host' hhost =>
      obtain ⟨host, seen⟩ := s
      cases hhost with
      | @start files initial fresh thread hopen =>
          constructor
          · exact hsound
          · exact h.genuine
          · intro other left' hup hsome
            cases hup
            exact absurd hopen.published hsome
          · intro _ _ _ hlistens
            cases hlistens
          · intro _ _ _ hlistens
            cases hlistens
      | work hwork => exact h.work hlaws hwrites hwork hkeeps
      | stop =>
          constructor
          · exact hsound
          · exact h.genuine
          · intro _ _ hup
            cases hup
          · intro _ _ hup
            cases hup
          · intro _ _ hup
            cases hup
  | delete hdown =>
      constructor
      · exact hsound
      · exact h.genuine
      · intro _ _ hup
        cases hup
      · intro _ _ hup
        cases hup
      · intro _ _ hup
        cases hup

theorem serves_new : Serves (Portal.new P).endpoint false := by
  constructor
  · constructor
    · intro d hd
      cases hd
    · intro d hd
      cases hd
    · intro files hdown blob parsed hindex
      cases hdown
      cases hindex
    · intro _ _ hup
      cases hup
  · intro d hd
    cases hd
  · intro _ _ hup
    cases hup
  · intro _ _ hup
    cases hup
  · intro _ _ hup
    cases hup

/-- Two directories that were shown, of one version. -/
theorem Serves.extends_of_longer {s : Endpoint P} {listening : Bool}
    {older newer : Directory P} (h : Serves s listening)
    (holder : older ∈ s.seen) (hnewer : newer ∈ s.seen)
    (hversion : older.parsed.version = newer.parsed.version)
    (hlen : older.parsed.delta.length ≤ newer.parsed.delta.length) :
    older.parsed.Extends newer.parsed := by
  obtain ⟨hmphf, hdelta⟩ := h.sound.alike older holder newer hnewer hversion
  refine ⟨hversion.symm, hmphf.symm, ?_⟩
  obtain hforth | hback := hdelta
  · exact hforth
  · have hsame := hback.eq_of_length_le hlen
    exact ⟨[], by rw [hsame, List.append_nil]⟩

theorem EndpointStep.seen_subset {s s' : Endpoint P} {event : EndpointEvent P}
    (hstep : EndpointStep P cfg s event s') (hd : d ∈ s.seen) : d ∈ s'.seen := by
  cases hstep with
  | host hhost => exact List.mem_append_right _ hd
  | delete hdown => exact hd

end Endpoints

end UsdtPir
