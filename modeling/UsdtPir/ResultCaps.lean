import Mathlib.Data.List.Infix
import UsdtPir.RangeCuts

/-!
# Which errors narrow a range

A provider refuses a range that holds too many logs, and says so in words of
its own.  The message is searched for ten phrases; four of them name a result,
a response, a block or a range, and six are general enough to stand in an error
about something else.
-/

namespace UsdtPir

open Interaction
open Program

/-- The message contains `phrase`, in any letter case. -/
def Mentions (message phrase : String) : Prop :=
  phrase.toList <:+: message.toList.map Char.toLower

theorem Mentions.of_infix {message phrase word : String}
    (h : Mentions message phrase) (hword : word.toList <:+: phrase.toList) :
    Mentions message word :=
  hword.trans h

theorem any_tails_isPrefixOf {msg pat : List Char} :
    (msg.tails.any fun rest => pat.isPrefixOf rest) = true ↔ pat <:+: msg := by
  simp only [List.any_eq_true, List.mem_tails, List.isPrefixOf_iff_prefix]
  constructor
  · intro hfound
    rcases hfound with ⟨rest, hsuffix, hprefix⟩
    exact hprefix.isInfix.trans hsuffix.isInfix
  · intro hinfix
    rcases List.infix_iff_prefix_suffix.mp hinfix with ⟨rest, hprefix, hsuffix⟩
    exact ⟨rest, hsuffix, hprefix⟩

instance (message phrase : String) : Decidable (Mentions message phrase) :=
  decidable_of_iff _ any_tails_isPrefixOf

theorem isResultCapMessage_iff {message : String} :
    isResultCapMessage message = true ↔
      ∃ pat ∈ resultCapPatterns, Mentions message pat := by
  unfold isResultCapMessage
  rw [List.any_eq_true]
  simp only [any_tails_isPrefixOf]
  exact Iff.rfl

/-- An error about the rate of requests, in words that do not bear on a
range. -/
structure Throttling (message : String) : Prop where
  rate : Mentions message "rate limit"
  noResult : ¬ Mentions message "result"
  noResponse : ¬ Mentions message "response"
  noBlock : ¬ Mentions message "block"
  noRange : ¬ Mentions message "range"

/-- The phrases that say nothing of results, responses, blocks or ranges. -/
def generalPatterns : List String :=
  ["more than", "query returned", "limit exceeded", "limited to", "too large",
    "exceeds"]

/-- Among throttling errors, those with a general phrase pass for a cap. -/
theorem Throttling.isResultCapMessage_iff {message : String}
    (h : Throttling message) : isResultCapMessage message = true ↔
      ∃ pat ∈ generalPatterns, Mentions message pat := by
  have hresults : ¬ Mentions message "too many results" :=
    fun hpat => h.noResult (hpat.of_infix ⟨"too many ".toList, "s".toList, rfl⟩)
  have hsize : ¬ Mentions message "response size" :=
    fun hpat => h.noResponse (hpat.of_infix ⟨[], " size".toList, rfl⟩)
  have hblock : ¬ Mentions message "block range" :=
    fun hpat => h.noBlock (hpat.of_infix ⟨[], " range".toList, rfl⟩)
  have hrange : ¬ Mentions message "range is too large" :=
    fun hpat => h.noRange (hpat.of_infix ⟨[], " is too large".toList, rfl⟩)
  rw [UsdtPir.isResultCapMessage_iff]
  simp only [resultCapPatterns, generalPatterns, List.mem_cons,
    List.not_mem_nil, or_false, exists_eq_or_imp, exists_eq_left, hresults,
    hsize, hblock, hrange, false_or]

/-- Refused with this message, `fetch_logs` hands the error on. -/
def GivesUp (lo hi chunk : ℕ) (message : String) : Prop :=
  ∀ s, ∃ next, fetchLogs lo (hi - lo) hi chunk s =
      .ask (.getLogs (filter lo hi)) next ∧
    next (Except.error ⟨message⟩ : Except RpcError (List Log)) =
      .done (.error (.err [message]), s)

/-- Refused with this message, `fetch_logs` asks for the first half and keeps
half the chunk for what follows. -/
def Narrows (lo hi chunk : ℕ) (message : String) : Prop :=
  ∀ s, ∃ next, fetchLogs lo (hi - lo) hi chunk s =
      .ask (.getLogs (filter lo hi)) next ∧
    next (Except.error ⟨message⟩ : Except RpcError (List Log)) =
      fetchLogs lo (lo + (hi - lo) / 2 - lo) (lo + (hi - lo) / 2)
        (max (chunk / 2) 1) s

/-- What the first request of `fetch_logs` goes on to when it is refused. -/
theorem fetchLogs_refused (lo hi chunk : ℕ) (message : String) (s : Process) :
    ∃ next, fetchLogs lo (hi - lo) hi chunk s =
        .ask (.getLogs (filter lo hi)) next ∧
      next (Except.error ⟨message⟩ : Except RpcError (List Log)) =
        (if isResultCapMessage message = true ∧ lo < hi then
          fetchLogs lo (lo + (hi - lo) / 2 - lo) (lo + (hi - lo) / 2)
            (max (chunk / 2) 1) s
        else
          .done (.error (.err [message]), s)) := by
  rw [fetchLogs_loop]
  refine ⟨_, rfl, ?_⟩
  show (if isResultCap ⟨message⟩ = true ∧ lo < hi then
      fetchLogs lo (lo + (hi - lo) / 2 - lo) (lo + (hi - lo) / 2)
        (max (chunk / 2) 1)
    else
      liftRpc [] (Except.error ⟨message⟩)) s = _
  by_cases hcap : isResultCapMessage message = true ∧ lo < hi
  · have hrule : isResultCap ⟨message⟩ = true ∧ lo < hi := hcap
    rw [if_pos hcap, if_pos hrule]
  · have hrule : ¬ (isResultCap ⟨message⟩ = true ∧ lo < hi) := hcap
    rw [if_neg hcap, if_neg hrule]
    rfl

theorem givesUp_of_no_cap {message : String}
    (h : isResultCapMessage message = false) (lo hi chunk : ℕ) :
    GivesUp lo hi chunk message := by
  intro s
  rcases fetchLogs_refused lo hi chunk message s with ⟨next, hask, hnext⟩
  have hcap : ¬ (isResultCapMessage message = true ∧ lo < hi) := by
    simp [h]
  rw [if_neg hcap] at hnext
  exact ⟨next, hask, hnext⟩

theorem narrows_of_cap {message : String}
    (h : isResultCapMessage message = true) {lo hi : ℕ} (hlt : lo < hi)
    (chunk : ℕ) : Narrows lo hi chunk message := by
  intro s
  rcases fetchLogs_refused lo hi chunk message s with ⟨next, hask, hnext⟩
  rw [if_pos ⟨h, hlt⟩] at hnext
  exact ⟨next, hask, hnext⟩

/-- The error is not taken for a result cap, and is returned at once. -/
def Returned (message : String) : Prop :=
  isResultCapMessage message = false ∧
    ∀ lo hi chunk, GivesUp lo hi chunk message

/-- A throttling error is returned exactly when none of the general phrases
stands in it; with one of them it narrows the range instead. -/
theorem throttling_returned_iff {message : String} (h : Throttling message) :
    (Returned message ↔ ∀ pat ∈ generalPatterns, ¬ Mentions message pat) ∧
    ((∃ pat ∈ generalPatterns, Mentions message pat) →
      ∀ lo hi chunk, lo < hi → Narrows lo hi chunk message) := by
  constructor
  · constructor
    · intro hreturned pat hpat hmentions
      have hcap := h.isResultCapMessage_iff.mpr ⟨pat, hpat, hmentions⟩
      rw [hreturned.1] at hcap
      cases hcap
    · intro hnone
      have hfalse : isResultCapMessage message = false := by
        apply Bool.eq_false_iff.mpr
        intro hcap
        rcases h.isResultCapMessage_iff.mp hcap with ⟨pat, hpat, hmentions⟩
        exact hnone pat hpat hmentions
      exact ⟨hfalse, givesUp_of_no_cap hfalse⟩
  · intro hsome lo hi chunk hlt
    exact narrows_of_cap (h.isResultCapMessage_iff.mpr hsome) hlt chunk

theorem throttling_returned_iff_reached :
    Returned "HTTP error 429 with body: Rate limit reached" := by
  have hthrottling : Throttling "HTTP error 429 with body: Rate limit reached" := by
    constructor <;> decide +kernel
  exact (throttling_returned_iff hthrottling).1.mpr (by decide +kernel)

/-- The most usual words for throttling hold one of the phrases. -/
theorem throttling_not_returned :
    ¬ ∀ message, Throttling message → Returned message := by
  intro hall
  have hthrottling :
      Throttling "HTTP error 429 with body: Rate limit exceeded" := by
    constructor <;> decide +kernel
  have hcap : isResultCapMessage
      "HTTP error 429 with body: Rate limit exceeded" = true := by
    decide +kernel
  rw [(hall _ hthrottling).1] at hcap
  cases hcap

end UsdtPir
