import UsdtPir.BoundedRetries
import UsdtPir.ChainBalances
import UsdtPir.SampledFeed

/-!
# The chunks of a sync

A bounded sync, with its failed attempts, is a row of chunks from the block
after the cursor on.  For one address that samples the chain at the blocks where
the chunks end.
-/

namespace UsdtPir

open Interaction
open Program
open Following

/-- Chunks folded into the map one after the other, with the blocks at which
they end. -/
inductive Chunked (truth : (q : Request) → Answer q → Prop) :
    BalanceMap → List ℕ → BalanceMap → Prop
  | nil (map : BalanceMap) : Chunked truth map [] map
  | cons {hi : ℕ} {s s₁ : Process} {ends : List ℕ} {map' : BalanceMap}
      (happlied : ChunkApplied truth (s.map.cursor + 1) hi s s₁)
      (hrest : Chunked truth s₁.map ends map') :
      Chunked truth s.map (hi :: ends) map'

section Chunks

variable {X : Chain} {truth : (q : Request) → Answer q → Prop}
    {map map₁ map' : BalanceMap} {ends ends' : List ℕ} {hi : ℕ}
    {s s' : Process}

theorem Chunked.append (h : Chunked truth map ends map₁)
    (h' : Chunked truth map₁ ends' map') :
    Chunked truth map (ends ++ ends') map' := by
  induction h with
  | nil map => exact h'
  | cons happlied hrest ih => exact .cons happlied (ih h')

theorem Chunked.concat (h : Chunked truth map ends s.map)
    (happlied : ChunkApplied truth (s.map.cursor + 1) hi s s') :
    Chunked truth map (ends ++ [hi]) s'.map :=
  h.append (.cons happlied (.nil s'.map))

theorem Chunked.cursor_lt (hranged : Ranged truth)
    (h : Chunked truth map ends map') (hmap : map.cursor + 1 < 2 ^ 64) :
    map'.cursor + 1 < 2 ^ 64 := by
  induction h with
  | nil map => exact hmap
  | cons happlied hrest ih =>
      apply ih
      rw [happlied.cursor]
      exact (happlied.ranged hranged).2

theorem Chunked.sampled (hreads : X.BacksReads truth)
    (h : Chunked truth map ends map') (a : Address) :
    Sampled X.feed blank a map.cursor (map.holding a) ends map'.cursor
      (map'.holding a) := by
  induction h with
  | nil map => exact .nil _ _
  | @cons hi s s₁ ends map' happlied hrest ih =>
      have href := (happlied.refreshed hreads).1
      have hcursor : s₁.map.cursor = hi := href.cursor
      rw [hcursor] at ih
      exact .cons href.lt (href.touched a) (href.untouched a) ih

theorem Chunks.chunked (hranged : Ranged truth) {cfg : FollowConfig}
    {target lo' : ℕ}
    (h : Chunks truth cfg target (s.map.cursor + 1) s lo' s') :
    ∃ ends, Chunked truth s.map ends s'.map := by
  apply (h.follow hranged (P := fun s₁ => ∃ ends, Chunked truth s.map ends s₁.map)
    ⟨[], .nil s.map⟩ _).1
  intro hi s₁ s₂ _ happlied hbefore
  rcases hbefore with ⟨ends, hends⟩
  exact ⟨ends ++ [hi], hends.concat happlied⟩

/-- The chunks of a sync that is done end at its last block. -/
theorem Chunks.completed (hranged : Ranged truth) {cfg : FollowConfig}
    {target lo' : ℕ} (hlt : s.map.cursor < target)
    (h : Chunks truth cfg target (s.map.cursor + 1) s.startSync lo' s')
    (hend : target < lo') :
    (s'.pruned cfg).map.cursor = target ∧
      ∃ ends, Chunked truth s.map ends (s'.pruned cfg).map := by
  have hcursor := (Chunks.cursor_le (s := s.startSync) hranged h hlt).2.2 hend
  rcases h.journaled with ⟨new, hnew⟩
  have hmap : (s'.pruned cfg).map = s'.map :=
    congrArg Prod.snd hnew.pruned_eq
  rw [hmap]
  exact ⟨hcursor.1, Chunks.chunked (s := s.startSync) hranged h⟩

end Chunks

section Rules

variable {ω : Type} {env : Environment Request Answer ω} {world : ω}
    {truth : (q : Request) → Answer q → Prop} {cfg : FollowConfig}
    {s : Process} {lo toBlock : ℕ}

theorem meets_syncInto_chunked (hkeeps : env.Keeps truth)
    (hranged : Ranged truth) (hlo : lo = s.map.cursor + 1)
    (hle : lo ≤ toBlock) :
    Meets env (syncInto cfg lo toBlock) world s
      (fun _ _ s' => s'.map.cursor = toBlock ∧
        ∃ ends, Chunked truth s.map ends s'.map)
      (fun _ _ s' => s'.map.cursor ≤ toBlock ∧
        ∃ ends, Chunked truth s.map ends s'.map) := by
  have hlt : s.map.cursor < toBlock := by omega
  rw [hlo] at hle ⊢
  apply meets_mono (meets_syncInto hkeeps hle)
  · intro final _ s' hdone
    rcases hdone with ⟨lo', s₁, hend, hchunks, rfl⟩
    exact Chunks.completed hranged hlt hchunks hend
  · intro final failure s' hstopped
    rcases hstopped with ⟨lo', hchunks⟩
    have hcursor := (Chunks.cursor_le (s := s.startSync) hranged hchunks hlt).2.1
    exact ⟨hcursor, Chunks.chunked (s := s.startSync) hranged hchunks⟩

theorem meets_syncOnce_chunked (hkeeps : env.Keeps truth)
    (hranged : Ranged truth) (hlo : lo = s.map.cursor + 1)
    (hle : lo ≤ toBlock) :
    Meets env (syncOnce cfg lo toBlock) world s
      (fun _ _ s' => s'.map.cursor = toBlock ∧
        ∃ ends, Chunked truth s.map ends s'.map)
      (fun _ _ s' => s'.map.cursor ≤ toBlock ∧
        ∃ ends, Chunked truth s.map ends s'.map) := by
  simp only [syncOnce, markSnapshot, meets_bind, meets_instantNow, meets_modify]
  intro now after _
  exact meets_syncInto_chunked (s := { s with
    lastSnapshot := now
    watch := default
    changed := ∅ }) hkeeps hranged hlo hle

/-- Every attempt goes on where the last one stopped. -/
theorem meets_syncAttempts_chunked {retries origin fuel start stalled : ℕ}
    {map : BalanceMap} (hkeeps : env.Keeps truth) (hranged : Ranged truth)
    (hmap : map.cursor + 1 < 2 ^ 64) (hstart : start = s.map.cursor + 1)
    (hle : start ≤ toBlock) (hs : ∃ ends, Chunked truth map ends s.map) :
    Meets env (syncAttempts cfg toBlock retries origin fuel start stalled)
      world s
      (fun _ _ s' => s'.map.cursor = toBlock ∧
        ∃ ends, Chunked truth map ends s'.map)
      (fun _ _ _ => True) := by
  induction fuel generalizing world s start stalled with
  | zero => trivial
  | succ fuel ih =>
      have happend : ∀ {s₁ : Process},
          (∃ ends, Chunked truth s.map ends s₁.map) →
            ∃ ends, Chunked truth map ends s₁.map := by
        intro s₁ hmore
        rcases hs with ⟨ends, hends⟩
        rcases hmore with ⟨ends', hends'⟩
        exact ⟨ends ++ ends', hends.append hends'⟩
      simp only [syncAttempts, meets_bind, meets_get, meets_attempt]
      apply meets_mono (meets_syncOnce_chunked hkeeps hranged hstart hle)
      · intro middle _ s₁ hdone
        rcases hdone with ⟨hcursor, hchunked⟩
        simp only [setBlocks, meets_bind, meets_modify, meets_get,
          meets_saveMapOrFail]
        intro answer after _
        cases answer with
        | ok written => exact ⟨hcursor, happend hchunked⟩
        | error e => trivial
      · intro middle failure s₁ hstopped
        rcases hstopped with ⟨hcursor, hchunked⟩
        cases failure with
        | err chain =>
            rw [meets_bind]
            apply meets_mono meets_waitToRetry
            · intro after stalled' s₂ hwaited
              simp only [meets_bind, meets_get]
              rw [← hwaited.1] at hcursor hchunked
              have hmore := happend hchunked
              have hadd : cfg.word.add s₂.map.cursor 1 = s₂.map.cursor + 1 := by
                rcases hmore with ⟨ends, hends⟩
                exact cfg.word.add_of_lt _ _ (hends.cursor_lt hranged hmap)
              split
              · rename_i hpast
                rw [hadd] at hpast
                simp only [setBlocks, meets_bind, meets_modify, meets_get,
                  meets_pure]
                exact ⟨by omega, hmore⟩
              · rename_i hnext
                exact ih hadd (Nat.le_of_not_lt hnext) hmore
            · intro after failure' s₂ _
              trivial
        | panic message => trivial
        | killed => trivial

/-- A bounded sync that returns `Ok` is chunks up to its last block. -/
theorem meets_runSync_chunked {retries : ℕ} (hkeeps : env.Keeps truth)
    (hranged : Ranged truth) (hto : toBlock < 2 ^ 64)
    (hlo : lo = s.map.cursor + 1) (hle : lo ≤ toBlock) :
    Meets env (runSync cfg lo toBlock retries) world s
      (fun _ _ s' => s'.map.cursor = toBlock ∧
        ∃ ends, Chunked truth s.map ends s'.map)
      (fun _ _ _ => True) := by
  have hmap : s.map.cursor + 1 < 2 ^ 64 := by omega
  simp only [runSync, meets_bind, meets_modify, meets_get, meets_lifetime]
  intro lifetime after _
  exact meets_syncAttempts_chunked (s := { s with totals := default }) hkeeps
    hranged hmap hlo hle ⟨[], .nil s.map⟩

end Rules

end UsdtPir
