import UsdtPir.TouchedAddresses

/-!
# The block of the last touch

A touch keeps, per token, the last block in which an address was seen.  What
is collected from logs is the greatest of the blocks of the logs that name the
address.
-/

namespace UsdtPir

/-- The greatest number with the property, if any has it. -/
def IsLast (P : ℕ → Prop) : Option ℕ → Prop
  | none => ∀ b, ¬ P b
  | some m => P m ∧ ∀ b, P b → b ≤ m

section Last

variable {P Q : ℕ → Prop} {last last' : Option ℕ} {b : ℕ}

theorem isLast_none : IsLast P none ↔ ∀ b, ¬ P b :=
  Iff.rfl

theorem IsLast.congr (h : IsLast P last) (hiff : ∀ b, P b ↔ Q b) :
    IsLast Q last := by
  have hsame : P = Q := funext fun b => propext (hiff b)
  rwa [← hsame]

theorem IsLast.unique (h : IsLast P last) (h' : IsLast P last') :
    last = last' := by
  cases last with
  | none =>
      cases last' with
      | none => rfl
      | some m' => exact absurd h'.1 (h m')
  | some m =>
      cases last' with
      | none => exact absurd h.1 (h' m)
      | some m' => exact congrArg some (Nat.le_antisymm (h'.2 m h.1) (h.2 m' h'.1))

theorem isLast_eq (block : Option ℕ) : IsLast (block = some ·) block := by
  cases block with
  | none =>
      intro b h
      cases h
  | some m =>
      constructor
      · rfl
      · intro b h
        cases h
        exact le_rfl

theorem IsLast.or (h : IsLast P last) (h' : IsLast Q last') :
    IsLast (fun b => P b ∨ Q b) (maxBlock last last') := by
  cases last with
  | none =>
      have hright : maxBlock none last' = last' := by cases last' <;> rfl
      rw [hright]
      apply h'.congr
      intro b
      simp [isLast_none.mp h b]
  | some m =>
      cases last' with
      | none =>
          apply h.congr
          intro b
          simp [isLast_none.mp h' b]
      | some m' =>
          constructor
          · rcases Nat.le_total m m' with hle | hle
            · rw [Nat.max_eq_right hle]
              exact .inr h'.1
            · rw [Nat.max_eq_left hle]
              exact .inl h.1
          · intro b hb
            rcases hb with hb | hb
            · exact (h.2 b hb).trans (Nat.le_max_left m m')
            · exact (h'.2 b hb).trans (Nat.le_max_right m m')

end Last

/-! ## What touches keep -/

/-- `sees a token b`: the address was seen in a log of the token in block `b`. -/
abbrev Sightings := Address → Address → ℕ → Prop

/-- The touches keep the last sighting of every address, for either token. -/
def LastSeen (sees : Sightings) (touched : HashMap Address Touch) : Prop :=
  ∀ a, IsLast (sees a USDT) ((touched.lookup a).getD default).usdt ∧
    IsLast (sees a USDC) ((touched.lookup a).getD default).usdc

/-- One more sighting. -/
def Sightings.add (sees : Sightings) (addr token : Address)
    (block : Option ℕ) : Sightings :=
  fun a τ b => sees a τ b ∨ a = addr ∧ τ = token ∧ block = some b

section Seen

variable {sees sees' : Sightings} {touched : HashMap Address Touch}
    {addr token : Address} {block : Option ℕ}

theorem LastSeen.congr (h : LastSeen sees touched)
    (hiff : ∀ a token b, sees a token b ↔ sees' a token b) :
    LastSeen sees' touched :=
  fun a => ⟨(h a).1.congr (hiff a USDT), (h a).2.congr (hiff a USDC)⟩

theorem lastSeen_empty : LastSeen (fun _ _ _ => False) ∅ :=
  fun _ => ⟨fun _ => id, fun _ => id⟩

theorem USDT_ne_USDC : USDT ≠ USDC := by
  decide

/-- `entry(addr).or_default().see(token, block)`. -/
theorem LastSeen.see (h : LastSeen sees touched) (addr token : Address)
    (block : Option ℕ) :
    LastSeen (sees.add addr token block)
      (touched.insert addr
        (((touched.lookup addr).getD default).see token block)) := by
  intro a
  by_cases ha : a = addr
  · subst ha
    rw [AList.lookup_insert]
    dsimp only [Option.getD_some]
    have hslot : ∀ {slot : Option ℕ} {τ : Address},
        IsLast (sees a τ) slot →
        IsLast (sees.add a token block a τ)
          (if τ = token then maxBlock slot block else slot) := by
      intro slot τ hlast
      by_cases htoken : τ = token
      · rw [if_pos htoken]
        apply (hlast.or (isLast_eq block)).congr
        intro b
        simp [Sightings.add, htoken]
      · rw [if_neg htoken]
        apply hlast.congr
        intro b
        simp [Sightings.add, htoken]
    have hne := USDT_ne_USDC
    constructor
    · have husdt := hslot (h a).1
      unfold Touch.see
      split
      · rename_i htoken
        rwa [if_pos htoken.symm] at husdt
      · rename_i htoken
        rw [if_neg (Ne.symm htoken)] at husdt
        split
        · exact husdt
        · exact husdt
    · have husdc := hslot (h a).2
      unfold Touch.see
      split
      · rename_i htoken
        rw [if_neg (by rw [htoken]; exact hne.symm)] at husdc
        exact husdc
      · split
        · rename_i htoken
          rwa [if_pos htoken.symm] at husdc
        · rename_i htoken
          rwa [if_neg (Ne.symm htoken)] at husdc
  · rw [AList.lookup_insert_ne ha]
    constructor
    · apply (h a).1.congr
      intro b
      simp [Sightings.add, ha]
    · apply (h a).2.congr
      intro b
      simp [Sightings.add, ha]

end Seen

/-! ## What logs show -/

/-- The sightings of a log. -/
def Log.Shows (log : Log) : Sightings :=
  fun a token b => a ∈ namedBy log ∧ token = log.address ∧
    log.blockNumber = some b

section Collecting

variable {sees : Sightings} {p : Projection} {log : Log}

theorem LastSeen.foldl_see (named : List Address)
    (h : LastSeen sees p.out) :
    LastSeen (fun a token b => sees a token b ∨ a ∈ named ∧
        token = log.address ∧ log.blockNumber = some b)
      (named.foldl (fun p a => p.see a log) p).out := by
  induction named generalizing p sees with
  | nil =>
      apply h.congr
      simp
  | cons addr rest ih =>
      have hfirst : LastSeen (sees.add addr log.address log.blockNumber)
          (p.see addr log).out := h.see addr log.address log.blockNumber
      apply (ih hfirst).congr
      intro a token b
      simp only [Sightings.add, List.mem_cons]
      tauto

theorem LastSeen.collectLog (h : LastSeen sees p.out) :
    LastSeen (fun a token b => sees a token b ∨ log.Shows a token b)
      (UsdtPir.collectLog p log).out := by
  rw [collectLog_out]
  exact h.foldl_see (namedBy log)

/-- The touches collected from logs are their last sightings. -/
theorem lastSeen_collectTouched (logs : List Log) :
    LastSeen (fun a token b => ∃ log ∈ logs, log.Shows a token b)
      (collectTouched logs ∅).out := by
  have hfold : ∀ (sees : Sightings) (p : Projection), LastSeen sees p.out →
      LastSeen (fun a token b => sees a token b ∨
          ∃ log ∈ logs, log.Shows a token b)
        (logs.foldl UsdtPir.collectLog p).out := by
    induction logs with
    | nil =>
        intro sees p h
        apply h.congr
        simp
    | cons log rest ih =>
        intro sees p h
        have hfirst : LastSeen (fun a token b => sees a token b ∨
            log.Shows a token b) (UsdtPir.collectLog p log).out :=
          h.collectLog
        apply (ih _ _ hfirst).congr
        intro a token b
        simp only [List.exists_mem_cons_iff, or_assoc]
  apply (hfold _ ⟨∅, ⟨0, []⟩⟩ lastSeen_empty).congr
  intro a token b
  simp

end Collecting

/-- Equal neighbours are all that a sorted list repeats. -/
theorem pairwise_dedup {l : List ℕ} (h : l.Pairwise (· ≤ ·)) :
    (dedup l).Pairwise (· < ·) := by
  fun_induction dedup l with
  | case1 => exact .nil
  | case2 a => exact List.pairwise_singleton _ a
  | case3 b rest ih => exact ih h.tail
  | case4 a b rest hne ih =>
      rw [List.pairwise_cons] at h ⊢
      constructor
      · intro n hn
        rw [mem_dedup] at hn
        have hab : a ≤ b := h.1 b List.mem_cons_self
        have hbn : b ≤ n := by
          rcases List.mem_cons.mp hn with rfl | hn
          · exact le_rfl
          · exact (List.pairwise_cons.mp h.2).1 n hn
        omega
      · exact ih h.2

theorem nodup_usdtSupplyBlocks (logs : List Log)
    (out : HashMap Address Touch) :
    (collectTouched logs out).collected.usdtSupplyBlocks.Nodup :=
  (pairwise_dedup (List.pairwise_insertionSort _ _)).imp Nat.ne_of_lt

/-- What a range of logs shows, the owners of its supply events included. -/
def Sees (logs : List Log) (owner : ℕ → Address) : Sightings :=
  fun a token b => (∃ log ∈ logs, log.Shows a token b) ∨
    (token = USDT ∧ a = owner b ∧ ∃ log ∈ logs, isSupplyEvent log = true ∧
      log.blockNumber = some b)

end UsdtPir
