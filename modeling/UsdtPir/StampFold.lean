import UsdtPir.MarkedFeed
import UsdtPir.Replay

/-!
# The stamps of a segment

An entry carries, for each token, the last block in which the address was seen.
A chunk that ends where the address has no balances drops the entry with its
stamps, so the stamps depend on where the chunks end, and the balances do not.
-/

namespace UsdtPir

open Interaction
open Program
open Following

def Touch.last (seen : Touch) (token : Address) : Option ℕ :=
  if token = USDT then seen.usdt else seen.usdc

def Entry.stamp (e : Entry) (token : Address) : U32 :=
  if token = USDT then e.usdtBlock else e.usdcBlock

def BalanceMap.stamp (map : BalanceMap) (a token : Address) : Option U32 :=
  (map.get a).map fun e => e.stamp token

/-- The blocks in which an address is seen in a token. -/
def Chain.sightings (X : Chain) (token : Address) : Feed Address Balances where
  value := X.balances
  touched b a := Sees (X.watched b) X.owner a token b

/-! ## One reading -/

section Stamp

variable {map map' : BalanceMap} {a token : Address} {r : Reading}
    {seen : Touch} {e e' : Entry} {applied : Applied}

theorem updateBlock_elim {slot stamp : U32} {block : Option ℕ} {changed : Bool}
    (h : updateBlock slot block = some (changed, stamp)) :
    block.elim (some slot) block32 = some stamp := by
  have hstamp := (updateBlock_eq_some h).1
  cases block with
  | none => simp [hstamp, stampBlock]
  | some b =>
      simp only [updateBlock, Option.bind_eq_bind, Option.bind_eq_some_iff] at h
      rcases h with ⟨block, hblock, -⟩
      rw [Option.elim_some, hblock, hstamp, block32_eq_some hblock]
      rfl

theorem applyExisting_stamp (h : applyExisting e r seen = some (applied, e')) :
    (seen.last token).elim (some (e.stamp token)) block32 =
      some (e'.stamp token) := by
  simp only [applyExisting, stampSeenBlocks, writeBalances, updateBalance_eq,
    Option.bind_eq_bind, Option.bind_eq_some_iff, Option.some.injEq,
    Prod.mk.injEq, Prod.exists] at h
  rcases h with ⟨stamped, e₁, ⟨changedUsdt, usdtBlock, husdt, changedUsdc,
    usdcBlock, husdc, rfl, rfl⟩, rfl, rfl⟩
  unfold Touch.last Entry.stamp
  split
  · exact updateBlock_elim husdt
  · exact updateBlock_elim husdc

theorem newEntry_stamp (h : newEntry r seen = some e) :
    (seen.last token).elim (some 0) block32 = some (e.stamp token) := by
  simp only [newEntry, Option.bind_eq_bind, Option.bind_eq_some_iff,
    Option.some.injEq] at h
  rcases h with ⟨usdtBlock, husdt, usdcBlock, husdc, rfl⟩
  unfold Touch.last Entry.stamp
  split
  · exact husdt
  · exact husdc

/-- After a reading that is not zero the address has the stamp of the touch, or
the one it had, or none. -/
theorem BalanceMap.apply_stamp
    (h : map.apply a r seen = some (applied, map')) (hr : r.isZero = false)
    (token : Address) :
    ∃ stamp, map'.stamp a token = some stamp ∧
      (seen.last token).elim (some ((map.stamp a token).getD 0)) block32 =
        some stamp := by
  unfold BalanceMap.apply at h
  cases hget : map.get a with
  | some e =>
      simp only [hget, Option.bind_eq_bind, Option.bind_eq_some_iff,
        Prod.exists] at h
      rcases h with ⟨outcome, e', he', h⟩
      have hzero : e'.isZero = false := by
        rw [(applyExisting_eq_some he').1, mergeEntry_isZero, hr]
      simp only [hzero, Bool.false_eq_true, if_false, Option.some.injEq,
        Prod.mk.injEq] at h
      rw [← h.2]
      exact ⟨e'.stamp token, by simp [BalanceMap.stamp, BalanceMap.get],
        by simpa [BalanceMap.stamp, hget] using applyExisting_stamp he'⟩
  | none =>
      simp only [hget, hr, Bool.false_eq_true, if_false, BalanceMap.insertNew,
        Option.bind_eq_bind, Option.bind_eq_some_iff, Option.some.injEq,
        Prod.mk.injEq] at h
      rcases h with ⟨e, he, -, hmap⟩
      rw [← hmap]
      exact ⟨e.stamp token, by simp [BalanceMap.stamp, BalanceMap.get],
        by simpa [BalanceMap.stamp, hget] using newEntry_stamp he⟩

theorem BalanceMap.stamp_eq_none :
    map.stamp a token = none ↔ map.get a = none := by
  simp [BalanceMap.stamp]

theorem BalanceMap.holding_eq_none :
    map.holding a = none ↔ map.get a = none := by
  simp [BalanceMap.holding]

/-- Balances and stamps are all there is to an entry. -/
theorem BalanceMap.get_eq_iff (hholding : map.holding a = map'.holding a) :
    map.get a = map'.get a ↔
      ∀ token ∈ TOKENS, map.stamp a token = map'.stamp a token := by
  constructor
  · intro h token _
    rw [BalanceMap.stamp, BalanceMap.stamp, h]
  · intro h
    have husdt := h USDT (by decide)
    have husdc := h USDC (by decide)
    unfold BalanceMap.holding at hholding
    unfold BalanceMap.stamp at husdt husdc
    cases hget : map.get a with
    | none =>
        rw [hget] at hholding
        exact (Option.map_eq_none_iff.mp hholding.symm).symm
    | some e =>
        rw [hget] at hholding husdt husdc
        cases hget' : map'.get a with
        | none =>
            rw [hget'] at hholding
            cases hholding
        | some e' =>
            rw [hget'] at hholding husdt husdc
            have hbalances : e.reading.balances = e'.reading.balances :=
              Option.some.inj hholding
            have hvalues := Prod.mk.inj hbalances
            have hne : USDC ≠ USDT := by decide
            have hstamps : e.usdtBlock = e'.usdtBlock ∧
                e.usdcBlock = e'.usdcBlock := by
              simp only [Option.map_some, Option.some.injEq, Entry.stamp,
                if_pos] at husdt husdc
              rw [if_neg hne, if_neg hne] at husdc
              exact ⟨husdt, husdc⟩
            rw [Option.some.injEq, Entry.ext_iff]
            exact ⟨BitVec.eq_of_toNat_eq hvalues.1, hstamps.1,
              BitVec.eq_of_toNat_eq hvalues.2, hstamps.2⟩

end Stamp

/-! ## One chunk -/

section Chunk

variable {X : Chain} {truth : (q : Request) → Answer q → Prop} {lo hi : ℕ}
    {logs : List Log} {touched : HashMap Address Touch} {a token : Address}
    {s s' : Process}

theorem Chain.sightings_touches {b : ℕ}
    (h : (X.sightings token).touched b a) : X.feed.touched b a := by
  rcases h with ⟨log, hlog, hnamed, -, -⟩ | ⟨-, howner, log, hlog, hsupply, -⟩
  · exact .inl ⟨log, hlog, hnamed⟩
  · exact .inr ⟨⟨log, hlog, hsupply⟩, howner.symm⟩

/-- What the logs of a range show is what the chain shows in it. -/
theorem sees_iff {owner : ℕ → Address}
    (hlogs : ∀ log, log ∈ logs ↔ ∃ b, lo ≤ b ∧ b ≤ hi ∧ log ∈ X.watched b)
    (howner : ∀ log ∈ logs, isSupplyEvent log = true →
      ∀ b, log.blockNumber = some b → owner b = X.owner b) (n : ℕ) :
    Sees logs owner a token n ↔
      lo ≤ n ∧ n ≤ hi ∧ (X.sightings token).touched n a := by
  have hblock : ∀ {log : Log} {b : ℕ}, log ∈ X.watched b →
      log.blockNumber = some n → b = n := by
    intro log b hlog hn
    rw [X.numbered b log (List.mem_of_mem_filter hlog)] at hn
    exact Option.some.inj hn
  constructor
  · rintro (⟨log, hlog, hshows⟩ | ⟨htoken, ha, log, hlog, hsupply, hn⟩)
    · rcases (hlogs log).mp hlog with ⟨b, hlo, hhi, hwatched⟩
      cases hblock hwatched hshows.2.2
      exact ⟨hlo, hhi, .inl ⟨log, hwatched, hshows⟩⟩
    · rcases (hlogs log).mp hlog with ⟨b, hlo, hhi, hwatched⟩
      cases hblock hwatched hn
      rw [howner log hlog hsupply n hn] at ha
      exact ⟨hlo, hhi, .inr ⟨htoken, ha, log, hwatched, hsupply, hn⟩⟩
  · rintro ⟨hlo, hhi, ⟨log, hwatched, hshows⟩ |
      ⟨htoken, ha, log, hwatched, hsupply, hn⟩⟩
    · exact .inl ⟨log, (hlogs log).mpr ⟨n, hlo, hhi, hwatched⟩, hshows⟩
    · have hlog := (hlogs log).mpr ⟨n, hlo, hhi, hwatched⟩
      rw [← howner log hlog hsupply n hn] at ha
      exact .inr ⟨htoken, ha, log, hlog, hsupply, hn⟩

theorem LastSeen.last {sees : Sightings} (h : LastSeen sees touched)
    (htoken : token ∈ TOKENS) :
    IsLast (sees a token) (((touched.lookup a).getD default).last token) := by
  have hne : USDC ≠ USDT := by decide
  have hcases : token = USDT ∨ token = USDC := by
    simpa [TOKENS] using htoken
  unfold Touch.last
  rcases hcases with rfl | rfl
  · rw [if_pos rfl]
    exact (h a).1
  · rw [if_neg hne]
    exact (h a).2

theorem IsLast.remarked {G : Feed Address Balances} {last : Option ℕ}
    {old stamp : U32}
    (h : IsLast (fun n => lo < n ∧ n ≤ hi ∧ G.touched n a) last)
    (hstamp : last.elim (some old) block32 = some stamp) :
    Remarked G a block32 lo hi old stamp := by
  cases last with
  | none =>
      cases hstamp
      apply Remarked.kept
      rintro ⟨n, hlo, hhi, hn⟩
      exact h n ⟨hlo, hhi, hn⟩
  | some m =>
      rcases h with ⟨⟨hlo, hhi, hm⟩, hmax⟩
      apply Remarked.sighted hlo hhi hm _ hstamp
      rintro ⟨n, hmn, hn, hseen⟩
      have hle := hmax n ⟨by omega, hn, hseen⟩
      omega

/-- A chunk leaves an address that it touches with the stamp of its last
sighting in the chunk, or without an entry. -/
theorem ChunkApplied.stamps (hreads : X.BacksReads truth)
    (h : ChunkApplied truth (s.map.cursor + 1) hi s s') (a : Address)
    (htoken : token ∈ TOKENS)
    (htouched : X.feed.TouchedIn a s.map.cursor hi)
    (hvalue : blank (X.balances a hi) = false) :
    ∃ stamp, s'.map.stamp a token = some stamp ∧
      Remarked (X.sightings token) a block32 s.map.cursor hi
        ((s.map.stamp a token).getD 0) stamp := by
  rcases h with ⟨logs, stats, addrs, touched, rows, s₁, hlogs, hrange, hs', -⟩
  rcases hrange.applied with ⟨out, happlied, -, -⟩
  rcases tells_getLogs (hreads _ _ hlogs id) with ⟨-, -, hmem⟩
  have hin : a ∈ touched := (collects_iff hreads hlogs hrange.collects a).mpr
    htouched
  rcases List.mem_map.mp ((hrange.keys a).mpr hin) with ⟨⟨b, r⟩, hrow, rfl⟩
  have hzero : r.isZero = false := by
    rw [← answered_balances hreads (hrange.answered b r hrow)] at hvalue
    by_contra hr
    rw [(Reading.isZero_iff r).mp (eq_true_of_ne_false hr)] at hvalue
    cases hvalue
  rcases (applyReadings_get happlied hrange.nodup b).1 r hrow with
    ⟨map, map', applied, hbefore, happly, hafter⟩
  rcases BalanceMap.apply_stamp happly hzero token with
    ⟨stamp, hnew, hstamp⟩
  rcases hrange.collects.stamps with ⟨owner, howner, hlast⟩
  refine ⟨stamp, ?_, ?_⟩
  · rw [← hnew, BalanceMap.stamp, BalanceMap.stamp, ← hafter, hs']
    rfl
  · have hold : map.stamp b token = s.map.stamp b token := by
      rw [BalanceMap.stamp, BalanceMap.stamp, hbefore]
    rw [hold] at hstamp
    apply IsLast.remarked _ hstamp
    apply (hlast.last htoken).congr
    intro n
    apply sees_iff hmem
    intro log hlog hsupply n hn
    exact hreads _ _ (howner log hlog hsupply n hn) id _ rfl rfl

/-- A chunk leaves the entry of an address that it does not touch alone. -/
theorem ChunkApplied.get_eq (hreads : X.BacksReads truth)
    (h : ChunkApplied truth (s.map.cursor + 1) hi s s') {a : Address}
    (huntouched : ¬ X.feed.TouchedIn a s.map.cursor hi) :
    s'.map.get a = s.map.get a := by
  rcases h with ⟨logs, stats, addrs, touched, rows, s₁, hlogs, hrange, hs', -⟩
  rcases hrange.applied with ⟨out, happlied, -, -⟩
  have hnot : a ∉ rows.map Prod.fst := by
    rw [hrange.keys a, collects_iff hreads hlogs hrange.collects a]
    exact huntouched
  rw [← (applyReadings_get happlied hrange.nodup a).2 hnot, hs']
  rfl

/-- The stamps of an address are the marks of its sightings. -/
theorem Chunked.marked {map map' : BalanceMap} {ends : List ℕ}
    (hreads : X.BacksReads truth) (h : Chunked truth map ends map')
    (a : Address) (htoken : token ∈ TOKENS) :
    Marked X.feed (X.sightings token) blank a block32 0 map.cursor
      (map.stamp a token) ends map'.cursor (map'.stamp a token) := by
  induction h with
  | nil map => exact .nil _ _
  | @cons hi s s₁ ends map' happlied hrest ih =>
      have href := (happlied.refreshed hreads).1
      have hcursor : s₁.map.cursor = hi := href.cursor
      rw [hcursor] at ih
      apply Marked.cons href.lt _ (happlied.stamps hreads a htoken) _ ih
      · intro htouched hblank
        have hholding : s₁.map.holding a = none := by
          have hread := href.touched a htouched
          rwa [stored, if_pos hblank] at hread
        exact BalanceMap.stamp_eq_none.mpr
          (BalanceMap.holding_eq_none.mp hholding)
      · intro huntouched
        rw [BalanceMap.stamp, BalanceMap.stamp,
          happlied.get_eq hreads huntouched]

end Chunk

/-! ## A segment from any cursor -/

section Segment

variable {truth : (q : Request) → Answer q → Prop} {map map' : BalanceMap}
    {lo hi toBlock lo' : ℕ} {s s' : Process} {cfg : FollowConfig}

/-- The map with another cursor. -/
def BalanceMap.movedTo (map : BalanceMap) (cursor : ℕ) : BalanceMap :=
  { map with cursor := cursor }

theorem BalanceMap.apply_movedTo {a : Address} {r : Reading} {seen : Touch}
    {applied : Applied} (h : map.apply a r seen = some (applied, map'))
    (cursor : ℕ) :
    (map.movedTo cursor).apply a r seen =
      some (applied, map'.movedTo cursor) := by
  have hget : (map.movedTo cursor).get a = map.get a := rfl
  unfold BalanceMap.apply at h ⊢
  rw [hget]
  cases hentry : map.get a with
  | some e =>
      simp only [hentry, Option.bind_eq_bind, Option.bind_eq_some_iff,
        Prod.exists] at h ⊢
      rcases h with ⟨outcome, e', he', h⟩
      refine ⟨outcome, e', he', ?_⟩
      split at h
      · rename_i hzero
        cases h
        rw [if_pos hzero]
        rfl
      · rename_i hzero
        cases h
        rw [if_neg hzero]
        rfl
  | none =>
      simp only [hentry] at h ⊢
      split at h
      · rename_i hzero
        cases h
        rw [if_pos hzero]
      · rename_i hzero
        simp only [BalanceMap.insertNew, Option.bind_eq_bind,
          Option.bind_eq_some_iff] at h
        rcases h with ⟨e, he, h⟩
        cases h
        rw [if_neg hzero, BalanceMap.insertNew, he]
        rfl

theorem applyReadings_movedTo {touched : HashMap Address Touch}
    {rows : List (Address × Reading)} {out out' : ApplyOutputs}
    (h : applyReadings touched rows (map, out) = some (map', out'))
    (cursor : ℕ) :
    applyReadings touched rows (map.movedTo cursor, out) =
      some (map'.movedTo cursor, out') := by
  induction rows generalizing map out with
  | nil =>
      simp only [applyReadings, Option.some.injEq, Prod.mk.injEq] at h ⊢
      exact ⟨by rw [h.1], h.2⟩
  | cons row rest ih =>
      simp only [applyReadings, Option.bind_eq_bind,
        Option.bind_eq_some_iff] at h ⊢
      rcases h with ⟨⟨map₁, out₁⟩, hrow, hrest⟩
      simp only [applyReading, Option.bind_eq_bind, Option.bind_eq_some_iff,
        Prod.exists] at hrow
      rcases hrow with ⟨applied, map₂, happly, hrow⟩
      cases hrow
      refine ⟨_, ?_, ih hrest⟩
      rw [applyReading, BalanceMap.apply_movedTo happly cursor]
      rfl

def Process.movedTo (s : Process) (cursor : ℕ) : Process :=
  { s with map := s.map.movedTo cursor }

/-- A chunk does not look at the cursor. -/
theorem ChunkApplied.movedTo (h : ChunkApplied truth lo hi s s')
    (cursor : ℕ) : ChunkApplied truth lo hi (s.movedTo cursor) s' := by
  rcases h with ⟨logs, stats, addrs, touched, rows, s₁, hlogs, hrange, hs',
    hsaved⟩
  rcases hrange.applied with ⟨out, happlied, hstats, hs₁⟩
  refine ⟨logs, stats, addrs, touched, rows, s₁.movedTo cursor, hlogs, ?_, ?_,
    hsaved⟩
  · constructor
    · exact hrange.collects
    · exact hrange.order
    · exact hrange.keys
    · exact hrange.nodup
    · exact hrange.answered
    · refine ⟨out, applyReadings_movedTo happlied cursor, hstats, ?_⟩
      rw [hs₁]
      rfl
  · rw [hs']
    rfl

theorem Chunks.movedTo (h : Chunks truth cfg toBlock lo s lo' s')
    (hlo : lo ≤ toBlock) (hend : toBlock < lo') (cursor : ℕ) :
    Chunks truth cfg toBlock lo (s.movedTo cursor) lo' s' := by
  cases h with
  | nil => exact absurd hend (Nat.not_lt.mpr hlo)
  | cons hlo hhi hchunk hrest =>
      exact .cons hlo hhi (hchunk.movedTo cursor) hrest

/-- A sync of a segment is chunks from its first block to its last, wherever
the cursor was. -/
theorem meets_syncInto_movedTo {ω : Type} {env : Environment Request Answer ω}
    {world : ω} {before : ℕ} (hkeeps : env.Keeps truth)
    (hranged : Ranged truth) (hlt : before < toBlock) :
    Meets env (syncInto cfg (before + 1) toBlock) world s
      (fun _ _ s' => s'.map.cursor = toBlock ∧
        ∃ ends, Chunked truth (s.map.movedTo before) ends s'.map)
      (fun _ _ _ => True) := by
  apply meets_mono (meets_syncInto hkeeps (Nat.succ_le_of_lt hlt))
  · intro final _ s' hdone
    rcases hdone with ⟨lo', s₁, hend, hchunks, rfl⟩
    have hmoved := hchunks.movedTo (Nat.succ_le_of_lt hlt) hend before
    exact Chunks.completed (s := s.movedTo before) hranged hlt hmoved hend
  · intro final failure s' _
    trivial

end Segment

/-! ## Two cuts -/

/-- The address has no balances at the end of some chunk, and is not seen in
the token after it. -/
def Chain.Loses (X : Chain) (a token : Address) (ends : List ℕ)
    (toBlock : ℕ) : Prop :=
  Forgotten X.feed (X.sightings token) blank a ends toBlock

/-- The entry of the map, if there is one, is not zero and has the balances of
the block. -/
def BalanceMap.HoldsAt (X : Chain) (map : BalanceMap) (block : ℕ)
    (a : Address) : Prop :=
  ∀ e, map.get a = some e →
    e.isZero = false ∧ e.reading.balances = X.balances a block

theorem block32_ne_zero {b : ℕ} (hb : 0 < b) : block32 b ≠ some 0 := by
  unfold block32
  split
  · rename_i hlt
    intro heq
    have hnat : (BitVec.ofNat 32 b).toNat = (0 : U32).toNat :=
      congrArg BitVec.toNat (Option.some.inj heq)
    rw [BitVec.toNat_ofNat, Nat.mod_eq_of_lt hlt] at hnat
    simp at hnat
    omega
  · intro heq
    cases heq

theorem BalanceMap.HoldsAt.live {X : Chain} {map : BalanceMap} {block : ℕ}
    {a token : Address} (h : map.HoldsAt X block a)
    (hstamp : map.stamp a token ≠ none) : blank (X.balances a block) = false := by
  have hheld : map.get a ≠ none := by
    intro hnone
    exact hstamp (BalanceMap.stamp_eq_none.mpr hnone)
  rcases Option.ne_none_iff_exists'.mp hheld with ⟨e, he⟩
  rcases h e he with ⟨hzero, hbalances⟩
  rw [← hbalances]
  by_contra hblank
  rw [← Entry.reading_isZero] at hzero
  have hpair : e.reading.balances = (0, 0) := by
    simpa [blank] using hblank
  rw [(Reading.isZero_iff e.reading).mpr hpair] at hzero
  cases hzero

/-- Two cuts of a segment leave the same balances at an address, and the same
entry exactly when, for each token that has a stamp to lose, both lose it or
neither does. -/
theorem BalanceMap.HoldsAt.agree_iff {X : Chain} {map map₁ map₂ : BalanceMap}
    {ends₁ ends₂ : List ℕ} {toBlock : ℕ} {a : Address}
    (hheld : map.HoldsAt X map.cursor a) (hquiet : X.feed.QuietAt a)
    (h₁ : Chunked X.Tells map ends₁ map₁) (hto₁ : map₁.cursor = toBlock)
    (h₂ : Chunked X.Tells map ends₂ map₂) (hto₂ : map₂.cursor = toBlock) :
    map₁.holding a = map₂.holding a ∧
      (map₁.get a = map₂.get a ↔ ∀ token ∈ TOKENS,
        (map.stamp a token).getD 0 ≠ 0 ∨
            (X.sightings token).TouchedIn a map.cursor toBlock →
          (X.Loses a token ends₁ toBlock ↔ X.Loses a token ends₂ toBlock)) := by
  have hreads := X.backsReads_tells
  have hsampled₁ := h₁.sampled hreads a
  have hsampled₂ := h₂.sampled hreads a
  rw [hto₁] at hsampled₁
  rw [hto₂] at hsampled₂
  have hholding : map₁.holding a = map₂.holding a := by
    by_cases htouched : X.feed.TouchedIn a map.cursor toBlock
    · rw [hsampled₁.current hquiet htouched, hsampled₂.current hquiet htouched]
    · rw [hsampled₁.kept htouched, hsampled₂.kept htouched]
  refine ⟨hholding, ?_⟩
  rw [BalanceMap.get_eq_iff hholding]
  apply forall₂_congr
  intro token htoken
  have hmarked₁ := h₁.marked hreads a htoken
  have hmarked₂ := h₂.marked hreads a htoken
  rw [hto₁] at hmarked₁
  rw [hto₂] at hmarked₂
  apply hmarked₁.agree_iff (fun n => Chain.sightings_touches) hquiet hheld.live
    (fun n hn => block32_ne_zero (Nat.zero_lt_of_lt hn)) hmarked₂
  rw [BalanceMap.stamp_eq_none, BalanceMap.stamp_eq_none,
    ← BalanceMap.holding_eq_none, ← BalanceMap.holding_eq_none, hholding]

/-- Two syncs of a segment from one map leave the same addresses with the same
balances, and the same stamps exactly as far as both lose them or neither
does. -/
theorem cuts_agree_iff {X : Chain} {before toBlock : ℕ} {map : BalanceMap}
    {ω₁ ω₂ : Type} {env₁ : Environment Request Answer ω₁}
    {env₂ : Environment Request Answer ω₂} {world₁ final₁ : ω₁}
    {world₂ final₂ : ω₂} {cfg₁ cfg₂ : FollowConfig} {s₁ s₂ s₁' s₂' : Process}
    (hlt : before < toBlock) (hfaithful₁ : env₁.Keeps X.Tells)
    (hfaithful₂ : env₂.Keeps X.Tells) (hmap₁ : s₁.map = map)
    (hmap₂ : s₂.map = map)
    (hrun₁ : (syncInto cfg₁ (before + 1) toBlock).Runs env₁ world₁ s₁ final₁
      (.ok ()) s₁')
    (hrun₂ : (syncInto cfg₂ (before + 1) toBlock).Runs env₂ world₂ s₂ final₂
      (.ok ()) s₂') :
    ∃ ends₁ ends₂, Chunked X.Tells (map.movedTo before) ends₁ s₁'.map ∧
      Chunked X.Tells (map.movedTo before) ends₂ s₂'.map ∧
      s₁'.map.cursor = s₂'.map.cursor ∧
      ∀ a, X.feed.QuietAt a → map.HoldsAt X before a →
        s₁'.map.holding a = s₂'.map.holding a ∧
          (s₁'.map.get a = s₂'.map.get a ↔ ∀ token ∈ TOKENS,
            (map.stamp a token).getD 0 ≠ 0 ∨
                (X.sightings token).TouchedIn a before toBlock →
              (X.Loses a token ends₁ toBlock ↔
                X.Loses a token ends₂ toBlock)) := by
  have hranged := X.backsReads_tells.ranged
  rcases (meets_syncInto_movedTo hfaithful₁ hranged hlt).of_ok hrun₁ with
    ⟨hto₁, ends₁, hcut₁⟩
  rcases (meets_syncInto_movedTo hfaithful₂ hranged hlt).of_ok hrun₂ with
    ⟨hto₂, ends₂, hcut₂⟩
  rw [hmap₁] at hcut₁
  rw [hmap₂] at hcut₂
  refine ⟨ends₁, ends₂, hcut₁, hcut₂, hto₁.trans hto₂.symm, ?_⟩
  intro a hquiet hheld
  have hmoved : (map.movedTo before).HoldsAt X (map.movedTo before).cursor a :=
    hheld
  exact hmoved.agree_iff hquiet hcut₁ hto₁ hcut₂ hto₂

/-- Two syncs of a segment leave the same map. -/
def CutsAgree (X : Chain) (env : Environment Request Answer Unit) : Prop :=
  ∀ (before toBlock : ℕ) (cfg₁ cfg₂ : FollowConfig) (s s₁ s₂ : Process),
    before < toBlock → (∀ a, X.feed.QuietAt a) →
    (∀ a, s.map.HoldsAt X before a) →
    (syncInto cfg₁ (before + 1) toBlock).Runs env () s () (.ok ()) s₁ →
    (syncInto cfg₂ (before + 1) toBlock).Runs env () s () (.ok ()) s₂ →
    ∀ a, s₁.map.get a = s₂.map.get a

namespace Refunded

def holder : Address :=
  FixedBytes.filled 20 0xaa

/-- The holder receives 3 USDC in block 1, spends them in block 2, and receives
4 USDT in block 3. -/
def chain : Chain where
  logs b :=
    if b = 1 ∨ b = 2 then [{ Chain.transferOf holder b with address := USDC }]
    else if b = 3 then [Chain.transferOf holder b]
    else []
  owner _ := USDT
  balance token a b :=
    if a ≠ holder then 0
    else if token = USDC ∧ b = 1 then 3
    else if token = USDT ∧ 3 ≤ b then 4
    else 0
  hash := word
  numbered b log hlog := by
    split at hlog
    · rw [List.mem_singleton.mp hlog]
      rfl
    · split at hlog
      · rw [List.mem_singleton.mp hlog]
        rfl
      · cases hlog

def config (chunk : ℕ) : FollowConfig :=
  ⟨chunk, 600, .finalized, 64, .wrapping⟩

def start : Process :=
  { Process.launched (BalanceMap.new 0) with saved := none }

def finish (chunk : ℕ) : (Except Failure Unit × Process) × Unit :=
  (syncInto (config chunk) 1 3).exec (chain.respond 3 5) () start

theorem balance_lt (token a : Address) (b : ℕ) :
    chain.balance token a b < 2 ^ 256 := by
  apply small_lt
  unfold chain
  dsimp only
  split
  · decide
  · split
    · decide
    · split
      · decide
      · decide

theorem touches {b : ℕ} (hpos : 1 ≤ b) (hle : b ≤ 3) :
    chain.feed.touched b holder := by
  have hnamed : ∀ b ∈ [1, 2, 3], ∃ log ∈ chain.watched b,
      holder ∈ namedBy log := by
    decide +kernel
  have hmem : b ∈ [1, 2, 3] := by
    simp only [List.mem_cons, List.not_mem_nil, or_false]
    omega
  exact .inl (hnamed b hmem)

theorem quietAt (a : Address) : chain.feed.QuietAt a := by
  intro n huntouched
  show chain.balances a (n + 1) = chain.balances a n
  unfold Chain.balances chain
  by_cases ha : a = holder
  · have hlate : 3 ≤ n := by
      by_contra hearly
      rw [ha] at huntouched
      exact huntouched (touches (by omega) (by omega))
    have hn : n ≠ 1 := by omega
    have hn' : n ≠ 0 := by omega
    have hle : 3 ≤ n + 1 := by omega
    simp [ha, hn, hn', hlate, hle]
  · simp [ha]

theorem start_holdsAt (a : Address) : start.map.HoldsAt chain 0 a := by
  intro e he
  cases he

theorem finish_ok {chunk : ℕ} (h : chunk = 1 ∨ chunk = 3) :
    (finish chunk).1.1 = .ok () := by
  rcases h with rfl | rfl
  · decide +kernel
  · decide +kernel

theorem finish_stamps :
    (finish 1).1.2.map.get holder = some ⟨4, 3, 0, 0⟩ ∧
      (finish 3).1.2.map.get holder = some ⟨4, 3, 0, 2⟩ := by
  decide +kernel

theorem finish_differ :
    (finish 1).1.2.map.get holder ≠ (finish 3).1.2.map.get holder := by
  rw [finish_stamps.1, finish_stamps.2]
  decide

theorem finish_runs {chunk : ℕ} (h : chunk = 1 ∨ chunk = 3) :
    (syncInto (config chunk) 1 3).Runs (Environment.of (chain.Says 3)) () start
      () (.ok ()) (finish chunk).1.2 :=
  chain.runs_exec (syncInto (config chunk) 1 3) start balance_lt (finish_ok h)

/-- One cut loses a stamp of the holder that the other keeps. -/
theorem cuts_agree_iff_refunded :
    ∃ ends₁ ends₂,
      Chunked chain.Tells (start.map.movedTo 0) ends₁ (finish 1).1.2.map ∧
      Chunked chain.Tells (start.map.movedTo 0) ends₂ (finish 3).1.2.map ∧
      ∃ token ∈ TOKENS, ¬ (chain.Loses holder token ends₁ 3 ↔
        chain.Loses holder token ends₂ 3) := by
  rcases cuts_agree_iff (by decide) (chain.keeps_tells 3)
      (chain.keeps_tells 3) rfl rfl (finish_runs (.inl rfl)) (finish_runs (.inr rfl)) with
    ⟨ends₁, ends₂, hcut₁, hcut₂, -, hagree⟩
  refine ⟨ends₁, ends₂, hcut₁, hcut₂, ?_⟩
  by_contra hnone
  push Not at hnone
  apply finish_differ
  apply (hagree holder (quietAt holder) (start_holdsAt holder)).2.mpr
  intro token htoken _
  exact hnone token htoken

/-- With chunks of one block the entry is dropped after block 2, and comes back
without the block of its last USDC transfer. -/
theorem chunks_forget_stamp :
    ¬ CutsAgree chain (Environment.of (chain.Says 3)) := by
  intro h
  apply finish_differ
  exact h 0 3 (config 1) (config 3) start _ _ (by decide) quietAt start_holdsAt
    (finish_runs (.inl rfl)) (finish_runs (.inr rfl)) holder

end Refunded

end UsdtPir
