import Mathlib.Data.List.TakeWhile
import UsdtPir.FeedFollower
import UsdtPir.PassOutcomes

/-!
# A chain, and a provider that tells the truth about it

A chain fixes the logs, the owner, the balances and the hash of every block.
`Chain.Says` is what a faithful provider may answer: any call may fail, but a
reply that is given is true.  Against such a provider a chunk refreshes a view
of the chain and a repair rewinds it, in the sense of `FeedFollower`.
-/

namespace UsdtPir

open Interaction
open Program
open Following

def Filter.selects (f : Filter) (log : Log) : Bool :=
  log.address ∈ f.address && log.topics.head?.any (· ∈ f.eventSignature)

/-- One version of the chain, block by block.  `balance` takes the token, the
holder and the block at whose end it is read. -/
structure Chain where
  logs : ℕ → List Log
  owner : ℕ → Address
  balance : Address → Address → ℕ → ℕ
  hash : ℕ → B256
  numbered : ∀ b, ∀ log ∈ logs b, log.blockNumber = some b

def Request.AsksHash : Request → Prop
  | .blockByNumber _ => True
  | _ => False

namespace Chain

variable (X : Chain)

/-- The logs of a block that the service watches. -/
def watched (b : ℕ) : List Log :=
  (X.logs b).filter (filter b b).selects

def balances (a : Address) (b : ℕ) : Balances :=
  (X.balance USDT a b, X.balance USDC a b)

/-- A watched log of block `b` names `a`, or `a` owns USDT at the end of a
block with a supply event. -/
def Touches (b : ℕ) (a : Address) : Prop :=
  (∃ log ∈ X.watched b, a ∈ namedBy log) ∨
    ((∃ log ∈ X.watched b, isSupplyEvent log = true) ∧ X.owner b = a)

/-- The chain as a feed of balances. -/
def feed : Feed Address Balances where
  value := X.balances
  touched := X.Touches

/-- The reply of a balance call. -/
def Replies (block : ℕ) (call : Call3) (result : CallResult) : Prop :=
  ∀ owner, call.callData = balanceOfCall owner →
    result.success = true ∧ result.returnData.length = 32 ∧
      fromBigEndian result.returnData = X.balance call.target owner block

/-- What a faithful provider may answer about the blocks of the chain. -/
def Tells : (q : Request) → Answer q → Prop
  | .getLogs f => fun answer => ∀ logs, answer = Except.ok logs →
      f.fromBlock ≤ f.toBlock ∧ f.toBlock + 1 < 2 ^ 64 ∧
        ∀ log, log ∈ logs ↔ ∃ b, f.fromBlock ≤ b ∧ b ≤ f.toBlock ∧
          log ∈ X.logs b ∧ f.selects log = true
  | .owner contract block => fun answer => ∀ a, answer = Except.ok a →
      contract = USDT → a = X.owner block
  | .aggregate3 contract calls block => fun answer =>
      ∀ results, answer = Except.ok results → contract = MULTICALL3 →
        List.Forall₂ (X.Replies block) calls results
  | .blockByNumber n => fun answer =>
      ∀ b, answer = Except.ok (some b) → b.number = n ∧ b.hash = X.hash n
  | _ => fun _ => True

/-- Whatever may be answered is true of the chain. -/
def Backs (truth : (q : Request) → Answer q → Prop) : Prop :=
  ∀ q answer, truth q answer → X.Tells q answer

/-- Whatever may be answered is true of the chain, block hashes apart. -/
def BacksReads (truth : (q : Request) → Answer q → Prop) : Prop :=
  ∀ q answer, truth q answer → ¬ q.AsksHash → X.Tells q answer

/-- What a faithful provider may answer while its chain has `head` blocks. -/
def InView (head : ℕ) : (q : Request) → Answer q → Prop
  | .blockByNumber n => fun answer => ∀ block, answer = Except.ok block →
      (block = none ↔ head < n)
  | .finalizedBlock => fun answer =>
      ∀ b, answer = Except.ok (some b) → b.number ≤ head
  | .blockNumber => fun answer => ∀ n, answer = Except.ok n → n = head
  | _ => fun _ => True

/-- A faithful provider of a chain with `head` blocks.  Any call may fail. -/
def Says (head : ℕ) (q : Request) (answer : Answer q) : Prop :=
  X.Tells q answer ∧ InView head q answer

theorem backs_says (head : ℕ) : X.Backs (X.Says head) :=
  fun _ _ h => h.1

variable {X} in
theorem Backs.reads {truth : (q : Request) → Answer q → Prop}
    (h : X.Backs truth) : X.BacksReads truth :=
  fun q answer hanswer _ => h q answer hanswer

end Chain

/-! ## Readings -/

theorem Reading.kept_eq (r : Reading) : r.kept = stored blank r.balances := by
  unfold Reading.kept stored
  cases hzero : r.isZero with
  | true =>
      rw [Reading.isZero_iff] at hzero
      simp [blank, hzero]
  | false =>
      have hne : r.balances ≠ (0, 0) := by
        intro heq
        rw [← Reading.isZero_iff, hzero] at heq
        cases heq
      simp [blank, hne]

theorem decodeBalance_eq_ok {r : CallResult} {v : U128} {n : ℕ}
    (h : decodeBalance r = .ok v) (hsuccess : r.success = true)
    (hvalue : fromBigEndian r.returnData = n) : v.toNat = n := by
  unfold decodeBalance at h
  simp only [hsuccess, Bool.not_true, Bool.false_eq_true, if_false] at h
  split at h
  · cases h
  · split at h
    · rename_i hlt
      have hv : BitVec.ofNat 128 (fromBigEndian r.returnData) = v :=
        Except.ok.inj h
      rw [← hv, BitVec.toNat_ofNat, Nat.mod_eq_of_lt hlt, hvalue]
    · cases h

section Provider

variable {X : Chain} {truth : (q : Request) → Answer q → Prop}

theorem replies_of_forall₂ {block : ℕ} {chunk : List Address}
    {results : List CallResult}
    (h : List.Forall₂ (X.Replies block) (balanceCalls chunk) results)
    {a : Address} {replies : CallResult × CallResult}
    (hrow : (a, replies) ∈ chunk.zip (pairs results)) :
    X.Replies block ⟨USDT, true, balanceOfCall a⟩ replies.1 ∧
      X.Replies block ⟨USDC, true, balanceOfCall a⟩ replies.2 := by
  induction chunk generalizing results with
  | nil => simp at hrow
  | cons owner rest ih =>
      have hcalls : balanceCalls (owner :: rest) =
          ⟨USDT, true, balanceOfCall owner⟩ ::
            ⟨USDC, true, balanceOfCall owner⟩ :: balanceCalls rest :=
        rfl
      rw [hcalls] at h
      cases h with
      | cons husdt h =>
          cases h with
          | cons husdc h =>
              rw [pairs, List.zip_cons_cons, List.mem_cons] at hrow
              rcases hrow with heq | hrow
              · cases heq
                exact ⟨husdt, husdc⟩
              · exact ih h hrow

/-- A reading decoded from true replies is the pair of balances. -/
theorem answered_balances (hreads : X.BacksReads truth)
    {block : ℕ} {a : Address} {r : Reading} (h : Answered truth block a r) :
    r.balances = X.balances a block := by
  obtain ⟨chunk, results, replies, hanswer, -, hrow, husdt, husdc⟩ := h
  obtain ⟨hreply, hreply'⟩ :=
    replies_of_forall₂ (hreads _ _ hanswer id results rfl rfl) hrow
  obtain ⟨hsuccess, -, hvalue⟩ := hreply a rfl
  obtain ⟨hsuccess', -, hvalue'⟩ := hreply' a rfl
  unfold Reading.balances Chain.balances
  rw [decodeBalance_eq_ok husdt hsuccess hvalue,
    decodeBalance_eq_ok husdc hsuccess' hvalue']

theorem tells_getLogs {lo hi : ℕ} {logs : List Log}
    (h : X.Tells (.getLogs (filter lo hi))
      (Except.ok logs : Except RpcError (List Log))) :
    lo ≤ hi ∧ hi + 1 < 2 ^ 64 ∧
      ∀ log, log ∈ logs ↔ ∃ b, lo ≤ b ∧ b ≤ hi ∧ log ∈ X.watched b := by
  obtain ⟨hle, hlt, hmem⟩ := h logs rfl
  refine ⟨hle, hlt, fun log => ?_⟩
  rw [hmem]
  simp only [Chain.watched, List.mem_filter]
  rfl

/-- An address the chain touches is found, as long as the owners of the supply
blocks are its own. -/
theorem mem_of_touches {logs : List Log} {touched : HashMap Address Touch}
    {a : Address} {b : ℕ} (h : Collects truth logs touched)
    (hlogs : ∀ log ∈ X.watched b, log ∈ logs)
    (howners : ∀ owner, truth (.owner USDT b)
      (Except.ok owner : Except RpcError Address) → owner = X.owner b)
    (htouches : X.Touches b a) : a ∈ touched := by
  rcases htouches with ⟨log, hlog, hnamed⟩ | ⟨⟨log, hlog, hsupply⟩, howner⟩
  · exact h.named log (hlogs log hlog) a hnamed
  · have hblock := X.numbered b log (List.mem_of_mem_filter hlog)
    obtain ⟨owner, hin, hanswer⟩ := h.owners log (hlogs log hlog) hsupply b hblock
    rw [← howner, ← howners owner hanswer]
    exact hin

/-- The touched set of a range is what the chain touches in it. -/
theorem collects_iff {lo hi : ℕ} {logs : List Log}
    {touched : HashMap Address Touch} (hreads : X.BacksReads truth)
    (hlogs : truth (.getLogs (filter lo hi))
      (Except.ok logs : Except RpcError (List Log)))
    (h : Collects truth logs touched) (a : Address) :
    a ∈ touched ↔ ∃ b, lo ≤ b ∧ b ≤ hi ∧ X.Touches b a := by
  obtain ⟨-, -, hmem⟩ := tells_getLogs (hreads _ _ hlogs id)
  constructor
  · intro ha
    rcases h.only a ha with ⟨log, hlog, hnamed⟩ |
      ⟨log, hlog, block, hsupply, hblock, howner⟩
    · obtain ⟨b, hlo, hhi, hwatched⟩ := (hmem log).mp hlog
      exact ⟨b, hlo, hhi, .inl ⟨log, hwatched, hnamed⟩⟩
    · obtain ⟨b, hlo, hhi, hwatched⟩ := (hmem log).mp hlog
      have hnumber := X.numbered b log (List.mem_of_mem_filter hwatched)
      have hb : b = block := by
        rw [hnumber] at hblock
        exact Option.some.inj hblock
      subst hb
      exact ⟨b, hlo, hhi, .inr ⟨⟨log, hwatched, hsupply⟩,
        (hreads _ _ howner id a rfl rfl).symm⟩⟩
  · rintro ⟨b, hlo, hhi, htouches⟩
    refine mem_of_touches h ?_ ?_ htouches
    · intro log hlog
      exact (hmem log).mpr ⟨b, hlo, hhi, hlog⟩
    · intro owner hanswer
      exact hreads _ _ hanswer id owner rfl rfl

/-! ## The process as a follower of the chain -/

/-- The part of a process that follows the chain. -/
def Process.follower (s : Process) : Follower Address Balances where
  view := s.map.holding
  cursor := s.map.cursor
  recent := s.watch.recent

theorem recent_record (watch : ChainWatch) (through : ℕ)
    (addrs : List Address) :
    (watch.record through addrs).recent =
      if addrs = [] then watch.recent else watch.recent ++ [(through, addrs)] := by
  unfold ChainWatch.record
  split <;> rfl

/-- What a chunk does to the view, whatever the provider is like: the touched
addresses get what was read for them and are remembered. -/
structure Folded (truth : (q : Request) → Answer q → Prop) (lo hi : ℕ)
    (logs : List Log) (touched : HashMap Address Touch)
    (s s' : Process) : Prop where
  answered : truth (.getLogs (filter lo hi))
    (Except.ok logs : Except RpcError (List Log))
  collects : Collects truth logs touched
  cursor : s'.map.cursor = hi
  read : ∀ a ∈ touched, ∃ r, Answered truth hi a r ∧
    s'.map.holding a = r.kept
  other : ∀ a, a ∉ touched → s'.map.holding a = s.map.holding a
  remembered : ∀ a ∈ touched, s'.follower.Remembers a hi
  kept : ∀ a n, s.follower.Remembers a n → s'.follower.Remembers a n
  only : ∀ a, s'.follower.Recalls a → s.follower.Recalls a ∨ a ∈ touched

theorem ChunkApplied.folded {lo hi : ℕ} {s s' : Process}
    (h : ChunkApplied truth lo hi s s') :
    ∃ logs touched, Folded truth lo hi logs touched s s' := by
  have hcursor := h.cursor
  obtain ⟨logs, stats, addrs, touched, rows, s₁, hlogs, hrange, hs', -⟩ := h
  obtain ⟨out, happlied, -, hs₁⟩ := hrange.applied
  have hholding := applyReadings_holding happlied hrange.nodup
  have hview : s'.map.holding = s₁.map.holding := by
    rw [hs']
    rfl
  have hrecent : s'.watch.recent =
      if addrs = [] then s.watch.recent
      else s.watch.recent ++ [(hi, addrs)] := by
    rw [hs', recent_record]
  have haddrs : ∀ a, a ∈ addrs ↔ a ∈ touched := by
    intro a
    rw [hrange.order.mem_iff, AList.mem_keys]
  refine ⟨logs, touched, hlogs, hrange.collects, hcursor, ?_, ?_, ?_, ?_, ?_⟩
  · intro a ha
    obtain ⟨⟨b, r⟩, hrow, rfl⟩ := List.mem_map.mp ((hrange.keys a).mpr ha)
    refine ⟨r, hrange.answered b r hrow, ?_⟩
    rw [hview, (hholding b).1 r hrow]
  · intro a ha
    rw [hview]
    exact (hholding a).2 fun hin => ha ((hrange.keys a).mp hin)
  · intro a ha
    have hin : a ∈ addrs := (haddrs a).mpr ha
    have hne : addrs ≠ [] := List.ne_nil_of_mem hin
    refine ⟨(hi, addrs), ?_, le_rfl, hin⟩
    show _ ∈ s'.watch.recent
    rw [hrecent, if_neg hne]
    simp
  · rintro a n ⟨batch, hbatch, hn, ha⟩
    refine ⟨batch, ?_, hn, ha⟩
    show _ ∈ s'.watch.recent
    rw [hrecent]
    split
    · exact hbatch
    · exact List.mem_append_left _ hbatch
  · rintro a ⟨batch, hbatch, ha⟩
    change batch ∈ s'.watch.recent at hbatch
    rw [hrecent] at hbatch
    split at hbatch
    · exact .inl ⟨batch, hbatch, ha⟩
    · rcases List.mem_append.mp hbatch with hold | hnew
      · exact .inl ⟨batch, hold, ha⟩
      · rw [List.mem_singleton] at hnew
        subst hnew
        exact .inr ((haddrs a).mp ha)

/-- A chunk read from a faithful provider refreshes the view. -/
theorem ChunkApplied.refreshed (hreads : X.BacksReads truth) {hi : ℕ}
    {s s' : Process}
    (h : ChunkApplied truth (s.map.cursor + 1) hi s s') :
    Refreshed X.feed blank hi s.follower s'.follower ∧ hi + 1 < 2 ^ 64 := by
  obtain ⟨logs, touched, hfolded⟩ := h.folded
  obtain ⟨hle, hlt, -⟩ := tells_getLogs (hreads _ _ hfolded.answered id)
  have htouched : ∀ a, a ∈ touched ↔ X.feed.TouchedIn a s.map.cursor hi :=
    fun a => collects_iff hreads hfolded.answered hfolded.collects a
  refine ⟨⟨hle, hfolded.cursor, ?_, ?_, ?_, hfolded.kept, ?_⟩, hlt⟩
  · intro a ha
    obtain ⟨r, hanswered, hread⟩ := hfolded.read a ((htouched a).mpr ha)
    show s'.map.holding a = _
    rw [hread, Reading.kept_eq, answered_balances hreads hanswered]
    rfl
  · intro a ha
    exact hfolded.other a fun hin => ha ((htouched a).mp hin)
  · intro a ha
    exact hfolded.remembered a ((htouched a).mpr ha)
  · intro a ha
    exact (hfolded.only a ha).imp_right (htouched a).mp

theorem applyCorrections_holding {rows : List (Address × Reading)}
    {map map' : BalanceMap} (h : applyCorrections rows map = some map')
    (hnodup : (rows.map Prod.fst).Nodup) (a : Address) :
    (∀ r, (a, r) ∈ rows → map'.holding a = r.kept) ∧
      (a ∉ rows.map Prod.fst → map'.holding a = map.holding a) := by
  induction rows generalizing map with
  | nil =>
      simp only [applyCorrections, Option.some.injEq] at h
      subst h
      simp
  | cons row rest ih =>
      obtain ⟨addr, reading⟩ := row
      simp only [applyCorrections, Option.bind_eq_bind,
        Option.bind_eq_some_iff, Prod.exists] at h
      obtain ⟨applied, middle, happly, hrest⟩ := h
      have hholding := BalanceMap.apply_holding happly a
      rw [List.map_cons, List.nodup_cons] at hnodup
      obtain ⟨hin, hout⟩ := ih hrest hnodup.2
      constructor
      · intro r hr
        rcases List.mem_cons.mp hr with heq | hr
        · cases heq
          rw [hout hnodup.1, hholding, if_pos rfl]
        · exact hin r hr
      · intro hnot
        rw [List.map_cons, List.mem_cons, not_or] at hnot
        rw [hout hnot.2, hholding, if_neg hnot.1]

/-- The address set of the watch holds every remembered address. -/
theorem mem_addressSet {watch : ChainWatch} {a : Address} :
    a ∈ watch.addressSet ↔ ∃ batch ∈ watch.recent, a ∈ batch.2 := by
  have hfold : ∀ (l : List Address) (seen : HashSet Address),
      a ∈ l.foldl (fun seen a => seen.insert a ()) seen ↔ a ∈ l ∨ a ∈ seen := by
    intro l
    induction l with
    | nil => simp
    | cons b rest ih =>
        intro seen
        rw [List.foldl_cons, ih, AList.mem_insert, List.mem_cons]
        tauto
  unfold ChainWatch.addressSet
  rw [hfold, List.mem_flatMap]
  simp

/-- A repair answered by a faithful provider rewinds the view. -/
theorem Repaired.rewound {window : ℕ} {s s' : Process}
    (hreads : X.BacksReads truth) (h : Repaired truth window s s') :
    Rewound X.feed blank (s.map.cursor - window) s.follower s'.follower := by
  obtain ⟨rows, map, hkeys, hnodup, htrue, hmap, rfl⟩ := h
  have hholding := applyCorrections_holding hmap hnodup
  refine ⟨rfl, ?_, ?_, rfl⟩
  · intro a ha
    obtain ⟨⟨b, r⟩, hrow, rfl⟩ := List.mem_map.mp
      ((hkeys a).mpr (mem_addressSet.mpr ha))
    show map.holding b = _
    rw [(hholding b).1 r hrow, Reading.kept_eq,
      answered_balances hreads (htrue b r hrow)]
    rfl
  · intro a ha
    show map.holding a = _
    exact (hholding a).2 fun hin => ha (mem_addressSet.mp ((hkeys a).mp hin))

/-- Trimming the watch forgets only batches that end before the window. -/
theorem trimmed_trim {s s' : Process} {hash : Option B256} {window : ℕ}
    (hmap : s'.map.holding = s.map.holding)
    (hcursor : s'.map.cursor = s.map.cursor)
    (hwatch : s'.watch = ChainWatch.trim { s.watch with cursorHash := hash }
      s.map.cursor window) :
    Trimmed (s.map.cursor - window) s.follower s'.follower := by
  have hrecent : s'.watch.recent = s.watch.recent.dropWhile
      fun batch => batch.1 < s.map.cursor - window := by
    rw [hwatch]
    rfl
  refine ⟨hmap, hcursor, ?_, ?_⟩
  · rintro a n hfloor ⟨batch, hbatch, hn, ha⟩
    refine ⟨batch, ?_, hn, ha⟩
    show batch ∈ s'.watch.recent
    rw [hrecent]
    have hsplit :
        (s.watch.recent.takeWhile fun batch =>
            batch.1 < s.map.cursor - window) ++
          (s.watch.recent.dropWhile fun batch =>
            batch.1 < s.map.cursor - window) = s.watch.recent :=
      List.takeWhile_append_dropWhile
    have hin : batch ∈ s.watch.recent := hbatch
    rw [← hsplit, List.mem_append] at hin
    rcases hin with hdropped | hkept
    · have hlt := List.mem_takeWhile_imp hdropped
      simp only [decide_eq_true_eq] at hlt
      omega
    · exact hkept
  · rintro a ⟨batch, hbatch, ha⟩
    change batch ∈ s'.watch.recent at hbatch
    rw [hrecent] at hbatch
    exact ⟨batch, (List.dropWhile_sublist _).mem hbatch, ha⟩

/-- A provider answers only for ranges that have a first block and end below
the last `u64`. -/
def Ranged (truth : (q : Request) → Answer q → Prop) : Prop :=
  ∀ lo hi logs, truth (.getLogs (filter lo hi))
    (Except.ok logs : Except RpcError (List Log)) → lo ≤ hi ∧ hi + 1 < 2 ^ 64

theorem Chain.BacksReads.ranged (hreads : X.BacksReads truth) : Ranged truth := by
  intro lo hi logs hlogs
  obtain ⟨hle, hlt, -⟩ := tells_getLogs (hreads _ _ hlogs id)
  exact ⟨hle, hlt⟩

theorem ChunkApplied.ranged (hranged : Ranged truth) {lo hi : ℕ}
    {s s' : Process} (h : ChunkApplied truth lo hi s s') :
    lo ≤ hi ∧ hi + 1 < 2 ^ 64 := by
  obtain ⟨logs, touched, hfolded⟩ := h.folded
  exact hranged lo hi logs hfolded.answered

/-- A property that every chunk from the block after the cursor preserves. -/
theorem Chunks.follow {cfg : FollowConfig} {target lo' : ℕ} {s s' : Process}
    {P : Process → Prop} (hranged : Ranged truth)
    (h : Chunks truth cfg target (s.map.cursor + 1) s lo' s') (hs : P s)
    (hstep : ∀ {hi s s'}, hi ≤ target →
      ChunkApplied truth (s.map.cursor + 1) hi s s' → P s → P s') :
    P s' ∧ lo' = s'.map.cursor + 1 := by
  generalize hlo : s.map.cursor + 1 = lo at h
  induction h with
  | nil lo s => exact ⟨hs, hlo.symm⟩
  | cons hle hhi hchunk hrest ih =>
      subst hlo
      have hlt := (hchunk.ranged hranged).2
      apply ih (hstep hhi hchunk hs)
      rw [hchunk.cursor, cfg.word.add_of_lt _ _ hlt]

/-- Chunks stay below the target, and those that end past it reached it. -/
theorem Chunks.cursor_le {cfg : FollowConfig} {target lo' : ℕ}
    {s s' : Process} (hranged : Ranged truth)
    (h : Chunks truth cfg target (s.map.cursor + 1) s lo' s')
    (hlt : s.map.cursor < target) :
    s.map.cursor ≤ s'.map.cursor ∧ s'.map.cursor ≤ target ∧
      (target < lo' → s'.map.cursor = target ∧ target < 2 ^ 64) := by
  have hall := h.follow (P := fun s₁ => s.map.cursor ≤ s₁.map.cursor ∧
      s₁.map.cursor ≤ target ∧
      (s.map.cursor < s₁.map.cursor → s₁.map.cursor < 2 ^ 64))
    hranged ⟨le_rfl, hlt.le, fun hself => absurd hself (lt_irrefl _)⟩
    (by
      intro hi s₁ s₂ hhi hchunk hbefore
      obtain ⟨hstep, hbound⟩ := hchunk.ranged hranged
      have hle : s.map.cursor ≤ s₁.map.cursor := hbefore.1
      rw [hchunk.cursor]
      exact ⟨by omega, hhi, fun _ => by omega⟩)
  obtain ⟨⟨hle, hto, hbound⟩, hlo⟩ := hall
  refine ⟨hle, hto, fun hend => ?_⟩
  have hreached : s'.map.cursor = target := by omega
  rw [hreached] at hbound
  exact ⟨hreached, hbound hlt⟩

end Provider

end UsdtPir
