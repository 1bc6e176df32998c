import UsdtPir.GrowingChain

/-!
# A provider that can be run

A respondent that answers every call from a chain, and a way to sketch small
chains: in each block some addresses are touched by a USDT transfer, and the
balances are given outright.
-/

namespace UsdtPir

open Interaction

/-- The `k` low bytes of `n`, most significant first. -/
def toBigEndian : ℕ → ℕ → List UInt8
  | 0, _ => []
  | k + 1, n => toBigEndian k (n / 256) ++ [UInt8.ofNat (n % 256)]

theorem length_toBigEndian (k n : ℕ) : (toBigEndian k n).length = k := by
  induction k generalizing n with
  | zero => rfl
  | succ k ih => simp [toBigEndian, ih]

theorem fromBigEndian_toBigEndian {k n : ℕ} (hlt : n < 256 ^ k) :
    fromBigEndian (toBigEndian k n) = n := by
  induction k generalizing n with
  | zero =>
      have hzero : n = 0 := by simpa using hlt
      simp [hzero, toBigEndian, fromBigEndian]
  | succ k ih =>
      have hdiv : n / 256 < 256 ^ k := by
        rw [Nat.div_lt_iff_lt_mul (by decide), ← Nat.pow_succ]
        exact hlt
      have hbyte : (UInt8.ofNat (n % 256)).toNat = n % 256 := by
        simp
      have happend : fromBigEndian
          (toBigEndian k (n / 256) ++ [UInt8.ofNat (n % 256)]) =
          fromBigEndian (toBigEndian k (n / 256)) * 256 +
            (UInt8.ofNat (n % 256)).toNat := by
        simp [fromBigEndian, List.foldl_append]
      rw [toBigEndian, happend, ih hdiv, hbyte]
      omega

/-- A 32-byte word holding `n`. -/
def word (n : ℕ) : B256 :=
  ⟨toBigEndian 32 n, length_toBigEndian 32 n⟩

theorem word_injective {m n : ℕ} (hm : m < 256 ^ 32) (hn : n < 256 ^ 32)
    (h : word m = word n) : m = n := by
  have hbytes : toBigEndian 32 m = toBigEndian 32 n := by
    simpa only [word, FixedBytes.mk.injEq] using h
  calc
    m = fromBigEndian (toBigEndian 32 m) := (fromBigEndian_toBigEndian hm).symm
    _ = fromBigEndian (toBigEndian 32 n) := by rw [hbytes]
    _ = n := fromBigEndian_toBigEndian hn

/-! ## The respondent -/

/-- The address in the call data of `balanceOf`. -/
def ownerOfCall (callData : List UInt8) : Option Address :=
  if h : (callData.drop 16).length = 20 then some ⟨callData.drop 16, h⟩
  else none

theorem ownerOfCall_balanceOfCall (owner : Address) :
    ownerOfCall (balanceOfCall owner) = some owner := by
  have hdrop : (balanceOfCall owner).drop 16 = owner.bytes := by
    unfold balanceOfCall
    rw [List.drop_left' (by simp)]
  unfold ownerOfCall
  rw [dif_pos (by rw [hdrop, owner.length_eq])]
  exact congrArg some (FixedBytes.ext hdrop)

namespace Chain

variable (X : Chain)

def reply (block : ℕ) (call : Call3) : CallResult :=
  match ownerOfCall call.callData with
  | some owner => ⟨true, toBigEndian 32 (X.balance call.target owner block)⟩
  | none => ⟨false, []⟩

def logsIn (f : Filter) : List Log :=
  (List.range' f.fromBlock (f.toBlock + 1 - f.fromBlock)).flatMap fun b =>
    (X.logs b).filter f.selects

/-- Answer every call from the chain.  The disk and the channel work, the
clocks stand still and the process lives for `lifetime` chunks. -/
def respond (head lifetime : ℕ) : Unit → (q : Request) → Answer q × Unit
  | _, .chainId => (Except.ok 1, ())
  | _, .getLogs f =>
      if f.fromBlock ≤ f.toBlock ∧ f.toBlock + 1 < 2 ^ 64 then
        (Except.ok (X.logsIn f), ())
      else
        (Except.error ⟨"invalid params"⟩, ())
  | _, .owner _ block => (Except.ok (X.owner block), ())
  | _, .aggregate3 _ calls block =>
      (Except.ok (calls.map (X.reply block)), ())
  | _, .blockByNumber n =>
      (Except.ok (if n ≤ head then some ⟨n, X.hash n⟩ else none), ())
  | _, .finalizedBlock => (Except.ok (some ⟨head, X.hash head⟩), ())
  | _, .blockNumber => (Except.ok head, ())
  | _, .iterate keys => (⟨keys, List.Perm.refl keys⟩, ())
  | _, .instantNow => ((0 : ℕ), ())
  | _, .unixNow => ((0 : ℕ), ())
  | _, .lifetime => (lifetime, ())
  | _, .save _ => (Except.ok (), ())
  | _, .send _ => (true, ())

theorem replies_reply (hbound : ∀ token a b, X.balance token a b < 2 ^ 256)
    (block : ℕ) (call : Call3) : X.Replies block call (X.reply block call) := by
  intro owner hcall
  unfold reply
  rw [hcall, ownerOfCall_balanceOfCall]
  exact ⟨rfl, length_toBigEndian _ _,
    fromBigEndian_toBigEndian (hbound call.target owner block)⟩

theorem tells_respond (hbound : ∀ token a b, X.balance token a b < 2 ^ 256)
    (head lifetime : ℕ) (world : Unit) (q : Request) :
    X.Tells q (X.respond head lifetime world q).1 := by
  cases q with
  | getLogs f =>
      intro logs hlogs
      simp only [respond] at hlogs
      split at hlogs
      · rename_i hrange
        cases hlogs
        refine ⟨hrange.1, hrange.2, fun log => ?_⟩
        simp only [logsIn, List.mem_flatMap, List.mem_range'_1,
          List.mem_filter]
        constructor
        · rintro ⟨b, ⟨hlo, hhi⟩, hlog⟩
          exact ⟨b, hlo, by omega, hlog⟩
        · rintro ⟨b, hlo, hhi, hlog⟩
          exact ⟨b, ⟨hlo, by omega⟩, hlog⟩
      · cases hlogs
  | owner contract block =>
      intro a ha _
      cases ha
      rfl
  | aggregate3 contract calls block =>
      intro results hresults _
      cases hresults
      rw [List.forall₂_map_right_iff]
      exact List.forall₂_same.mpr fun call _ =>
        X.replies_reply hbound block call
  | blockByNumber n =>
      intro b hb
      have heq : (if n ≤ head then some ⟨n, X.hash n⟩ else none) = some b :=
        Except.ok.inj hb
      split at heq
      · cases heq
        exact ⟨rfl, rfl⟩
      · cases heq
  | _ => trivial

theorem inView_respond (head lifetime : ℕ) (world : Unit) (q : Request) :
    InView head q (X.respond head lifetime world q).1 := by
  cases q with
  | blockByNumber n =>
      intro block hblock
      have heq : (if n ≤ head then some ⟨n, X.hash n⟩ else none) = block :=
        Except.ok.inj hblock
      by_cases hle : n ≤ head
      · simp [← heq, hle]
      · simp [← heq, Nat.lt_of_not_le hle]
  | finalizedBlock =>
      intro b hb
      cases hb
      exact le_rfl
  | blockNumber =>
      intro n hn
      cases hn
      rfl
  | _ => trivial

/-- The respondent is a faithful provider. -/
theorem says_respond (hbound : ∀ token a b, X.balance token a b < 2 ^ 256)
    (head lifetime : ℕ) (world : Unit) (q : Request) :
    X.Says head q (X.respond head lifetime world q).1 :=
  ⟨X.tells_respond hbound head lifetime world q,
    X.inView_respond head lifetime world q⟩

theorem keeps_tells (X : Chain) (head : ℕ) :
    (Environment.of (X.Says head)).Keeps X.Tells :=
  fun _ _ _ _ h => h.1

/-- Running a program against the respondent is a run against a faithful
provider. -/
theorem runs_exec {ρ : Type} (p : Sync ρ) (s : Process)
    (hbound : ∀ token a b, X.balance token a b < 2 ^ 256)
    {head lifetime : ℕ} {outcome : Except Failure ρ}
    (houtcome : (p.exec (X.respond head lifetime) () s).1.1 = outcome) :
    p.Runs (Environment.of (X.Says head)) () s () outcome
      (p.exec (X.respond head lifetime) () s).1.2 := by
  rw [← houtcome]
  exact Program.runs_exec id p () s
    (fun world q => X.says_respond hbound head lifetime world q)

theorem runs_growing {ρ : Type} (p : Sync ρ) (s : Process)
    (hbound : ∀ token a b, X.balance token a b < 2 ^ 256)
    {head lifetime : ℕ} {outcome : Except Failure ρ}
    (houtcome : (p.exec (X.respond head lifetime) () s).1.1 = outcome) :
    p.Runs X.growing head s head outcome
      (p.exec (X.respond head lifetime) () s).1.2 := by
  rw [← houtcome]
  exact Program.runs_exec (fun _ => head) p () s fun world q =>
    ⟨le_rfl, X.says_respond hbound head lifetime world q⟩

/-- The respondent, except for some answers that are given otherwise. -/
def respondUnless (otherwise : (q : Request) → Option (Answer q))
    (head lifetime : ℕ) (world : Unit) (q : Request) : Answer q × Unit :=
  match otherwise q with
  | some answer => (answer, ())
  | none => X.respond head lifetime world q

theorem says_respondUnless (hbound : ∀ token a b, X.balance token a b < 2 ^ 256)
    {otherwise : (q : Request) → Option (Answer q)} {head : ℕ}
    (htells : ∀ q answer, otherwise q = some answer → X.Says head q answer)
    (lifetime : ℕ) (world : Unit) (q : Request) :
    X.Says head q (X.respondUnless otherwise head lifetime world q).1 := by
  unfold respondUnless
  cases hother : otherwise q with
  | some answer => exact htells q answer hother
  | none => exact X.says_respond hbound head lifetime world q

/-- Running against any respondent that is faithful while the head stays. -/
theorem runs_still {ρ : Type} (p : Sync ρ) (s : Process)
    {respond : Unit → (q : Request) → Answer q × Unit} {head : ℕ}
    (hrespond : ∀ world q, X.Says head q (respond world q).1)
    {outcome : Except Failure ρ}
    (houtcome : (p.exec respond () s).1.1 = outcome) :
    p.Runs X.growing head s head outcome (p.exec respond () s).1.2 := by
  rw [← houtcome]
  exact Program.runs_exec (fun _ => head) p () s fun world q =>
    ⟨le_rfl, hrespond world q⟩

/-! ## Sketching a chain -/

/-- A transfer log that names `a` and the zero address. -/
def transferOf (a : Address) (b : ℕ) : Log where
  address := USDT
  topics := [TRANSFER,
    ⟨List.replicate 12 0 ++ a.bytes, by simp [a.length_eq]⟩, word 0]
  data := [1]
  blockNumber := some b

/-- The chain in which block `b` touches the addresses `touched b`, each holds
`usdt a b` and no USDC, and the fork of block `b` is told by `tag b`. -/
def sketch (touched : ℕ → List Address) (usdt : Address → ℕ → ℕ)
    (tag : ℕ → ℕ) : Chain where
  logs b := (touched b).map fun a => transferOf a b
  owner _ := USDT
  balance token a b := if token = USDT then usdt a b else 0
  hash b := word (tag b * 2 ^ 64 + b)
  numbered b log hlog := by
    obtain ⟨a, -, rfl⟩ := List.mem_map.mp hlog
    rfl

end Chain

/-- Hashes fix sketched chains that agree wherever their forks do. -/
theorem Chain.sketch_hashesFix {touched touched' : ℕ → List Address}
    {usdt usdt' : Address → ℕ → ℕ} {tag tag' : ℕ → ℕ}
    (htag : ∀ b, tag b < 2 ^ 64) (htag' : ∀ b, tag' b < 2 ^ 64)
    (hagree : ∀ m, tag m = tag' m →
      (Chain.sketch touched usdt tag).AgreesUpTo
        (Chain.sketch touched' usdt' tag') m) :
    (Chain.sketch touched usdt tag).HashesFix
      (Chain.sketch touched' usdt' tag') := by
  intro m n hm hn hhash
  have hbound : ∀ t b, t < 2 ^ 64 → b < 2 ^ 64 →
      t * 2 ^ 64 + b < 256 ^ 32 := by
    intro t b ht hb
    calc
      t * 2 ^ 64 + b < 2 ^ 64 * 2 ^ 64 + 2 ^ 64 := by omega
      _ ≤ 256 ^ 32 := by decide
  have heq : tag m * 2 ^ 64 + m = tag' n * 2 ^ 64 + n :=
    word_injective (hbound _ _ (htag m) hm) (hbound _ _ (htag' n) hn) hhash
  have hmn : m = n := by omega
  subst hmn
  exact ⟨rfl, hagree m (by omega)⟩

theorem small_lt {n : ℕ} (h : n < 8) : n < 2 ^ 256 :=
  h.trans (by decide)

theorem Chain.sketch_balance_lt {touched : ℕ → List Address}
    {usdt : Address → ℕ → ℕ} {tag : ℕ → ℕ} (hsmall : ∀ a b, usdt a b < 8)
    (token a : Address) (b : ℕ) :
    (Chain.sketch touched usdt tag).balance token a b < 2 ^ 256 := by
  unfold Chain.sketch
  dsimp only
  split
  · exact small_lt (hsmall a b)
  · exact Nat.two_pow_pos 256

/-- A process that has just loaded `map`, the snapshot on disk. -/
def Process.launched (map : BalanceMap) : Process where
  map := map
  lastSnapshot := 0
  watch := default
  changed := ∅
  totals := default
  inserted := ∅
  failures := 0
  progress := none
  saved := some map
  sent := []
  history := []

end UsdtPir
