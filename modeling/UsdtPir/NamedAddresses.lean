import UsdtPir.TouchStamps

/-!
# What a list of logs comes down to

The shapes of a log that names an address, in the terms of its topics and data,
and everything `collect_touched` returns for a list of logs in these terms.
-/

namespace UsdtPir

/-- A transfer of a non-zero amount between two parties, one of them `a`. -/
def NamesParty (log : Log) (a : Address) : Prop :=
  ∃ sender receiver : B256, log.topics = [TRANSFER, sender, receiver] ∧
    sender ≠ receiver ∧ (∃ byte ∈ log.data, byte ≠ 0) ∧
    (sender.bytes = padded a ∨ receiver.bytes = padded a)

/-- The funds of `a` were destroyed: it is topic 1, or without a topic 1 the
first data word. -/
def NamesDestroyed (log : Log) (a : Address) : Prop :=
  log.topics.head? = some DESTROYED_BLACK_FUNDS ∧
    ((∃ topic, log.topics[1]? = some topic ∧ topic.bytes = padded a) ∨
      (log.topics[1]? = none ∧ log.data.take 32 = padded a))

theorem length_padded (a : Address) : (padded a).length = 32 := by
  simp [padded, a.length_eq]

theorem isTransfer_iff {log : Log} :
    isTransfer log = true ↔ ∃ sender receiver : B256,
      log.topics = [TRANSFER, sender, receiver] ∧ sender ≠ receiver ∧
        ∃ byte ∈ log.data, byte ≠ 0 := by
  unfold isTransfer transferIsInert
  constructor
  · intro htransfer
    simp only [Bool.and_eq_true, beq_iff_eq, Bool.not_eq_true', Bool.or_eq_false_iff,
      List.all_eq_false, beq_eq_false_iff_ne] at htransfer
    rcases htransfer with ⟨⟨hhead, hlength⟩, hdata, htopics⟩
    match htop : log.topics, hlength with
    | [first, sender, receiver], _ =>
        rw [htop] at hhead htopics
        have hfirst : first = TRANSFER := by simpa using hhead
        refine ⟨sender, receiver, by rw [hfirst], ?_, hdata⟩
        intro heq
        exact htopics (by simp [heq])
  · intro hshape
    rcases hshape with ⟨sender, receiver, htop, hne, byte, hbyte, hzero⟩
    have hdata : (log.data.all (· == 0)) = false := by
      rw [List.all_eq_false]
      exact ⟨byte, hbyte, by simpa using hzero⟩
    simp [htop, hdata, hne]

theorem names_transfer_iff {log : Log} {a : Address} :
    (isTransfer log = true ∧ ∃ t ∈ log.topics.drop 1, t.bytes = padded a) ↔
      NamesParty log a := by
  rw [isTransfer_iff]
  constructor
  · intro hnames
    rcases hnames with ⟨⟨sender, receiver, htop, hne, hdata⟩, t, ht, hword⟩
    refine ⟨sender, receiver, htop, hne, hdata, ?_⟩
    rw [htop] at ht
    simp only [List.drop_succ_cons, List.drop_zero, List.mem_cons,
      List.not_mem_nil, or_false] at ht
    rcases ht with ht | ht
    · exact .inl (ht ▸ hword)
    · exact .inr (ht ▸ hword)
  · intro hparty
    rcases hparty with ⟨sender, receiver, htop, hne, hdata, hword⟩
    refine ⟨⟨sender, receiver, htop, hne, hdata⟩, ?_⟩
    rw [htop]
    rcases hword with hword | hword
    · exact ⟨sender, by simp, hword⟩
    · exact ⟨receiver, by simp, hword⟩

theorem destroyedWord_iff {log : Log} {a : Address} :
    destroyedWord log = some (padded a) ↔
      (∃ topic, log.topics[1]? = some topic ∧ topic.bytes = padded a) ∨
        (log.topics[1]? = none ∧ log.data.take 32 = padded a) := by
  unfold destroyedWord
  cases htopic : log.topics[1]? with
  | some topic => simp
  | none =>
      by_cases hlength : 32 ≤ log.data.length
      · simp [hlength]
      · have hne : log.data.take 32 ≠ padded a := by
          intro heq
          have hlengths := congrArg List.length heq
          rw [length_padded, List.length_take] at hlengths
          omega
        simp [hlength, hne]

/-- The log names `a` in one of the two shapes, and `a` is not zero. -/
def NamedIn (log : Log) (a : Address) : Prop :=
  a ≠ Address.zero ∧ (NamesParty log a ∨ NamesDestroyed log a)

theorem mem_namedBy_iff_namedIn {log : Log} {a : Address} :
    a ∈ namedBy log ↔ NamedIn log a := by
  have hdestroyed : (isDestroyedBlackFunds log = true ∧
      destroyedWord log = some (padded a)) ↔ NamesDestroyed log a := by
    rw [destroyedWord_iff, isDestroyedBlackFunds, beq_iff_eq]
    exact Iff.rfl
  rw [mem_namedBy_iff, Names, names_transfer_iff, hdestroyed, NamedIn]
  exact and_comm

/-- The blocks in which a log of the token names the address. -/
def NamedAt (logs : List Log) (token a : Address) (b : ℕ) : Prop :=
  ∃ log ∈ logs, NamedIn log a ∧ log.address = token ∧ log.blockNumber = some b

/-- Exactly the named addresses are touched, each stamped with the last block
that names it, and the supply blocks are listed once and in order. -/
theorem collect_touched_exactly (logs : List Log) :
    (∀ a, a ∈ (collectTouched logs ∅).out ↔ ∃ log ∈ logs, NamedIn log a) ∧
    (∀ a,
      IsLast (NamedAt logs USDT a)
        (((collectTouched logs ∅).out.lookup a).getD default).usdt ∧
      IsLast (NamedAt logs USDC a)
        (((collectTouched logs ∅).out.lookup a).getD default).usdc) ∧
    (collectTouched logs ∅).collected.usdtSupplyBlocks.Pairwise (· < ·) ∧
    ∀ b, b ∈ (collectTouched logs ∅).collected.usdtSupplyBlocks ↔
      ∃ log ∈ logs, log.address = USDT ∧
        (log.topics.head? = some ISSUE ∨ log.topics.head? = some REDEEM) ∧
        log.blockNumber = some b := by
  refine ⟨?_, ?_, ?_, ?_⟩
  · intro a
    rw [mem_collectTouched_out]
    simp [mem_namedBy_iff_namedIn]
  · intro a
    have hshown : ∀ token b, (∃ log ∈ logs, log.Shows a token b) ↔
        NamedAt logs token a b := by
      intro token b
      simp only [Log.Shows, NamedAt, mem_namedBy_iff_namedIn,
        eq_comm (a := token)]
    have hlast := lastSeen_collectTouched logs a
    exact ⟨hlast.1.congr (hshown USDT), hlast.2.congr (hshown USDC)⟩
  · exact pairwise_dedup (List.pairwise_insertionSort _ _)
  · intro b
    rw [mem_collectTouched_usdtSupplyBlocks]
    have hsupply : ∀ log : Log, isSupplyEvent log = true ↔
        log.address = USDT ∧
          (log.topics.head? = some ISSUE ∨ log.topics.head? = some REDEEM) := by
      intro log
      cases htopic : log.topics.head? with
      | none => simp [isSupplyEvent, htopic]
      | some topic =>
          simp [isSupplyEvent, htopic, SUPPLY_TOPICS, and_comm]
    simp only [hsupply, and_assoc]

/-- A party of a USDC transfer is stamped for USDC only. -/
example : ((collectTouched
    [{ address := USDC
       topics := [TRANSFER, ⟨padded USDT, length_padded _⟩,
        ⟨padded USDC, length_padded _⟩]
       data := [1]
       blockNumber := some 9 }] ∅).out.lookup USDT) = some ⟨none, some 9⟩ := by
  decide

end UsdtPir
