import UsdtPir.AddressForms
import UsdtPir.PirClient
import UsdtPir.TablePir

/-!
# The queries that wait

The client numbers its queries and keeps what it needs to decrypt their
responses in a table.  The numbers wrap around, and a number that is handed out
again while its query still waits takes that query's place.
-/

namespace UsdtPir

inductive QueryError (P : EthPir)
  | badAddress (e : BadAddress)
  | pir (e : P.Fault)

structure PendingQuery where
  id : ℕ
  bytes : List UInt8
  deriving DecidableEq

namespace Client

variable {P : EthPir}

/-- `Client::query` of a text, given what encrypting a lookup yields. -/
def queryText (lib : AddressLibrary)
    (encrypt : Lookup P → Except P.Fault (List UInt8)) (client : Client P)
    (text : String) : Except (QueryError P) PendingQuery × Client P :=
  match parseAddress lib text with
  | .error e => (.error (.badAddress e), client)
  | .ok address =>
      match encrypt ⟨address, client.directory⟩ with
      | .error e => (.error (.pir e), client)
      | .ok bytes =>
          (.ok ⟨(client.query address).1, bytes⟩, (client.query address).2)

def cancel (client : Client P) (id : ℕ) : Bool × Client P :=
  ((client.pending.lookup id).isSome,
    { client with pending := client.pending.erase id })

end Client

inductive ClientCall (P : EthPir)
  | query (text : String) (encrypt : Lookup P → Except P.Fault (List UInt8))
  | decode (id : ℕ) (decrypt : Lookup P → Except (DecryptError P) Entry)
  | cancel (id : ℕ)
  | applyTail (tail : DeltaEnvelope)
  | resync (directory : P.Blob)

/-- A client, and the queries its caller still waits for, with the ids it was
given. -/
structure Book (P : EthPir) where
  client : Client P
  asked : List (ℕ × Lookup P)

/-- What the response to a query means. -/
def Lookup.report {P : EthPir} (lookup : Lookup P)
    (decrypt : Lookup P → Except (DecryptError P) Entry) :
    Except (ClientError P) Report :=
  match decrypt lookup with
  | .ok entry => .ok (.found lookup.address entry)
  | .error .notInSet => .ok (.notHeld lookup.address)
  | .error (.fault e) => .error (.pir e)

namespace Book

variable {P : EthPir}

def new (directory : KeywordDirectory P.Mphf) : Book P :=
  ⟨.new directory, []⟩

/-- The query of a text, if there is one. -/
def made (lib : AddressLibrary) (client : Client P) (text : String) :
    Except (QueryError P) PendingQuery → List (ℕ × Lookup P)
  | .error _ => []
  | .ok query =>
      match parseAddress lib text with
      | .error _ => []
      | .ok address => [(query.id, ⟨address, client.directory⟩)]

/-- Nobody waits for a query that is decoded, cancelled or resynced. -/
def step (lib : AddressLibrary) (book : Book P) : ClientCall P → Book P
  | .query text encrypt =>
      let (result, client) := book.client.queryText lib encrypt text
      ⟨client, book.asked ++ made lib book.client text result⟩
  | .decode id decrypt =>
      ⟨(book.client.decode id decrypt).2,
        book.asked.filter fun query => query.1 ≠ id⟩
  | .cancel id =>
      ⟨(book.client.cancel id).2,
        book.asked.filter fun query => query.1 ≠ id⟩
  | .applyTail tail =>
      match book.client.applyTail tail with
      | .ok client => { book with client }
      | .error _ => book
  | .resync directory =>
      match book.client.resync directory with
      | .ok client => ⟨client, []⟩
      | .error _ => book

def after (lib : AddressLibrary) (book : Book P) (calls : List (ClientCall P)) :
    Book P :=
  calls.foldl (Book.step lib) book

/-- Everybody waits for a query of his own, which is still there and is the one
that will be decoded; other ids are refused. -/
structure Keeps (book : Book P) : Prop where
  distinct : (book.asked.map Prod.fst).Nodup
  pending : ∀ id lookup, (id, lookup) ∈ book.asked →
    book.client.pending.lookup id = some lookup
  decoded : ∀ id lookup decrypt, (id, lookup) ∈ book.asked →
    (book.client.decode id decrypt).1 = lookup.report decrypt
  refused : ∀ id, id ∉ book.asked.map Prod.fst →
    (∀ decrypt, book.client.decode id decrypt =
      (.error (.unknownQuery id), book.client)) ∧
    (book.client.cancel id).1 = false

/-- A query that succeeds gets an id that nobody waits for. -/
def Fresh (lib : AddressLibrary) (book : Book P) : ClientCall P → Prop
  | .query text encrypt =>
      ∀ query, (book.client.queryText lib encrypt text).1 = .ok query →
        book.client.nextId ∉ book.client.pending
  | _ => True

end Book

section Queries

variable {P : EthPir} {lib : AddressLibrary} {client : Client P} {book : Book P}
    {id : ℕ} {text : String} {call : ClientCall P}
    {decrypt : Lookup P → Except (DecryptError P) Entry}
    {encrypt : Lookup P → Except P.Fault (List UInt8)}

theorem Client.pending_decode (other : ℕ) :
    (client.decode id decrypt).2.pending.lookup other =
      if other = id then none else client.pending.lookup other := by
  unfold decode
  cases hlookup : client.pending.lookup id with
  | none =>
      dsimp only
      by_cases hself : other = id
      · rw [if_pos hself, hself, hlookup]
      · rw [if_neg hself]
  | some lookup =>
      have herased : (client.pending.erase id).lookup other =
          if other = id then none else client.pending.lookup other := by
        by_cases hself : other = id
        · rw [if_pos hself, hself, AList.lookup_erase]
        · rw [if_neg hself, AList.lookup_erase_ne hself]
      dsimp only
      split
      · exact herased
      · exact herased
      · exact herased

theorem Client.nextId_decode :
    (client.decode id decrypt).2.nextId = client.nextId := by
  unfold decode
  cases client.pending.lookup id with
  | none => rfl
  | some lookup =>
      dsimp only
      split <;> rfl

theorem Client.pending_cancel (other : ℕ) :
    (client.cancel id).2.pending.lookup other =
      if other = id then none else client.pending.lookup other := by
  unfold cancel
  by_cases hself : other = id
  · rw [if_pos hself, hself]
    exact AList.lookup_erase id client.pending
  · rw [if_neg hself]
    exact AList.lookup_erase_ne hself

theorem Client.decode_of_lookup {lookup : Lookup P}
    (h : client.pending.lookup id = some lookup) :
    (client.decode id decrypt).1 = lookup.report decrypt := by
  unfold decode Lookup.report
  rw [h]
  dsimp only
  cases decrypt lookup with
  | ok entry => rfl
  | error failure =>
      cases failure with
      | notInSet => rfl
      | fault e => rfl

theorem Client.decode_of_none (h : client.pending.lookup id = none) :
    client.decode id decrypt = (.error (.unknownQuery id), client) := by
  unfold decode
  rw [h]

/-- A query fails and changes nothing, or it waits under its id. -/
theorem Client.queryText_cases (client : Client P) (lib : AddressLibrary)
    (encrypt : Lookup P → Except P.Fault (List UInt8)) (text : String) :
    (∃ e, client.queryText lib encrypt text = (.error e, client)) ∨
      ∃ address bytes, parseAddress lib text = .ok address ∧
        client.queryText lib encrypt text =
          (.ok ⟨client.nextId, bytes⟩, (client.query address).2) := by
  unfold queryText
  cases hparse : parseAddress lib text with
  | error e => exact .inl ⟨_, rfl⟩
  | ok address =>
      cases hencrypt : encrypt ⟨address, client.directory⟩ with
      | error e =>
          left
          simp only [hencrypt]
          exact ⟨_, rfl⟩
      | ok bytes =>
          right
          refine ⟨address, bytes, rfl, ?_⟩
          simp only [hencrypt]
          rfl

theorem Client.applyTail_cases (client : Client P) (tail : DeltaEnvelope) :
    (∃ e, client.applyTail tail = .error e) ∨
      ∃ directory, client.applyTail tail = .ok { client with directory } := by
  unfold applyTail
  cases P.applyTail client.directory tail with
  | error e => exact .inl ⟨e, rfl⟩
  | ok directory => exact .inr ⟨directory, rfl⟩

theorem Client.resync_cases (client : Client P) (blob : P.Blob) :
    (∃ e, client.resync blob = .error e) ∨
      ∃ directory, client.resync blob =
        .ok { client with directory, pending := ∅ } := by
  unfold resync
  cases P.readFrom blob with
  | error e => exact .inl ⟨e, rfl⟩
  | ok directory => exact .inr ⟨directory, rfl⟩

namespace Book

/-- The table of the client is the list of those who wait. -/
structure Matches (book : Book P) : Prop where
  distinct : (book.asked.map Prod.fst).Nodup
  pending_iff : ∀ id lookup, book.client.pending.lookup id = some lookup ↔
    (id, lookup) ∈ book.asked

theorem Matches.lookup_none (h : book.Matches)
    (hid : id ∉ book.asked.map Prod.fst) :
    book.client.pending.lookup id = none := by
  cases hlookup : book.client.pending.lookup id with
  | none => rfl
  | some lookup =>
      have hmem := (h.pending_iff id lookup).mp hlookup
      exact absurd (List.mem_map_of_mem hmem) hid

theorem Matches.keeps (h : book.Matches) : book.Keeps where
  distinct := h.distinct
  pending := fun id lookup hmem => (h.pending_iff id lookup).mpr hmem
  decoded := by
    intro id lookup decrypt hmem
    exact Client.decode_of_lookup ((h.pending_iff id lookup).mpr hmem)
  refused := by
    intro id hid
    have hnone := h.lookup_none hid
    constructor
    · intro decrypt
      exact Client.decode_of_none hnone
    · unfold Client.cancel
      rw [hnone]
      rfl

theorem matches_empty (h : client.pending = ∅) : Matches ⟨client, []⟩ := by
  constructor
  · exact List.nodup_nil
  · intro id lookup
    constructor
    · intro hlookup
      rw [h] at hlookup
      cases hlookup
    · intro hmem
      cases hmem

/-- A query that is over is gone from both. -/
theorem Matches.over (h : book.Matches) {client' : Client P}
    (hpending : ∀ other, client'.pending.lookup other =
      if other = id then none else book.client.pending.lookup other) :
    Matches ⟨client', book.asked.filter fun query => query.1 ≠ id⟩ := by
  constructor
  · exact h.distinct.sublist (List.filter_sublist.map Prod.fst)
  · intro other lookup
    rw [hpending, List.mem_filter]
    by_cases hself : other = id
    · rw [if_pos hself]
      simp [hself]
    · rw [if_neg hself, h.pending_iff]
      simp [hself]

theorem Matches.asks (h : book.Matches) {address : Address}
    (hfresh : book.client.nextId ∉ book.client.pending) :
    Matches ⟨(book.client.query address).2,
      book.asked ++ [(book.client.nextId, ⟨address, book.client.directory⟩)]⟩ := by
  have hnone : book.client.pending.lookup book.client.nextId = none :=
    AList.lookup_eq_none.mpr hfresh
  have hunused : book.client.nextId ∉ book.asked.map Prod.fst := by
    intro hmem
    obtain ⟨⟨id, lookup⟩, hasked, rfl⟩ := List.mem_map.mp hmem
    rw [(h.pending_iff _ lookup).mpr hasked] at hnone
    cases hnone
  constructor
  · rw [List.map_append, List.map_singleton]
    apply List.nodup_append.mpr
    refine ⟨h.distinct, List.nodup_singleton _, ?_⟩
    intro id hid other hother hsame
    rw [hsame, List.mem_singleton.mp hother] at hid
    exact hunused hid
  · intro id lookup
    rw [List.mem_append, List.mem_singleton, Prod.mk.injEq]
    unfold Client.query
    by_cases hself : id = book.client.nextId
    · have hnot : (book.client.nextId, lookup) ∉ book.asked := by
        intro hasked
        exact hunused (List.mem_map_of_mem hasked)
      rw [hself]
      simp [hnot, eq_comm]
    · rw [AList.lookup_insert_ne hself, h.pending_iff]
      simp [hself]

theorem step_query {address : Address} {bytes : List UInt8}
    (hparse : parseAddress lib text = .ok address)
    (hquery : book.client.queryText lib encrypt text =
      (.ok ⟨book.client.nextId, bytes⟩, (book.client.query address).2)) :
    book.step lib (.query text encrypt) =
      ⟨(book.client.query address).2, book.asked ++
        [(book.client.nextId, ⟨address, book.client.directory⟩)]⟩ := by
  unfold step
  dsimp only
  rw [hquery]
  unfold made
  dsimp only
  rw [hparse]

theorem step_query_error {e : QueryError P}
    (hquery : book.client.queryText lib encrypt text = (.error e, book.client)) :
    book.step lib (.query text encrypt) = book := by
  unfold step
  dsimp only
  rw [hquery]
  unfold made
  dsimp only
  rw [List.append_nil]

theorem step_applyTail (book : Book P) (lib : AddressLibrary)
    (tail : DeltaEnvelope) :
    book.step lib (.applyTail tail) = book ∨
      ∃ directory, book.step lib (.applyTail tail) =
        ⟨{ book.client with directory }, book.asked⟩ := by
  unfold step
  dsimp only
  cases book.client.applyTail_cases tail with
  | inl hfails =>
      obtain ⟨e, hcall⟩ := hfails
      left
      rw [hcall]
  | inr hsucceeds =>
      obtain ⟨directory, hcall⟩ := hsucceeds
      right
      exact ⟨directory, by rw [hcall]⟩

theorem step_resync (book : Book P) (lib : AddressLibrary) (blob : P.Blob) :
    book.step lib (.resync blob) = book ∨
      ∃ directory, book.step lib (.resync blob) =
        ⟨{ book.client with directory, pending := ∅ }, []⟩ := by
  unfold step
  dsimp only
  cases book.client.resync_cases blob with
  | inl hfails =>
      obtain ⟨e, hcall⟩ := hfails
      left
      rw [hcall]
  | inr hsucceeds =>
      obtain ⟨directory, hcall⟩ := hsucceeds
      right
      exact ⟨directory, by rw [hcall]⟩

theorem Matches.step (h : book.Matches) (hfresh : book.Fresh lib call) :
    (book.step lib call).Matches := by
  cases call with
  | query text encrypt =>
      cases book.client.queryText_cases lib encrypt text with
      | inl hfails =>
          obtain ⟨e, hquery⟩ := hfails
          rw [step_query_error hquery]
          exact h
      | inr hsucceeds =>
          obtain ⟨address, bytes, hparse, hquery⟩ := hsucceeds
          rw [step_query hparse hquery]
          exact h.asks (hfresh _ (by rw [hquery]))
  | decode id decrypt => exact h.over Client.pending_decode
  | cancel id => exact h.over Client.pending_cancel
  | applyTail tail =>
      cases book.step_applyTail lib tail with
      | inl hsame =>
          rw [hsame]
          exact h
      | inr happlied =>
          obtain ⟨directory, hstep⟩ := happlied
          rw [hstep]
          exact ⟨h.distinct, h.pending_iff⟩
  | resync blob =>
      cases book.step_resync lib blob with
      | inl hsame =>
          rw [hsame]
          exact h
      | inr hresynced =>
          obtain ⟨directory, hstep⟩ := hresynced
          rw [hstep]
          exact matches_empty rfl

/-- An id that is handed out twice is waited for twice. -/
theorem Matches.clash (h : book.Matches) (hclash : ¬ book.Fresh lib call) :
    ¬ (book.step lib call).Keeps := by
  intro hkeeps
  apply hclash
  cases call with
  | query text encrypt =>
      intro query hok hmem
      cases book.client.queryText_cases lib encrypt text with
      | inl hfails =>
          obtain ⟨e, hquery⟩ := hfails
          rw [hquery] at hok
          cases hok
      | inr hsucceeds =>
          obtain ⟨address, bytes, hparse, hquery⟩ := hsucceeds
          obtain ⟨lookup, hlookup⟩ := Option.isSome_iff_exists.mp
            (AList.lookup_isSome.mpr hmem)
          have hwaits := (h.pending_iff _ lookup).mp hlookup
          have hdistinct := hkeeps.distinct
          rw [step_query hparse hquery, List.map_append, List.map_singleton]
            at hdistinct
          exact (List.nodup_append.mp hdistinct).2.2 _ (List.mem_map_of_mem hwaits)
            _ (List.mem_singleton.mpr rfl) rfl
  | decode id decrypt => trivial
  | cancel id => trivial
  | applyTail tail => trivial
  | resync directory => trivial

theorem matches_after {calls : List (ClientCall P)} (h : book.Matches)
    (hfresh : ∀ before call later, calls = before ++ call :: later →
      (book.after lib before).Fresh lib call) :
    (book.after lib calls).Matches := by
  induction calls generalizing book with
  | nil => exact h
  | cons call calls ih =>
      apply ih (h.step (hfresh [] call calls rfl))
      intro before other later hcalls
      exact hfresh (call :: before) other later (hcalls ▸ rfl)

theorem fresh_nil : ∀ before call later,
    ([] : List (ClientCall P)) = before ++ call :: later →
      (book.after lib before).Fresh lib call := by
  intro before call later hcalls
  cases List.append_eq_nil_iff.mp hcalls.symm with
  | intro _ hcons => cases hcons

theorem fresh_cons {first : ClientCall P} {calls : List (ClientCall P)}
    (hfirst : book.Fresh lib first)
    (hrest : ∀ before call later, calls = before ++ call :: later →
      ((book.step lib first).after lib before).Fresh lib call) :
    ∀ before call later, first :: calls = before ++ call :: later →
      (book.after lib before).Fresh lib call := by
  intro before call later hcalls
  cases before with
  | nil =>
      cases hcalls
      exact hfirst
  | cons _ before =>
      cases hcalls
      exact hrest before call later rfl

theorem fresh_of_keeps {calls : List (ClientCall P)} (h : book.Matches)
    (hkeeps : ∀ before later, calls = before ++ later →
      (book.after lib before).Keeps) :
    ∀ before call later, calls = before ++ call :: later →
      (book.after lib before).Fresh lib call := by
  induction calls generalizing book with
  | nil => exact fresh_nil
  | cons first calls ih =>
      have hfirst : book.Fresh lib first := by
        by_contra hclash
        exact h.clash hclash (hkeeps [first] calls rfl)
      apply fresh_cons hfirst
      apply ih (h.step hfirst)
      intro before later hsplit
      exact hkeeps (first :: before) later (hsplit ▸ rfl)

end Book

end Queries

def ClientCall.isQuery {P : EthPir} : ClientCall P → Bool
  | .query _ _ => true
  | _ => false

namespace Book

variable {P : EthPir} {lib : AddressLibrary} {book : Book P} {n : ℕ}
    {call : ClientCall P}

/-- So many queries have succeeded. -/
structure Counted (book : Book P) (n : ℕ) : Prop where
  next : book.client.nextId = n % 2 ^ 32
  earlier : ∀ id lookup, book.client.pending.lookup id = some lookup → id < n

theorem Counted.fresh (h : book.Counted n) (hn : n < 2 ^ 32) :
    book.Fresh lib call := by
  cases call with
  | query text encrypt =>
      intro query hok hmem
      obtain ⟨lookup, hlookup⟩ := Option.isSome_iff_exists.mp
        (AList.lookup_isSome.mpr hmem)
      have hless := h.earlier _ lookup hlookup
      rw [h.next, Nat.mod_eq_of_lt hn] at hless
      exact absurd hless (Nat.lt_irrefl n)
  | _ => trivial

theorem Counted.erased (h : book.Counted n) {client' : Client P} {id : ℕ}
    {asked : List (ℕ × Lookup P)} (hnext : client'.nextId = book.client.nextId)
    (hpending : ∀ other, client'.pending.lookup other =
      if other = id then none else book.client.pending.lookup other) :
    Counted ⟨client', asked⟩ n := by
  constructor
  · exact hnext.trans h.next
  · intro other lookup hlookup
    rw [hpending] at hlookup
    split at hlookup
    · cases hlookup
    · exact h.earlier other lookup hlookup

theorem Counted.asked (h : book.Counted n) {address : Address}
    {asked : List (ℕ × Lookup P)} :
    Counted ⟨(book.client.query address).2, asked⟩ (n + 1) := by
  unfold Client.query
  constructor
  · dsimp only
    rw [h.next, Nat.mod_add_mod]
  · intro id lookup hlookup
    dsimp only at hlookup
    by_cases hself : id = book.client.nextId
    · rw [hself, h.next]
      exact Nat.lt_succ_of_le (Nat.mod_le n _)
    · rw [AList.lookup_insert_ne hself] at hlookup
      exact Nat.lt_succ_of_lt (h.earlier id lookup hlookup)

theorem Counted.step (h : book.Counted n) (lib : AddressLibrary)
    (call : ClientCall P) :
    ∃ m, m ≤ n + [call].countP ClientCall.isQuery ∧
      (book.step lib call).Counted m := by
  cases call with
  | query text encrypt =>
      cases book.client.queryText_cases lib encrypt text with
      | inl hfails =>
          obtain ⟨e, hquery⟩ := hfails
          rw [step_query_error hquery]
          exact ⟨n, Nat.le_add_right _ _, h⟩
      | inr hsucceeds =>
          obtain ⟨address, bytes, hparse, hquery⟩ := hsucceeds
          rw [step_query hparse hquery]
          exact ⟨n + 1, le_rfl, h.asked⟩
  | decode id decrypt =>
      exact ⟨n, le_rfl, h.erased Client.nextId_decode Client.pending_decode⟩
  | cancel id => exact ⟨n, le_rfl, h.erased rfl Client.pending_cancel⟩
  | applyTail tail =>
      cases book.step_applyTail lib tail with
      | inl hsame =>
          rw [hsame]
          exact ⟨n, le_rfl, h⟩
      | inr happlied =>
          obtain ⟨directory, hstep⟩ := happlied
          rw [hstep]
          exact ⟨n, le_rfl, h.next, h.earlier⟩
  | resync blob =>
      cases book.step_resync lib blob with
      | inl hsame =>
          rw [hsame]
          exact ⟨n, le_rfl, h⟩
      | inr hresynced =>
          obtain ⟨directory, hstep⟩ := hresynced
          rw [hstep]
          refine ⟨n, le_rfl, h.next, ?_⟩
          intro id lookup hlookup
          cases hlookup

/-- Before the ids wrap around every id is new. -/
theorem Counted.fresh_within (h : book.Counted n) {calls : List (ClientCall P)}
    (hcount : n + calls.countP ClientCall.isQuery ≤ 2 ^ 32) :
    ∀ before call later, calls = before ++ call :: later →
      (book.after lib before).Fresh lib call := by
  induction calls generalizing book n with
  | nil => exact fresh_nil
  | cons first calls ih =>
      have hfirst : book.Fresh lib first := by
        by_cases hquery : first.isQuery = true
        · rw [List.countP_cons_of_pos hquery] at hcount
          exact h.fresh (by omega)
        · cases first with
          | query text encrypt => exact absurd rfl hquery
          | _ => trivial
      apply fresh_cons hfirst
      obtain ⟨m, hm, hstep⟩ := h.step lib first
      rw [← List.singleton_append, List.countP_append] at hcount
      exact ih hstep (by omega)

end Book

/-- No query is confused or lost along any sequence of calls exactly if no
query that succeeds gets an id that is still waited for, as none does before
the ids wrap around. -/
theorem pending_queries_iff {P : EthPir} (lib : AddressLibrary)
    (directory : KeywordDirectory P.Mphf) (calls : List (ClientCall P)) :
    ((∀ before later, calls = before ++ later →
        ((Book.new directory).after lib before).Keeps) ↔
      ∀ before call later, calls = before ++ call :: later →
        ((Book.new directory).after lib before).Fresh lib call) ∧
    (calls.countP ClientCall.isQuery ≤ 2 ^ 32 →
      ∀ before call later, calls = before ++ call :: later →
        ((Book.new directory).after lib before).Fresh lib call) := by
  have hnew : (Book.new directory).Matches := Book.matches_empty rfl
  refine ⟨⟨?_, ?_⟩, ?_⟩
  · exact Book.fresh_of_keeps hnew
  · intro hfresh before later hcalls
    apply Book.Matches.keeps
    apply Book.matches_after hnew
    intro earlier call rest hbefore
    apply hfresh earlier call (rest ++ later)
    rw [hcalls, hbefore, List.append_assoc, List.cons_append]
  · intro hcount
    have hnone : (Book.new directory).Counted 0 := by
      constructor
      · rfl
      · intro id lookup hlookup
        cases hlookup
    exact hnone.fresh_within (by omega)

/-! ## All ids once -/

section WrapAround

open HexDigits

variable {P : EthPir} {lib : AddressLibrary} {directory : KeywordDirectory P.Mphf}

/-- The text of an address, encrypted to nothing. -/
def asking (P : EthPir) (a : Address) : ClientCall P :=
  .query ("0x" ++ hexForm lower a) fun _ => .ok []

/-- One address is asked for and not decoded, another one is asked for and
cancelled again and again. -/
def wearing (P : EthPir) (a b : Address) (n : ℕ) : List (ClientCall P) :=
  asking P a :: (List.range n).flatMap fun k => [asking P b, .cancel (k + 1)]

theorem parseAddress_lower (hlib : lib.Documented) (a : Address) :
    parseAddress lib ("0x" ++ hexForm lower a) = .ok a := by
  rw [parseAddress_eq_ok_iff hlib]
  apply addressForm_iff.mp
  exact ⟨"0x", by decide, _, rfl, addressDigits_lower lib a⟩

theorem step_asking (hlib : lib.Documented) (book : Book P) (a : Address) :
    book.step lib (asking P a) =
      ⟨(book.client.query a).2,
        book.asked ++ [(book.client.nextId, ⟨a, book.client.directory⟩)]⟩ := by
  have hparse := parseAddress_lower hlib a
  have hquery : book.client.queryText lib (fun _ => .ok [])
      ("0x" ++ hexForm lower a) =
        (.ok ⟨book.client.nextId, []⟩, (book.client.query a).2) := by
    unfold Client.queryText
    rw [hparse]
    rfl
  exact Book.step_query hparse hquery

theorem after_append {book : Book P} {calls calls' : List (ClientCall P)} :
    book.after lib (calls ++ calls') = (book.after lib calls).after lib calls' :=
  List.foldl_append

/-- Asking and cancelling leaves nothing but the next id. -/
theorem after_round (hlib : lib.Documented) (b : Address) (book : Book P)
    (hasked : book.client.nextId ∉ book.asked.map Prod.fst) :
    (book.after lib [asking P b, .cancel book.client.nextId]).client.nextId =
        (book.client.nextId + 1) % 2 ^ 32 ∧
      (book.after lib [asking P b, .cancel book.client.nextId]).asked =
        book.asked := by
  have hothers : book.asked.filter (fun query => query.1 ≠ book.client.nextId) =
      book.asked := by
    apply List.filter_eq_self.mpr
    intro query hquery
    have hne : query.1 ≠ book.client.nextId := by
      intro hself
      exact hasked (hself ▸ List.mem_map_of_mem hquery)
    simpa using hne
  unfold Book.after
  rw [List.foldl_cons, step_asking hlib]
  constructor
  · rfl
  · change List.filter _ (book.asked ++ _) = _
    rw [List.filter_append, hothers]
    simp

theorem after_wearing (hlib : lib.Documented)
    (directory : KeywordDirectory P.Mphf) (a b : Address) {n : ℕ}
    (hn : n < 2 ^ 32) :
    ((Book.new directory).after lib (wearing P a b n)).client.nextId =
        (n + 1) % 2 ^ 32 ∧
      ((Book.new directory).after lib (wearing P a b n)).asked =
        [(0, ⟨a, directory⟩)] := by
  induction n with
  | zero =>
      unfold wearing Book.after
      rw [List.foldl_cons, step_asking hlib]
      exact ⟨rfl, rfl⟩
  | succ n ih =>
      obtain ⟨hnext, hasked⟩ := ih (Nat.lt_of_succ_lt hn)
      rw [Nat.mod_eq_of_lt hn] at hnext
      have hcalls : wearing P a b (n + 1) =
          wearing P a b n ++ [asking P b, .cancel (n + 1)] := by
        unfold wearing
        rw [List.range_succ, List.flatMap_append, List.cons_append,
          List.flatMap_singleton]
      have hround := after_round hlib b
        ((Book.new directory).after lib (wearing P a b n))
        (by rw [hnext, hasked]; simp)
      rw [hnext, hasked] at hround
      rw [hcalls, after_append]
      exact hround

theorem asked_twice (hlib : lib.Documented) (a b : Address) :
    ((Book.new directory).after lib
      (wearing P a b (2 ^ 32 - 1) ++ [asking P b])).asked.map Prod.fst =
        [0, 0] := by
  obtain ⟨hnext, hasked⟩ := after_wearing hlib directory a b
    (by decide : 2 ^ 32 - 1 < 2 ^ 32)
  have hwrapped : (2 ^ 32 - 1 + 1) % 2 ^ 32 = 0 := by decide
  rw [hwrapped] at hnext
  rw [after_append]
  unfold Book.after at hnext hasked ⊢
  rw [List.foldl_cons, step_asking hlib, hnext, hasked]
  rfl

end WrapAround

def nobody : Address :=
  ⟨List.replicate 20 0, rfl⟩

/-- The query that waits since the beginning and a new one have the same id. -/
theorem query_confused :
    ¬ ∀ before later, wearing (tablePir 2) sampleAddress nobody (2 ^ 32 - 1) ++
        [asking (tablePir 2) nobody] = before ++ later →
      ((Book.new ⟨0, [sampleAddress, nobody], []⟩).after sampleLibrary
        before).Keeps := by
  intro hkeeps
  have hdistinct := (hkeeps _ [] (List.append_nil _).symm).distinct
  rw [asked_twice sampleLibrary_documented] at hdistinct
  revert hdistinct
  decide

end UsdtPir
