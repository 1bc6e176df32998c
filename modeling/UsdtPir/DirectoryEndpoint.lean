import UsdtPir.Freshness
import UsdtPir.JsonText
import UsdtPir.Portal
import UsdtPir.QueryEndpoint

/-!
# The directory over HTTP

The page learns what is exposed from a text, and asks for what it lacks with
another.  What the client makes of the answers is what the steps of the portal
make of the exposed directories.
-/

namespace UsdtPir

open JsonText

/-- A body of bytes is given by what the bytes are of. -/
inductive DirectoryBody (P : EthPir)
  | text (message : String)
  | blob (blob : P.Blob)
  | envelope (envelope : DeltaEnvelope)

structure DirectoryResponse (P : EthPir) where
  status : ℕ
  headers : List (String × String)
  body : DirectoryBody P

namespace DirectoryResponse

open HttpResponse (CONTENT_TYPE CACHE_CONTROL json text octetStream noStore)

variable {P : EthPir}

def blob (bytes : DirectoryBody P) : DirectoryResponse P :=
  ⟨200, [(CONTENT_TYPE, octetStream), (CACHE_CONTROL, noStore)], bytes⟩

def problem (code : ℕ) (message : String) : DirectoryResponse P :=
  ⟨code, [(CONTENT_TYPE, text)], .text message⟩

def unavailable : DirectoryResponse P :=
  problem 503 "directory not built yet"

/-- `res.ok`. -/
def ok (response : DirectoryResponse P) : Bool :=
  200 ≤ response.status && response.status < 300

end DirectoryResponse

section Handlers

variable {P : EthPir}

open HttpResponse (CONTENT_TYPE CACHE_CONTROL)

def Directory.statusJson (dir : Directory P) (chain : Sample) : String :=
  "\x7b\"version\":" ++ toString dir.version ++
    ",\"len\":" ++ toString dir.len ++
    ",\"mphfLen\":" ++ toString dir.mphfLen ++
    ",\"tailLen\":" ++ toString dir.tailLen ++
    ",\"directoryBytes\":" ++ toString (P.blobLen dir.full) ++
    ",\"mphfBytes\":" ++ toString dir.mphfBytes ++
    ",\"tailBytes\":" ++ toString dir.tailBytes ++
    ",\"cursor\":" ++ toString chain.cursor ++
    ",\"tip\":" ++ toString chain.tip ++
    ",\"lagBlocks\":" ++ toString chain.lagBlocks ++
    ",\"lastSyncAgeSecs\":" ++
    ((chain.ageSecs.map toString).getD "null") ++ "\x7d"

namespace DirectoryApi

/-- The slot is read, unless its lock is poisoned. -/
def status (current : Option (Directory P)) (chain : Sample) :
    DirectoryResponse P :=
  match current with
  | none => .unavailable
  | some dir =>
      ⟨200, [(CONTENT_TYPE, HttpResponse.json),
        (CACHE_CONTROL, HttpResponse.noStore)], .text (dir.statusJson chain)⟩

def fullDirectory (current : Option (Directory P)) : DirectoryResponse P :=
  match current with
  | none => .unavailable
  | some dir => .blob (.blob dir.full)

def unsigned : List Char → List Char
  | '+' :: digits => digits
  | digits => digits

/-- One more digit of a `usize`, if it is one and fits. -/
def pushDigit (n : ℕ) (c : Char) : Option ℕ :=
  let next := 10 * n + (c.toNat - '0'.toNat)
  if c.isDigit ∧ next < 2 ^ 64 then some next else none

/-- `str::parse::<usize>`. -/
def parseUsize (value : List Char) : Option ℕ :=
  let digits := unsigned value
  if digits = [] then none else digits.foldlM pushDigit 0

/-- `pair.split_once('=').unwrap_or((pair, ""))`. -/
def splitPair (pair : List Char) : List Char × List Char :=
  match pair.span (· ≠ '=') with
  | (key, _ :: value) => (key, value)
  | (key, []) => (key, [])

/-- `?from=N`, defaulting to 0 when absent. -/
def parseFrom : Option (List Char) → Except String ℕ
  | none => .ok 0
  | some raw =>
      match (((raw.splitOn '&').filter (· ≠ [])).map splitPair).find?
          (·.1 = "from".toList) with
      | some (_, value) =>
          match parseUsize value with
          | some start => .ok start
          | none => .error "from must be a whole number"
      | none => .ok 0

def tail (fault : P.Fault → String) (current : Option (Directory P))
    (raw : Option (List Char)) : DirectoryResponse P :=
  match current with
  | none => .unavailable
  | some dir =>
      match parseFrom raw with
      | .error e => .problem 400 e
      | .ok start =>
          match P.deltaEnvelopeFrom dir.parsed start with
          | .ok envelope => .blob (.envelope envelope)
          | .error e => .problem 400 ("tail: " ++ fault e)

/-- A target is a path, and what follows the first `?`. -/
def splitTarget (target : List Char) : List Char × Option (List Char) :=
  match target.span (· ≠ '?') with
  | (path, _ :: raw) => (path, some raw)
  | (path, []) => (path, none)

/-- The routes of `bind` that read the directory. -/
def get (fault : P.Fault → String) (current : Option (Directory P))
    (chain : Sample) (target : String) : Option (DirectoryResponse P) :=
  let (path, raw) := splitTarget target.toList
  if path = "/v1/status".toList then some (status current chain)
  else if path = "/v1/directory".toList then some (fullDirectory current)
  else if path = "/v1/directory/tail".toList then some (tail fault current raw)
  else none

end DirectoryApi

end Handlers

/-! ## The status -/

section Status

variable {P : EthPir}

/-- A whole number as the page has it. -/
def double (n : ℕ) : Json :=
  .number (toDouble n)

def Directory.statusObject (dir : Directory P) (chain : Sample) : Json :=
  .object
    [("version".toList, double dir.version), ("len".toList, double dir.len),
      ("mphfLen".toList, double dir.mphfLen),
      ("tailLen".toList, double dir.tailLen),
      ("directoryBytes".toList, double (P.blobLen dir.full)),
      ("mphfBytes".toList, double dir.mphfBytes),
      ("tailBytes".toList, double dir.tailBytes),
      ("cursor".toList, double chain.cursor), ("tip".toList, double chain.tip),
      ("lagBlocks".toList, double chain.lagBlocks),
      ("lastSyncAgeSecs".toList, (chain.ageSecs.map double).getD .null)]

theorem Directory.statusJson_toList (dir : Directory P) (chain : Sample) :
    (dir.statusJson chain).toList = objectText
      [("version".toList, Nat.toDigits 10 dir.version),
        ("len".toList, Nat.toDigits 10 dir.len),
        ("mphfLen".toList, Nat.toDigits 10 dir.mphfLen),
        ("tailLen".toList, Nat.toDigits 10 dir.tailLen),
        ("directoryBytes".toList, Nat.toDigits 10 (P.blobLen dir.full)),
        ("mphfBytes".toList, Nat.toDigits 10 dir.mphfBytes),
        ("tailBytes".toList, Nat.toDigits 10 dir.tailBytes),
        ("cursor".toList, Nat.toDigits 10 chain.cursor),
        ("tip".toList, Nat.toDigits 10 chain.tip),
        ("lagBlocks".toList, Nat.toDigits 10 chain.lagBlocks),
        ("lastSyncAgeSecs".toList,
          ((chain.ageSecs.map toString).getD "null").toList)] := by
  unfold Directory.statusJson
  simp [objectText, membersText]

theorem spells_age (age : Option ℕ) :
    Spells ((age.map toString).getD "null").toList
      ((age.map double).getD .null) := by
  cases age with
  | none => exact spells_null
  | some age =>
      have htext : (toString age).toList = Nat.toDigits 10 age := by simp
      simp only [Option.map_some, Option.getD_some, htext]
      exact spells_nat age

theorem parse_statusJson (dir : Directory P) (chain : Sample) :
    parse (dir.statusJson chain).toList = some (dir.statusObject chain) := by
  apply parse_of_spells
  rw [Directory.statusJson_toList]
  apply spells_object
  · iterate 10
      apply List.Forall₂.cons
      · exact .of rfl (spells_nat _)
    apply List.Forall₂.cons
    · exact .of rfl (spells_age _)
    · exact .nil
  · simp

theorem field_version (dir : Directory P) (chain : Sample) :
    (dir.statusObject chain).field "version" = some (double dir.version) :=
  rfl

theorem field_tailLen (dir : Directory P) (chain : Sample) :
    (dir.statusObject chain).field "tailLen" = some (double dir.tailLen) :=
  rfl

theorem safeInteger_double {n : ℕ} (h : n < 2 ^ 53) :
    (double n).safeInteger = some n := by
  unfold double
  rw [toDouble_nat h]
  exact Json.safeInteger_nat h

end Status

/-! ## The offset -/

section Offset

variable {digits : List Char} {n : ℕ}

theorem le_ofDigitChars : n ≤ Nat.ofDigitChars 10 digits n := by
  induction digits generalizing n with
  | nil => simp
  | cons c digits ih =>
      rw [Nat.ofDigitChars_cons]
      have hrest := ih (n := 10 * n + (c.toNat - '0'.toNat))
      omega

/-- Nothing overflows on the way to a number that does not. -/
theorem foldlM_pushDigit (hdigits : ∀ c ∈ digits, c.isDigit = true)
    (hlt : Nat.ofDigitChars 10 digits n < 2 ^ 64) :
    digits.foldlM DirectoryApi.pushDigit n =
      some (Nat.ofDigitChars 10 digits n) := by
  induction digits generalizing n with
  | nil => rfl
  | cons c digits ih =>
      rw [Nat.ofDigitChars_cons] at hlt ⊢
      have hstep : 10 * n + (c.toNat - '0'.toNat) < 2 ^ 64 :=
        lt_of_le_of_lt le_ofDigitChars hlt
      have hc := hdigits c List.mem_cons_self
      have hpush : DirectoryApi.pushDigit n c =
          some (10 * n + (c.toNat - '0'.toNat)) := if_pos ⟨hc, hstep⟩
      rw [List.foldlM_cons, hpush]
      exact ih (fun c hc => hdigits c (List.mem_cons_of_mem _ hc)) hlt

theorem unsigned_toDigits :
    DirectoryApi.unsigned (Nat.toDigits 10 n) = Nat.toDigits 10 n := by
  unfold DirectoryApi.unsigned
  split
  · rename_i heq
    have hplus : '+' ∈ Nat.toDigits 10 n := by
      rw [heq]
      exact List.mem_cons_self
    cases isDigit_toDigits _ hplus
  · rfl

theorem parseUsize_toDigits (h : n < 2 ^ 64) :
    DirectoryApi.parseUsize (Nat.toDigits 10 n) = some n := by
  have hread : Nat.ofDigitChars 10 (Nat.toDigits 10 n) 0 = n :=
    Nat.ofDigitChars_ten_toDigits
  have hfold := foldlM_pushDigit (n := 0) isDigit_toDigits
    (by rw [hread]; exact h)
  unfold DirectoryApi.parseUsize
  rw [unsigned_toDigits]
  simp only [Nat.toDigits_ne_nil, if_false]
  rw [hfold, hread]

theorem parseFrom_offset (h : n < 2 ^ 64) :
    DirectoryApi.parseFrom (some ("from=".toList ++ Nat.toDigits 10 n)) =
      .ok n := by
  have hpairs : ("from=".toList ++ Nat.toDigits 10 n).splitOn '&' =
      ["from=".toList ++ Nat.toDigits 10 n] := by
    apply List.splitOn_eq_singleton
    intro hmem
    rw [List.mem_append] at hmem
    cases hmem with
    | inl hkey => exact absurd hkey (by decide)
    | inr hdigit => cases isDigit_toDigits _ hdigit
  have hpair : DirectoryApi.splitPair ("from=".toList ++ Nat.toDigits 10 n) =
      ("from".toList, Nat.toDigits 10 n) := rfl
  have hsome : "from=".toList ++ Nat.toDigits 10 n ≠ [] := by simp
  unfold DirectoryApi.parseFrom
  simp only [hpairs, hsome, List.filter_cons, List.filter_nil, hpair, ne_eq,
    not_false_eq_true, decide_true, if_true, List.map_cons, List.map_nil,
    List.find?_cons, parseUsize_toDigits h]

theorem splitTarget_tail :
    DirectoryApi.splitTarget ("/v1/directory/tail?from=".toList ++ digits) =
      ("/v1/directory/tail".toList, some ("from=".toList ++ digits)) :=
  rfl

end Offset

/-! ## The page -/

section Page

variable {P : EthPir}

/-- `res.json()`. -/
def DirectoryResponse.readJson (response : DirectoryResponse P) : Option Json :=
  match response.body with
  | .text body => if response.ok then parse body.toList else none
  | _ => none

/-- A number as a `usize` of the client, which is built for 32 bits. -/
def toUsize (n : ℕ) : ℕ :=
  n % 2 ^ 32

/-- What `sync` fetches after its first request. -/
def plan (client : Option (Client P)) (response : DirectoryResponse P) :
    Option (Option Fetch) := do
  let object ← response.readJson
  match client with
  | none => some (some .bootstrap)
  | some client =>
      let version ← (object.field "version").bind Json.safeInteger
      let tailLen ← (object.field "tailLen").bind Json.safeInteger
      match client.syncNeed version (toUsize tailLen) with
      | .full => some (some .full)
      | .tail start => some (some (.tail start))
      | .upToDate => some none

def Fetch.target : Fetch → String
  | .bootstrap | .full => "/v1/directory"
  | .tail start => "/v1/directory/tail?from=" ++ toString start

/-- What the client makes of the response to its second request. -/
def Fetch.receive (fetch : Fetch) (client : Option (Client P))
    (response : DirectoryResponse P) : Option (Client P) :=
  if response.ok then
    match fetch, client, response.body with
    | .bootstrap, _, .blob blob => (P.readFrom blob).toOption.map .new
    | .full, some client, .blob blob => (client.resync blob).toOption
    | .tail _, some client, .envelope envelope =>
        (client.applyTail envelope).toOption
    | _, _, _ => none
  else none

variable {client : Option (Client P)} {d : Directory P} {chain : Sample}
    {fault : P.Fault → String}

theorem readJson_status :
    (DirectoryApi.status (some d) chain).readJson =
      some (d.statusObject chain) := by
  have hok : (DirectoryApi.status (some d) chain).ok = true := rfl
  have hbody : (DirectoryApi.status (some d) chain).body =
      .text (d.statusJson chain) := rfl
  unfold DirectoryResponse.readJson
  simp only [hbody, hok, if_true]
  exact parse_statusJson d chain

theorem plan_of_object {client : Client P} {response : DirectoryResponse P}
    {object : Json} {version tailLen : ℕ}
    (hread : response.readJson = some object)
    (hversion : (object.field "version").bind Json.safeInteger = some version)
    (htail : (object.field "tailLen").bind Json.safeInteger = some tailLen)
    (hlt : tailLen < 2 ^ 32) :
    plan (some client) response =
      some (match client.syncNeed version tailLen with
        | .full => some .full
        | .tail start => some (.tail start)
        | .upToDate => none) := by
  have htoUsize : toUsize tailLen = tailLen := Nat.mod_eq_of_lt hlt
  unfold plan
  simp only [hread, hversion, htail, htoUsize, Option.bind_eq_bind,
    Option.bind_some]
  cases client.syncNeed version tailLen <;> rfl

theorem plan_status (hversion : d.version < 2 ^ 53) (htail : d.tailLen < 2 ^ 32) :
    plan client (DirectoryApi.status (some d) chain) =
      some (planned client d) := by
  cases client with
  | none =>
      unfold plan
      rw [readJson_status]
      rfl
  | some client =>
      apply plan_of_object readJson_status
      · rw [field_version, Option.bind_some, safeInteger_double hversion]
      · have htail' : d.tailLen < 2 ^ 53 := by omega
        rw [field_tailLen, Option.bind_some, safeInteger_double htail']
      · exact htail

theorem tail_start_le {start : ℕ} (h : planned client d = some (.tail start)) :
    start < d.tailLen := by
  unfold planned at h
  cases client with
  | none => cases h
  | some client =>
      dsimp only [Client.syncNeed] at h
      split_ifs at h with hversion hlt
      · cases h
      · obtain rfl : client.tailLen = start := by simpa using h
        exact hlt

theorem get_full :
    DirectoryApi.get fault (some d) chain "/v1/directory" =
      some (.blob (.blob d.full)) :=
  rfl

theorem target_tail (start : ℕ) : (Fetch.tail start).target.toList =
    "/v1/directory/tail?from=".toList ++ Nat.toDigits 10 start := by
  unfold Fetch.target
  rw [String.toList_append]
  simp

theorem get_tail {start : ℕ} :
    DirectoryApi.get fault (some d) chain (Fetch.tail start).target =
      some (DirectoryApi.tail fault (some d)
        (some ("from=".toList ++ Nat.toDigits 10 start))) := by
  unfold DirectoryApi.get
  rw [target_tail, splitTarget_tail]
  dsimp only
  rw [if_neg (by decide), if_neg (by decide), if_pos rfl]

theorem receive_install {fetch : Fetch} {d' : Directory P}
    (hfetch : planned client d = some fetch) (htail : d.tailLen < 2 ^ 32) :
    ∃ answer, DirectoryApi.get fault (some d') chain fetch.target = some answer ∧
      fetch.receive client answer = fetch.install client d' := by
  cases fetch with
  | bootstrap => exact ⟨_, get_full, rfl⟩
  | full =>
      refine ⟨_, get_full, ?_⟩
      cases client <;> rfl
  | tail start =>
      have hstart : start < 2 ^ 64 := by
        have hlt := tail_start_le hfetch
        omega
      refine ⟨_, get_tail, ?_⟩
      cases client with
      | none => cases hfetch
      | some client =>
          unfold DirectoryApi.tail Fetch.install
          dsimp only
          rw [parseFrom_offset hstart]
          dsimp only
          cases P.deltaEnvelopeFrom d'.parsed start <;> rfl

theorem get_poisoned {target : String} {response : DirectoryResponse P}
    (h : DirectoryApi.get fault none chain target = some response) :
    response = .unavailable := by
  unfold DirectoryApi.get at h
  dsimp only at h
  split_ifs at h <;> exact (Option.some.inj h).symm

/-- The steps of the portal hand over directories, and the texts do the same:
what the page reads of a status is its plan, what it asks for by its plan is
what the server reads, and what the client makes of the answer is what it makes
of the directory.  A poisoned slot gives it nothing. -/
theorem page_reads_served_texts (fault : P.Fault → String)
    (client : Option (Client P)) (d d' : Directory P) (chain chain' : Sample)
    (hversion : d.version < 2 ^ 53) (htail : d.tailLen < 2 ^ 32) :
    (∃ asked, DirectoryApi.get fault (some d) chain "/v1/status" = some asked ∧
      asked.readJson = some (d.statusObject chain) ∧
      plan client asked = some (planned client d)) ∧
    (∀ fetch, planned client d = some fetch → ∃ answer,
      DirectoryApi.get fault (some d') chain' fetch.target = some answer ∧
      fetch.receive client answer = fetch.install client d') ∧
    ∀ target response,
      DirectoryApi.get fault (none : Option (Directory P)) chain target =
        some response →
      plan client response = none ∧
        ∀ fetch : Fetch, fetch.receive client response = none := by
  constructor
  · exact ⟨_, rfl, readJson_status, plan_status hversion htail⟩
  constructor
  · intro fetch hfetch
    exact receive_install hfetch htail
  · intro target response hresponse
    rw [get_poisoned hresponse]
    exact ⟨rfl, fun fetch => rfl⟩

end Page

/-! ## A tail of one address -/

namespace OneBehind

abbrev Library : EthPir := tablePir 2

/-- A client that does not know the second holder yet. -/
def client : Option (Client Library) :=
  some (.new ⟨0, [Sample.first], []⟩)

def exposed : Directory Library :=
  ⟨0, 2, 1, 0, 1, 68, ⟨0, [Sample.first], [Sample.second]⟩,
    ⟨0, [Sample.first], [Sample.second]⟩⟩

theorem page_reads_served_texts_tail :
    (∃ asked, DirectoryApi.get (fun _ => "") (some exposed) ⟨7, 9, 2, none⟩
        "/v1/status" = some asked ∧
      plan client asked = some (some (.tail 0))) ∧
    ∃ answer, DirectoryApi.get (fun _ => "") (some exposed) ⟨7, 9, 2, none⟩
        "/v1/directory/tail?from=0" = some answer ∧
      (Fetch.tail 0).receive client answer =
        (Fetch.tail 0).install client exposed := by
  obtain ⟨hstatus, hfetch, -⟩ := page_reads_served_texts (fun _ => "") client
    exposed exposed ⟨7, 9, 2, none⟩ ⟨7, 9, 2, none⟩ (by decide) (by decide)
  constructor
  · obtain ⟨asked, hasked, -, hplan⟩ := hstatus
    exact ⟨asked, hasked, hplan⟩
  · exact hfetch (.tail 0) rfl

end OneBehind

end UsdtPir
