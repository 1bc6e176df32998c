import UsdtPir.SyncProcess

/-!
# The PIR library

The part of `eth_pir` and `poulpy_pir` that the publisher calls.  It is not in
this repository: a minimal perfect hash, a server with its live keyword
directory and the database it answers from, and what each call can do to them
are given as parameters, and what the code relies on as laws.
-/

namespace UsdtPir

abbrev PirSnapshot := HashMap Address Entry

/-- `KeywordDirectory<20>`: the slots of a minimal perfect hash, and the
append-only addresses past them. -/
structure KeywordDirectory (M : Type) where
  version : ℕ
  mphf : M
  delta : List Address

/-- The same generation, with no address taken back. -/
structure KeywordDirectory.Extends {M : Type}
    (older newer : KeywordDirectory M) : Prop where
  version : newer.version = older.version
  mphf : newer.mphf = older.mphf
  delta : older.delta <+: newer.delta

/-- Both halves of what is kept of a keyword index. -/
structure KeywordCheckpoint (B : Type) where
  version : ℕ
  keys : List Address
  directory : B

/-- The addresses past the MPHF from some offset on, with the generation they
belong to. -/
structure DeltaEnvelope where
  version : ℕ
  start : ℕ
  delta : List Address

/-- What queries are answered from: the directory that lays it out, and the
record in each slot. -/
structure Database (M : Type) where
  layout : KeywordDirectory M
  record : ℕ → Option (Address × Entry)

/-- Results of calls that can fail for reasons of their own are related, not
computed. -/
structure EthPir where
  Mphf : Type
  Server : Type
  Blob : Type
  Fault : Type
  mphfLen : Mphf → ℕ
  /-- Where a directory sends an address, known to it or not. -/
  slot : KeywordDirectory Mphf → Address → ℕ
  blobLen : Blob → ℕ
  /-- `KeywordDirectory::read_from`. -/
  readFrom : Blob → Except Fault (KeywordDirectory Mphf)
  /-- The directory and the blob of an index over no address. -/
  emptyIndex : Except Fault (KeywordDirectory Mphf × Blob)
  deltaEnvelopeFrom : KeywordDirectory Mphf → ℕ → Except Fault DeltaEnvelope
  applyTail : KeywordDirectory Mphf → DeltaEnvelope →
    Except Fault (KeywordDirectory Mphf)
  keyword : Server → KeywordDirectory Mphf
  database : Server → Database Mphf
  len : Server → ℕ
  /-- The bytes of `try_mphf` and `try_tail(0)`. -/
  tryMphf : Server → Except Fault ℕ
  tryTail : Server → Except Fault ℕ
  init : PirSnapshot → Except Fault Server → Prop
  restore : Blob → List Address → PirSnapshot → Except Fault Server → Prop
  update : Server → Address → Entry → Except Fault Unit → Server → Prop
  /-- `None` when nothing is pending. -/
  tryRebuildDatabase : Server → Except Fault (Option Unit) → Server → Prop
  rebuildKeywordIndexFrom : Server → PirSnapshot → Except Fault Unit → Server →
    Prop
  checkpoint : Server → Except Fault (KeywordCheckpoint Blob) → Prop
  tryFull : Server → Except Fault Blob → Prop

namespace EthPir

/-- How the live directory moves: a fresh index has version 0, a keyword
rebuild the next version, and everything else only appends. -/
structure Versioned (P : EthPir) : Prop where
  init_version : ∀ {map server}, P.init map (.ok server) →
    (P.keyword server).version = 0
  restore_extends : ∀ {blob keys map server directory},
    P.restore blob keys map (.ok server) → P.readFrom blob = .ok directory →
    directory.Extends (P.keyword server)
  update_extends : ∀ {server a e r server'}, P.update server a e r server' →
    (P.keyword server).Extends (P.keyword server')
  publish_keyword : ∀ {server r server'},
    P.tryRebuildDatabase server r server' → P.keyword server' = P.keyword server
  rebuild_version : ∀ {server map server'},
    P.rebuildKeywordIndexFrom server map (.ok ()) server' →
    (P.keyword server').version = (P.keyword server).version + 1
  rebuild_fails : ∀ {server map fault server'},
    P.rebuildKeywordIndexFrom server map (.error fault) server' →
    P.keyword server' = P.keyword server

/-- What is written of a directory is read back as that directory. -/
structure Serializes (P : EthPir) : Prop where
  checkpoint_version : ∀ {server c}, P.checkpoint server (.ok c) →
    c.version = (P.keyword server).version
  checkpoint_directory : ∀ {server c}, P.checkpoint server (.ok c) →
    P.readFrom c.directory = .ok (P.keyword server)
  full_directory : ∀ {server blob}, P.tryFull server (.ok blob) →
    P.readFrom blob = .ok (P.keyword server)

/-- A blob that can be read is read as the live directory. -/
def Faithful (P : EthPir) : Prop :=
  ∀ {server blob directory}, P.tryFull server (.ok blob) →
    P.readFrom blob = .ok directory → directory = P.keyword server

theorem Serializes.faithful {P : EthPir} (h : P.Serializes) : P.Faithful := by
  intro server blob directory hcall hparse
  rw [h.full_directory hcall] at hparse
  exact (Except.ok.inj hparse).symm

/-- A database is installed by a rebuild that succeeds, and is then laid out by
the live directory; nothing is pending when a rebuild is skipped. -/
structure Installs (P : EthPir) : Prop where
  init_layout : ∀ {map server}, P.init map (.ok server) →
    (P.database server).layout = P.keyword server
  restore_layout : ∀ {blob keys map server},
    P.restore blob keys map (.ok server) →
    (P.database server).layout = P.keyword server
  update_database : ∀ {server a e r server'}, P.update server a e r server' →
    P.database server' = P.database server
  publish_layout : ∀ {server done server'},
    P.tryRebuildDatabase server (.ok done) server' →
    (P.database server').layout = P.keyword server'
  publish_skips : ∀ {server server'},
    P.tryRebuildDatabase server (.ok none) server' →
    P.database server' = P.database server
  publish_fails : ∀ {server fault server'},
    P.tryRebuildDatabase server (.error fault) server' →
    P.database server' = P.database server
  rebuild_layout : ∀ {server map server'},
    P.rebuildKeywordIndexFrom server map (.ok ()) server' →
    (P.database server').layout = P.keyword server'
  rebuild_keeps : ∀ {server map fault server'},
    P.rebuildKeywordIndexFrom server map (.error fault) server' →
    P.database server' = P.database server

/-- The index over no address has version 0 and no tail. -/
structure StartsEmpty (P : EthPir) : Prop where
  empty_version : ∀ {parsed blob}, P.emptyIndex = .ok (parsed, blob) →
    parsed.version = 0
  empty_tail : ∀ {parsed blob}, P.emptyIndex = .ok (parsed, blob) →
    parsed.delta = []

/-- Every record is in the slot to which the layout sends its address. -/
structure Places (P : EthPir) : Prop where
  record_slot : ∀ {server i a e},
    (P.database server).record i = some (a, e) →
    P.slot (P.database server).layout a = i

/-- An envelope is the part of the delta from its start on, and it is applied
only where that part begins. -/
structure Tails (P : EthPir) : Prop where
  envelope : ∀ {d : KeywordDirectory P.Mphf} {start : ℕ} {tail},
    P.deltaEnvelopeFrom d start = .ok tail →
    tail = ⟨d.version, start, d.delta.drop start⟩
  apply : ∀ {d d' : KeywordDirectory P.Mphf} {tail : DeltaEnvelope},
    P.applyTail d tail = .ok d' →
    tail.version = d.version ∧ tail.start = d.delta.length ∧
      d' = ⟨d.version, d.mphf, d.delta ++ tail.delta⟩

/-- Appending moves only the addresses that are appended, and no address is
appended that the database has a record of. -/
structure Keeps (P : EthPir) : Prop where
  slot_appended : ∀ {older newer : KeywordDirectory P.Mphf} {a},
    older.Extends newer → a ∉ newer.delta.drop older.delta.length →
    P.slot newer a = P.slot older a
  update_appends : ∀ {server a e r server' i b e'},
    P.update server a e r server' →
    (P.database server).layout.Extends (P.keyword server) →
    (P.database server).record i = some (b, e') →
    b ∉ (P.keyword server').delta.drop (P.keyword server).delta.length

end EthPir

namespace KeywordDirectory.Extends

variable {M : Type} {older middle newer : KeywordDirectory M}

theorem refl (directory : KeywordDirectory M) : directory.Extends directory :=
  ⟨rfl, rfl, List.prefix_refl _⟩

theorem of_eq (h : newer = older) : older.Extends newer := by
  rw [h]
  exact refl older

theorem trans (h : older.Extends middle) (h' : middle.Extends newer) :
    older.Extends newer :=
  ⟨h'.version.trans h.version, h'.mphf.trans h.mphf, h.delta.trans h'.delta⟩

end KeywordDirectory.Extends

end UsdtPir
