import UsdtPir.EthPir

/-!
# A PIR library with tables for hashes

A library that keeps the laws: its minimal perfect hash is the table of the
addresses in the order of their slots, in any order, and its database has a
bounded number of slots.  Every call that can fail for reasons of its own can
fail at any time.
-/

namespace UsdtPir

abbrev Table := List Address

namespace KeywordDirectory

/-- The address in a slot. -/
def addressAt (directory : KeywordDirectory Table) (slot : ℕ) :
    Option Address :=
  (directory.mphf ++ directory.delta)[slot]?

def Knows (directory : KeywordDirectory Table) (a : Address) : Prop :=
  a ∈ directory.mphf ++ directory.delta

instance (directory : KeywordDirectory Table) (a : Address) :
    Decidable (directory.Knows a) :=
  inferInstanceAs (Decidable (a ∈ _))

/-- A hash is total: it sends an address it does not know somewhere. -/
def slotOf (directory : KeywordDirectory Table) (a : Address) : ℕ :=
  if directory.Knows a then (directory.mphf ++ directory.delta).idxOf a else 0

def envelopeFrom (directory : KeywordDirectory Table) (start : ℕ) :
    Except Unit DeltaEnvelope :=
  if start ≤ directory.delta.length then
    .ok ⟨directory.version, start, directory.delta.drop start⟩
  else
    .error ()

def append (directory : KeywordDirectory Table) (tail : DeltaEnvelope) :
    Except Unit (KeywordDirectory Table) :=
  if tail.version = directory.version ∧
      tail.start = directory.delta.length then
    .ok { directory with delta := directory.delta ++ tail.delta }
  else
    .error ()

def push (directory : KeywordDirectory Table) (a : Address) :
    KeywordDirectory Table :=
  { directory with delta := directory.delta ++ [a] }

end KeywordDirectory

/-- `layout` and `installed` are what the database was last built from. -/
structure TableServer where
  keyword : KeywordDirectory Table
  records : PirSnapshot
  layout : KeywordDirectory Table
  installed : PirSnapshot

namespace TableServer

/-- Every record goes to the slot of its address. -/
def database (server : TableServer) : Database Table :=
  ⟨server.layout, fun slot => do
    let a ← server.layout.addressAt slot
    if server.layout.slotOf a = slot then
      let e ← server.installed.lookup a
      some (a, e)
    else
      none⟩

def build (keyword : KeywordDirectory Table) (records : PirSnapshot) :
    TableServer :=
  ⟨keyword, records, keyword, records⟩

/-- An address that is not known yet is appended. -/
def absorb (server : TableServer) (a : Address) (e : Entry) : TableServer :=
  { server with
    keyword :=
      if server.keyword.Knows a then server.keyword else server.keyword.push a
    records := server.records.insert a e }

def refresh (server : TableServer) : TableServer :=
  { server with
    layout := server.keyword
    installed := server.records }

def len (server : TableServer) : ℕ :=
  server.keyword.mphf.length + server.keyword.delta.length

/-- The addresses of the map that the saved directory does not know yet are
appended to it. -/
def reopen (saved : KeywordDirectory Table) (map : PirSnapshot) : TableServer :=
  build
    { saved with
      delta := saved.delta ++ map.keys.filter fun a => ¬ saved.Knows a } map

end TableServer

open TableServer

/-- The library with room for `capacity` addresses. -/
def tablePir (capacity : ℕ) : EthPir where
  Mphf := Table
  Server := TableServer
  Blob := KeywordDirectory Table
  Fault := Unit
  mphfLen := List.length
  slot := KeywordDirectory.slotOf
  deltaEnvelopeFrom := KeywordDirectory.envelopeFrom
  applyTail := KeywordDirectory.append
  blobLen blob := 24 + 20 * (blob.mphf.length + blob.delta.length)
  readFrom := .ok
  emptyIndex := .ok (⟨0, [], []⟩, ⟨0, [], []⟩)
  keyword := TableServer.keyword
  database := TableServer.database
  len := TableServer.len
  tryMphf server := .ok (20 * server.keyword.mphf.length)
  tryTail server := .ok (48 + 20 * server.keyword.delta.length)
  init map answer :=
    match answer with
    | .ok server =>
        ∃ table : Table, table.Perm map.keys ∧ server = build ⟨0, table, []⟩ map
    | .error _ => True
  restore saved _ map answer :=
    match answer with
    | .ok server => server = reopen saved map
    | .error _ => True
  update server a e answer server' :=
    match answer with
    | .ok _ =>
        (server.keyword.Knows a ∨ server.len < capacity) ∧
          server' = server.absorb a e
    | .error _ =>
        (¬ server.keyword.Knows a ∧ capacity ≤ server.len) ∧ server' = server
  tryRebuildDatabase server answer server' :=
    match answer with
    | .ok (some _) => server' = server.refresh
    | .ok none => server = server.refresh ∧ server' = server
    | .error _ => server' = server
  rebuildKeywordIndexFrom server map answer server' :=
    match answer with
    | .ok _ =>
        ∃ table : Table, table.Perm map.keys ∧
          server' = build ⟨server.keyword.version + 1, table, []⟩ map
    | .error _ => server' = server
  checkpoint server answer :=
    match answer with
    | .ok saved =>
        saved = ⟨server.keyword.version, server.keyword.mphf, server.keyword⟩
    | .error _ => True
  tryFull server answer :=
    match answer with
    | .ok blob => blob = server.keyword
    | .error _ => True

variable {capacity : ℕ}

theorem TableServer.absorb_extends (server : TableServer) (a : Address)
    (e : Entry) : server.keyword.Extends (server.absorb a e).keyword := by
  unfold absorb
  by_cases hknown : server.keyword.Knows a
  · rw [if_pos hknown]
    exact .refl _
  · rw [if_neg hknown]
    exact ⟨rfl, rfl, List.prefix_append _ _⟩

theorem tablePir_versioned : (tablePir capacity).Versioned where
  init_version := by
    intro map server hcall
    rcases hcall with ⟨table, -, rfl⟩
    rfl
  restore_extends := by
    intro blob keys map server directory hcall hparse
    have hserver : server = reopen blob map := hcall
    have hblob : directory = blob := (Except.ok.inj hparse).symm
    rw [hserver, hblob]
    exact ⟨rfl, rfl, List.prefix_append _ _⟩
  update_extends := by
    intro server a e answer server' hcall
    cases answer with
    | ok done =>
        have hserver : server' = server.absorb a e := hcall.2
        rw [hserver]
        exact server.absorb_extends a e
    | error fault =>
        have hserver : server' = server := hcall.2
        exact .of_eq (congrArg TableServer.keyword hserver)
  publish_keyword := by
    intro server answer server' hcall
    cases answer with
    | ok installed =>
        cases installed with
        | some done =>
            have hserver : server' = server.refresh := hcall
            rw [hserver]
            rfl
        | none => exact congrArg TableServer.keyword hcall.2
    | error fault => exact congrArg TableServer.keyword hcall
  rebuild_version := by
    intro server map server' hcall
    rcases hcall with ⟨table, -, rfl⟩
    rfl
  rebuild_fails := by
    intro server map fault server' hcall
    exact congrArg TableServer.keyword hcall

theorem tablePir_serializes : (tablePir capacity).Serializes where
  checkpoint_version := by
    intro server saved hcall
    exact congrArg KeywordCheckpoint.version hcall
  checkpoint_directory := by
    intro server saved hcall
    exact congrArg (fun saved => Except.ok saved.directory) hcall
  full_directory := by
    intro server blob hcall
    exact congrArg Except.ok hcall

theorem tablePir_installs : (tablePir capacity).Installs where
  init_layout := by
    intro map server hcall
    rcases hcall with ⟨table, -, rfl⟩
    rfl
  restore_layout := by
    intro blob keys map server hcall
    have hserver : server = reopen blob map := hcall
    rw [hserver]
    rfl
  update_database := by
    intro server a e answer server' hcall
    cases answer with
    | ok done =>
        have hserver : server' = server.absorb a e := hcall.2
        rw [hserver]
        rfl
    | error fault => exact congrArg TableServer.database hcall.2
  publish_layout := by
    intro server done server' hcall
    cases done with
    | some done =>
        have hserver : server' = server.refresh := hcall
        rw [hserver]
        rfl
    | none =>
        have hserver : server' = server.refresh := hcall.2.trans hcall.1
        rw [hserver]
        rfl
  publish_skips := by
    intro server server' hcall
    exact congrArg TableServer.database hcall.2
  publish_fails := by
    intro server fault server' hcall
    exact congrArg TableServer.database hcall
  rebuild_layout := by
    intro server map server' hcall
    rcases hcall with ⟨table, -, rfl⟩
    rfl
  rebuild_keeps := by
    intro server map fault server' hcall
    exact congrArg TableServer.database hcall

theorem tablePir_startsEmpty : (tablePir capacity).StartsEmpty where
  empty_version := by
    intro parsed blob hcall
    cases hcall
    rfl
  empty_tail := by
    intro parsed blob hcall
    cases hcall
    rfl

theorem tablePir_places : (tablePir capacity).Places where
  record_slot := by
    intro server i a e hrecord
    change (do
      let a ← server.layout.addressAt i
      if server.layout.slotOf a = i then
        let e ← server.installed.lookup a
        some (a, e)
      else none) = some (a, e) at hrecord
    cases haddress : server.layout.addressAt i with
    | none =>
        rw [haddress] at hrecord
        cases hrecord
    | some b =>
        rw [haddress] at hrecord
        change (if server.layout.slotOf b = i then _ else _) = _ at hrecord
        by_cases hslot : server.layout.slotOf b = i
        · rw [if_pos hslot] at hrecord
          cases hlookup : server.installed.lookup b with
          | none =>
              rw [hlookup] at hrecord
              cases hrecord
          | some e' =>
              rw [hlookup] at hrecord
              cases hrecord
              exact hslot
        · rw [if_neg hslot] at hrecord
          cases hrecord

theorem tablePir_tails {capacity : ℕ} : (tablePir capacity).Tails where
  envelope := by
    intro d start tail hcut
    change KeywordDirectory.envelopeFrom d start = .ok tail at hcut
    unfold KeywordDirectory.envelopeFrom at hcut
    split at hcut
    · cases hcut
      rfl
    · cases hcut
  apply := by
    intro d d' tail hjoin
    change KeywordDirectory.append d tail = .ok d' at hjoin
    unfold KeywordDirectory.append at hjoin
    split at hjoin
    · rename_i hfits
      cases hjoin
      exact ⟨hfits.1, hfits.2, rfl⟩
    · cases hjoin

/-- What is appended to a table leaves the places of the others. -/
theorem KeywordDirectory.slotOf_appended {older newer : KeywordDirectory Table}
    {a : Address} (h : older.Extends newer)
    (hold : a ∉ newer.delta.drop older.delta.length) :
    newer.slotOf a = older.slotOf a := by
  obtain ⟨rest, hrest⟩ := h.delta
  rw [← hrest, List.drop_left] at hold
  have htable : newer.mphf ++ newer.delta =
      (older.mphf ++ older.delta) ++ rest := by
    rw [h.mphf, ← hrest, List.append_assoc]
  have hknows : newer.Knows a ↔ older.Knows a := by
    unfold Knows
    rw [htable, List.mem_append]
    exact or_iff_left hold
  unfold slotOf
  by_cases hknown : older.Knows a
  · rw [if_pos hknown, if_pos (hknows.mpr hknown), htable]
    exact List.idxOf_append_of_mem hknown
  · rw [if_neg hknown, if_neg (mt hknows.mp hknown)]

/-- The layout has the address of every record. -/
theorem TableServer.knows_of_record {server : TableServer} {i : ℕ}
    {a : Address} {e : Entry} (h : server.database.record i = some (a, e)) :
    server.layout.Knows a := by
  change (do
    let a ← server.layout.addressAt i
    if server.layout.slotOf a = i then
      let e ← server.installed.lookup a
      some (a, e)
    else none) = some (a, e) at h
  cases haddress : server.layout.addressAt i with
  | none =>
      rw [haddress] at h
      cases h
  | some b =>
      rw [haddress] at h
      change (if server.layout.slotOf b = i then _ else _) = _ at h
      split at h
      · cases hlookup : server.installed.lookup b with
        | none =>
            rw [hlookup] at h
            cases h
        | some e' =>
            rw [hlookup] at h
            cases h
            exact List.mem_of_getElem? haddress
      · cases h

theorem tablePir_keeps : (tablePir capacity).Keeps where
  slot_appended := KeywordDirectory.slotOf_appended
  update_appends := by
    intro server a e answer server' i b e' hcall hextends hrecord
    have hsame : server'.keyword = server.keyword ∨
        ¬ server.keyword.Knows a ∧
          server'.keyword = server.keyword.push a := by
      cases answer with
      | ok done =>
          have hserver : server' = server.absorb a e := hcall.2
          rw [hserver]
          unfold absorb
          by_cases hknown : server.keyword.Knows a
          · rw [if_pos hknown]
            exact .inl rfl
          · rw [if_neg hknown]
            exact .inr ⟨hknown, rfl⟩
      | error fault => exact .inl (congrArg TableServer.keyword hcall.2)
    change b ∉ server'.keyword.delta.drop server.keyword.delta.length
    obtain hkept | ⟨hnew, hpushed⟩ := hsame
    · rw [hkept, List.drop_length]
      exact List.not_mem_nil
    · have hdrop : (server.keyword.push a).delta.drop
          server.keyword.delta.length = [a] := List.drop_left
      rw [hpushed, hdrop, List.mem_singleton]
      intro heq
      subst heq
      apply hnew
      have hheld : b ∈ server.layout.mphf ++ server.layout.delta :=
        knows_of_record hrecord
      have hdelta : server.layout.delta <+: server.keyword.delta :=
        hextends.delta
      have hmphf : server.keyword.mphf = server.layout.mphf := hextends.mphf
      change b ∈ server.keyword.mphf ++ server.keyword.delta
      rw [hmphf]
      obtain hbefore | hafter := List.mem_append.mp hheld
      · exact List.mem_append_left _ hbefore
      · exact List.mem_append_right _ (hdelta.subset hafter)

end UsdtPir
