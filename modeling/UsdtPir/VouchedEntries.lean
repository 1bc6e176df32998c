import UsdtPir.HashMaps
import UsdtPir.UpdatePipeline

/-!
# Where the entries come from

The map, the change sets and the batches hold nothing but what the process was
started with and what it read: the two balances of an entry come from one
multicall, and from the calls for that very address.
-/

namespace UsdtPir

open Interaction
open Program

variable {good : Address → Entry → Prop}

/-- An entry with the balances that were read for its address is good. -/
def Admits (truth : (q : Request) → Answer q → Prop)
    (good : Address → Entry → Prop) : Prop :=
  ∀ block a e, Answered truth block a e.reading → good a e

/-- Every entry that the process holds is good, and every one it has sent. -/
structure Process.Vouched (good : Address → Entry → Prop) (s : Process) :
    Prop where
  map : ∀ a e, s.map.get a = some e → good a e
  changed : ∀ a e, s.changed.lookup a = some e → good a e
  sent : ∀ batch ∈ s.sent, ∀ row ∈ batch, good row.1 row.2

section Syncing

variable {truth : (q : Request) → Answer q → Prop} {cfg : FollowConfig}
    {lo hi lo' toBlock : ℕ} {s s₁ s' : Process} {a : Address}

theorem mem_readingsOf {x : Reading × Touch} {history : List Application}
    (hx : x ∈ readingsOf a history) :
    ∃ y ∈ history, y.addr = a ∧ (y.reading, y.seen) = x := by
  obtain ⟨y, hy, hsame⟩ := List.mem_map.mp hx
  obtain ⟨hmem, haddr⟩ := List.mem_filter.mp hy
  exact ⟨y, hmem, by simpa using haddr, hsame⟩

theorem Process.Vouched.congr (h : s.Vouched good) (hmap : s'.map.inner = s.map.inner)
    (hchanged : s'.changed = s.changed) (hsent : s'.sent = s.sent) :
    s'.Vouched good := by
  constructor
  · intro a e hget
    apply h.map a e
    unfold BalanceMap.get at hget ⊢
    rw [← hmap]
    exact hget
  · rw [hchanged]
    exact h.changed
  · rw [hsent]
    exact h.sent

theorem ChunkApplied.vouched (hadmits : Admits truth good)
    (h : ChunkApplied truth lo hi s s') (hs : s.Vouched good) :
    s'.Vouched good := by
  obtain ⟨logs, stats, addrs, touched, rows, s₁, -, hrange, hs', -⟩ := h
  obtain ⟨out, happlied, -, hs₁⟩ := hrange.applied
  have hcells : ∀ a, Journal.Rules.Holds (good a) (cellAt (s₁.map, out) a) := by
    intro a
    rw [cellAt_applyReadings happlied a]
    apply Journal.Rules.Holds.foldl
    · intro x hx
      obtain ⟨y, hy, haddr, hsame⟩ := mem_readingsOf hx
      obtain ⟨row, hrow, rfl⟩ := List.mem_map.mp hy
      have hanswered : Answered truth hi a x.1 := by
        rw [← hsame, ← haddr]
        exact hrange.answered row.1 row.2 hrow
      exact ⟨hadmits hi a _ hanswered, fun v => hadmits hi a _ hanswered⟩
    · exact ⟨hs.map a, hs.changed a⟩
  have hsent : s'.sent = s.sent := by
    rw [hs', hs₁]
  constructor
  · intro a e hget
    rw [hs'] at hget
    exact (hcells a).1 e hget
  · intro a e hlookup
    rw [hs', hs₁] at hlookup
    exact (hcells a).2 e hlookup
  · rw [hsent]
    exact hs.sent

theorem Chunks.vouched (hadmits : Admits truth good)
    (h : Chunks truth cfg toBlock lo s lo' s') (hs : s.Vouched good) :
    s'.Vouched good := by
  induction h with
  | nil lo s => exact hs
  | cons hlo hhi hchunk hrest ih => exact ih (hchunk.vouched hadmits hs)

/-- What is held after readings was held before, or is one of them. -/
theorem foldl_applyEntry {held : Option Entry} {xs : List (Reading × Touch)}
    (hheld : ∀ e, held = some e → good a e)
    (hmade : ∀ x ∈ xs, ∀ e : Entry, e.reading = x.1 → good a e) :
    ∀ e, xs.foldl applyEntry held = some e → good a e := by
  induction xs generalizing held with
  | nil => exact hheld
  | cons x xs ih =>
      apply ih
      · intro e he
        unfold applyEntry at he
        split at he
        · cases he
        · apply hmade x List.mem_cons_self
          cases held <;> cases he <;> rfl
      · intro y hy
        exact hmade y (List.mem_cons_of_mem _ hy)

theorem RepairStep.vouched (hadmits : Admits truth good)
    (h : RepairStep truth cfg s s') (hs : s.Vouched good) : s'.Vouched good := by
  cases h with
  | final | unknown | same => exact hs
  | repaired htip hhash hanswer hne hrepaired =>
      obtain ⟨rows, map, -, -, hanswered, hmap, hs'⟩ := hrepaired
      rw [hs']
      constructor
      · intro a
        change ∀ e, map.get a = some e → good a e
        rw [applyCorrections_get hmap a]
        apply foldl_applyEntry (hs.map a)
        intro x hx e he
        obtain ⟨y, hy, haddr, hsame⟩ := mem_readingsOf hx
        obtain ⟨row, hrow, rfl⟩ := List.mem_map.mp hy
        apply hadmits (s.map.cursor - cfg.reorgWindow) a e
        rw [he, ← hsame, ← haddr]
        exact hanswered row.1 row.2 hrow
      · exact hs.changed
      · exact hs.sent

theorem SyncStarted.vouched {target : ℕ} (h : SyncStarted cfg target s s')
    (hs : s.Vouched good) : s'.Vouched good := by
  obtain ⟨progress, rfl⟩ := h
  constructor
  · exact hs.map
  · intro a e hnone
    cases hnone
  · exact hs.sent

/-- Nothing is left to prune. -/
theorem Chunks.pruned_map {target : ℕ} {s₂ : Process}
    (hstart : SyncStarted cfg target s s₁)
    (hchunks : Chunks truth cfg target lo s₁ lo' s₂) :
    (s₂.pruned cfg).map = s₂.map := by
  obtain ⟨progress, rfl⟩ := hstart
  obtain ⟨new, hnew⟩ := hchunks.journaled
  unfold Process.pruned
  rw [hnew.pruned_eq]

variable {stages : Stages} {outcome : Except Failure Unit}

theorem AdvanceFails.vouched {target : ℕ} (hadmits : Admits stages.scan good)
    (h : AdvanceFails stages.scan stages.store cfg target s s')
    (hs : s.Vouched good) : s'.Vouched good := by
  cases h with
  | syncing hlt hstart hchunks => exact hchunks.vouched hadmits (hstart.vouched hs)
  | finishing hlt hstart hchunks hend hwatch hsaved hstate =>
      have hafter := hchunks.vouched hadmits (hstart.vouched hs)
      rw [hstate]
      apply hafter.congr
      · exact congrArg BalanceMap.inner (hchunks.pruned_map hstart)
      · rfl
      · rfl

theorem PassFails.vouched (hcheck : Admits stages.check good)
    (hscan : Admits stages.scan good) (h : PassFails stages cfg s s')
    (hs : s.Vouched good) : s'.Vouched good := by
  cases h with
  | checking => exact hs
  | resolving hrepair => exact hrepair.vouched hcheck hs
  | advancing hrepair htarget hfails =>
      exact hfails.vouched hscan (hrepair.vouched hcheck hs)

theorem PassOk.vouched (hcheck : Admits stages.check good)
    (hscan : Admits stages.scan good) (h : PassOk stages cfg true s s')
    (hs : s.Vouched good) : s'.Vouched good := by
  obtain ⟨hrepair, htarget, hadvanced⟩ := h
  have hrepaired := hrepair.vouched hcheck hs
  cases hadvanced with
  | idle hle => exact hrepaired
  | @synced s₁ s₂ s' lo' hlt hstart hchunks hend hwatch hpublished hstate =>
      have hafter := hchunks.vouched hscan (hstart.vouched hrepaired)
      have hchanged : s'.changed = s₂.changed := by
        rw [hstate]
        rfl
      constructor
      · intro a e hget
        rw [hstate] at hget
        change (s₂.pruned cfg).map.get a = some e at hget
        rw [hchunks.pruned_map hstart] at hget
        exact hafter.map a e hget
      · rw [hchanged]
        exact hafter.changed
      · intro batch hbatch row hrow
        obtain ⟨-, hnothing⟩ | ⟨-, new, hlists, hsent⟩ := hpublished
        · rw [hnothing] at hbatch
          exact hafter.sent batch hbatch row hrow
        · rw [hsent] at hbatch
          obtain hold | hlast := List.mem_append.mp hbatch
          · exact hafter.sent batch hold row hrow
          · rw [List.mem_singleton.mp hlast] at hrow
            exact hafter.changed row.1 row.2 ((hlists.mem_iff _ _).mp hrow)

/-- However a round ends. -/
theorem Round.vouched (hcheck : Admits stages.check good)
    (hscan : Admits stages.scan good)
    (h : Round stages cfg true s outcome s') (hs : s.Vouched good) :
    s'.Vouched good := by
  obtain ⟨-, s₁, hok, hs'⟩ | ⟨chain, -, s₁, hfails, -, hs'⟩ := h
  · have hafter := hok.vouched hcheck hscan hs
    rw [hs']
    exact hafter.congr rfl rfl rfl
  · have hafter := hfails.vouched hcheck hscan hs
    rw [hs']
    exact hafter.congr rfl rfl rfl

end Syncing

/-! ## On the PIR thread -/

section Serving

variable {P : EthPir} {content : P.Server → Address → Option Entry}
    {pir : PirConfig} {thread thread' : PirThread P} {e : PirEvent P}

structure PirThread.Vouched (content : P.Server → Address → Option Entry)
    (good : Address → Entry → Prop) (thread : PirThread P) : Prop where
  unabsorbed : ∀ row ∈ thread.unabsorbed, good row.1 row.2
  current : ∀ a entry, thread.worker.current.lookup a = some entry → good a entry
  content : ∀ a entry, content thread.server a = some entry → good a entry
  database : ∀ a entry, (P.database thread.server).Says a entry → good a entry

theorem Opens.vouched {initial : PirSnapshot} {files : KeywordFiles P}
    {fresh : Bool} (hlaws : P.Absorbs content)
    (hopen : Opens P initial files fresh thread)
    (hinitial : ∀ a entry, initial.lookup a = some entry → good a entry) :
    thread.Vouched content good := by
  have hcontent : content thread.server = (fun a => initial.lookup a) ∧
      (P.database thread.server).Stores (content thread.server) := by
    cases hopen with
    | restored hload hcall hempty =>
        exact ⟨hlaws.restore_content hcall, hlaws.restore_database hcall⟩
    | built hload hcall hempty =>
        exact ⟨hlaws.init_content hcall, hlaws.init_database hcall⟩
  obtain ⟨hcontent, hstores⟩ := hcontent
  constructor
  · intro row hrow
    cases hopen <;> cases hrow
  · cases hopen <;> exact hinitial
  · rw [hcontent]
    exact hinitial
  · intro a entry hsays
    have hstored := (hstores a entry).mp hsays
    rw [hcontent] at hstored
    exact hinitial a entry hstored

namespace PirThread.Vouched

/-- The database is the one before, or is made of what is absorbed. -/
theorem move (h : thread.Vouched content good)
    (hrows : ∀ row ∈ thread'.unabsorbed, good row.1 row.2)
    (hcurrent : ∀ a entry, thread'.worker.current.lookup a = some entry →
      good a entry)
    (hcontent : ∀ a entry, content thread'.server a = some entry →
      good a entry)
    (hdatabase : P.database thread'.server = P.database thread.server ∨
      (P.database thread'.server).Stores (content thread'.server)) :
    thread'.Vouched content good := by
  refine ⟨hrows, hcurrent, hcontent, ?_⟩
  intro a entry hsays
  cases hdatabase with
  | inl hsame =>
      apply h.database a entry
      rw [← hsame]
      exact hsays
  | inr hstores => exact hcontent a entry ((hstores a entry).mp hsays)

theorem update {addr : Address} {entry : Entry} {rest : UpdateBatch}
    {answer : Except P.Fault Unit} {server : P.Server}
    (hlaws : P.Absorbs content) (hinstalls : P.Installs)
    (hphase : thread.phase = .absorbing ((addr, entry) :: rest))
    (hcall : P.update thread.server addr entry answer server)
    (h : thread.Vouched content good) :
    PirThread.Vouched content good
      { thread with
        phase := .absorbing rest
        server
        worker := thread.worker.absorbOne addr entry answer } := by
  have hrows : ∀ row ∈ (addr, entry) :: rest, good row.1 row.2 := by
    intro row hrow
    apply h.unabsorbed row
    unfold PirThread.unabsorbed
    rw [hphase]
    exact hrow
  have hentry : good addr entry := hrows (addr, entry) List.mem_cons_self
  apply h.move
  · intro row hrow
    exact hrows row (List.mem_cons_of_mem _ hrow)
  · intro a held hlookup
    cases answer with
    | error fault => exact h.current a held hlookup
    | ok done =>
        unfold PirWorker.absorbOne PirWorker.recordAbsorbed
          PirWorker.recordCurrentValue at hlookup
        dsimp only at hlookup
        split at hlookup
        · exact h.current a held (lookup_of_erase hlookup).2
        · obtain ⟨rfl, rfl⟩ | ⟨-, hold⟩ := lookup_of_insert hlookup
          · exact hentry
          · exact h.current a held hold
  · intro a held hcontent
    cases answer with
    | error fault =>
        rw [hlaws.update_fails hcall] at hcontent
        exact h.content a held hcontent
    | ok done =>
        rw [hlaws.update_content hcall] at hcontent
        by_cases heq : a = addr
        · subst heq
          rw [Function.update_self, Option.some.injEq] at hcontent
          rw [← hcontent]
          exact hentry
        · rw [Function.update_of_ne heq] at hcontent
          exact h.content a held hcontent
  · exact .inl (hinstalls.update_database hcall)

theorem step (hlaws : P.Absorbs content) (hinstalls : P.Installs)
    (hstep : PirStep P pir thread e thread')
    (hbrings : ∀ row ∈ e.brings, good row.1 row.2)
    (h : thread.Vouched content good) : thread'.Vouched content good := by
  cases hstep with
  | recv hphase => exact h.move hbrings h.current h.content (.inl rfl)
  | update hphase hcall => exact h.update hlaws hinstalls hphase hcall
  | @publish answer server hphase hcall =>
      have hcontent := hlaws.publish_content hcall
      apply h.move
      · intro row hrow
        cases hrow
      · cases answer with
        | ok done => cases done <;> exact h.current
        | error fault => exact h.current
      · rw [hcontent]
        exact h.content
      · cases answer with
        | ok done => exact .inr (hlaws.publish_database hcall)
        | error fault => exact .inl (hinstalls.publish_fails hcall)
  | rebuilt hphase htest hcall =>
      apply h.move
      · intro row hrow
        cases hrow
      · exact h.current
      · rw [hlaws.rebuild_content hcall]
        exact h.current
      · exact .inr (hlaws.rebuild_database hcall)
  | rebuildFails hphase htest hcall =>
      apply h.move
      · intro row hrow
        cases hrow
      · exact h.current
      · rw [hlaws.rebuild_fails hcall]
        exact h.content
      · exact .inl (hinstalls.rebuild_keeps hcall)
  | _ => exact h.move nofun h.current h.content (.inl rfl)

end PirThread.Vouched

end Serving

end UsdtPir
