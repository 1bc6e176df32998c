import UsdtPir.ChangeSet

/-!
# The statistics of a range

Every reading of a range is counted once, by what applying it did.  What it
does depends on the entry held for its own address only, so the counts do not
depend on the order of the readings, and they say how the map grew.
-/

namespace UsdtPir

/-- What applying a reading does to an address, when it does not panic. -/
def appliedTo (held : Option Entry) (r : Reading) (seen : Touch) : Applied :=
  match held with
  | some e =>
      if r.isZero then .removed (mergeEntry e r seen)
      else if mergeEntry e r seen = e then .unchanged
      else .updated
  | none => if r.isZero then .skippedNewZero else .inserted

/-- The statistics with one more reading counted. -/
def BatchStats.count (stats : BatchStats) : Applied → BatchStats
  | .inserted => { stats with inserted := stats.inserted + 1 }
  | .updated => { stats with updated := stats.updated + 1 }
  | .removed _ => { stats with removed := stats.removed + 1 }
  | .unchanged => { stats with unchanged := stats.unchanged + 1 }
  | .skippedNewZero => { stats with skippedNewZero := stats.skippedNewZero + 1 }

theorem BatchStats.count_comm (stats : BatchStats) (a b : Applied) :
    (stats.count a).count b = (stats.count b).count a := by
  cases a <;> cases b <;> rfl

/-- The readings a batch has settled. -/
def BatchStats.settled (stats : BatchStats) : ℕ :=
  stats.inserted + stats.updated + stats.removed + stats.unchanged +
    stats.skippedNewZero

@[simp]
theorem BatchStats.settled_count (stats : BatchStats) (applied : Applied) :
    (stats.count applied).settled = stats.settled + 1 := by
  cases applied <;> simp only [count, settled] <;> omega

@[simp]
theorem BatchStats.touched_count (stats : BatchStats) (applied : Applied) :
    (stats.count applied).touched = stats.touched := by
  cases applied <;> rfl

theorem recordApplyResult_stats (applied : Applied) (addr : Address)
    (out : ApplyOutputs) :
    (recordApplyResult applied addr out).stats = out.stats.count applied := by
  cases applied with
  | removed entry =>
      simp only [recordApplyResult, recordRemoved]
      split <;> rfl
  | _ => rfl

theorem BalanceMap.apply_eq_appliedTo {map map' : BalanceMap} {addr : Address}
    {r : Reading} {seen : Touch} {applied : Applied}
    (h : map.apply addr r seen = some (applied, map')) :
    applied = appliedTo (map.get addr) r seen := by
  rcases BalanceMap.apply_cases h with ⟨e, hget, hzero, rfl, -⟩ |
    ⟨e, hget, hzero, rfl, -⟩ | ⟨hget, hzero, rfl, -⟩ | ⟨hget, hzero, rfl, -⟩
  · simp [appliedTo, hget, hzero]
  · simp [appliedTo, hget, hzero]
  · simp [appliedTo, hget, hzero]
  · simp [appliedTo, hget, hzero]

theorem BalanceMap.len_eq_keys (map : BalanceMap) :
    map.len = map.inner.keys.length := by
  rw [AList.keys, List.keys, List.length_map]
  rfl

theorem BalanceMap.len_erase {map : BalanceMap} {addr : Address}
    (h : addr ∈ map.inner) :
    BalanceMap.len { map with inner := map.inner.erase addr } + 1 = map.len := by
  have hmem : addr ∈ map.inner.keys := AList.mem_keys.mp h
  have hpos : 0 < map.inner.keys.length := List.length_pos_of_mem hmem
  rw [BalanceMap.len_eq_keys, BalanceMap.len_eq_keys, AList.keys_erase,
    List.length_erase_of_mem hmem]
  omega

theorem BalanceMap.len_insert_mem {map : BalanceMap} {addr : Address}
    (h : addr ∈ map.inner) (e : Entry) :
    BalanceMap.len { map with inner := map.inner.insert addr e } = map.len := by
  have hmem : addr ∈ map.inner.keys := AList.mem_keys.mp h
  have hpos : 0 < map.inner.keys.length := List.length_pos_of_mem hmem
  rw [BalanceMap.len_eq_keys, BalanceMap.len_eq_keys, AList.keys_insert,
    List.length_cons, List.length_erase_of_mem hmem]
  omega

theorem BalanceMap.len_insert_new {map : BalanceMap} {addr : Address}
    (h : addr ∉ map.inner) (e : Entry) :
    BalanceMap.len { map with inner := map.inner.insert addr e } =
      map.len + 1 := by
  have hnot : addr ∉ map.inner.keys := fun hmem => h (AList.mem_keys.mpr hmem)
  rw [BalanceMap.len_eq_keys, BalanceMap.len_eq_keys, AList.keys_insert,
    List.length_cons, List.erase_of_not_mem hnot]

theorem BalanceMap.mem_of_get {map : BalanceMap} {addr : Address} {e : Entry}
    (h : map.get addr = some e) : addr ∈ map.inner := by
  rw [BalanceMap.get] at h
  rw [← AList.lookup_isSome, h]
  rfl

/-- An insertion adds an entry, a removal takes one away, and nothing else
changes their number. -/
theorem BalanceMap.apply_len {map map' : BalanceMap} {addr : Address}
    {r : Reading} {seen : Touch} {applied : Applied}
    (h : map.apply addr r seen = some (applied, map')) (stats : BatchStats) :
    map'.len + (stats.count applied).removed + stats.inserted =
      map.len + (stats.count applied).inserted + stats.removed := by
  rcases BalanceMap.apply_cases h with ⟨e, hget, -, rfl, rfl⟩ |
    ⟨e, hget, -, rfl, rfl⟩ | ⟨hget, -, rfl, rfl⟩ | ⟨hget, -, rfl, rfl⟩
  · have herase := BalanceMap.len_erase (BalanceMap.mem_of_get hget)
    simp only [BatchStats.count]
    omega
  · rw [BalanceMap.len_insert_mem (BalanceMap.mem_of_get hget)]
    split
    · simp only [BatchStats.count]
      omega
    · simp only [BatchStats.count]
      omega
  · simp only [BatchStats.count]
    omega
  · have hnot : addr ∉ map.inner := AList.lookup_eq_none.mp hget
    rw [BalanceMap.len_insert_new hnot]
    simp only [BatchStats.count]
    omega

section Rows

variable {touched : HashMap Address Touch}
    {acc acc' : BalanceMap × ApplyOutputs}

theorem applyReading_stats {row : Address × Reading}
    (h : applyReading touched acc row = some acc') :
    acc'.2.stats = acc.2.stats.count (appliedTo (acc.1.get row.1) row.2
      ((touched.lookup row.1).getD default)) := by
  rcases applyReading_eq_some h with ⟨applied, happly, hout⟩
  rw [hout]
  show (recordApplyResult applied row.1 acc.2).stats = _
  rw [recordApplyResult_stats, BalanceMap.apply_eq_appliedTo happly]

theorem applyReading_len {row : Address × Reading}
    (h : applyReading touched acc row = some acc') :
    acc'.1.len + acc'.2.stats.removed + acc.2.stats.inserted =
      acc.1.len + acc'.2.stats.inserted + acc.2.stats.removed := by
  rcases applyReading_eq_some h with ⟨applied, happly, hout⟩
  have hstats : acc'.2.stats = acc.2.stats.count applied := by
    rw [hout]
    exact recordApplyResult_stats applied row.1 acc.2
  rw [hstats]
  exact BalanceMap.apply_len happly acc.2.stats

/-- What a reading does to its address, in the map the range starts from. -/
def rowApplied (map : BalanceMap) (touched : HashMap Address Touch)
    (row : Address × Reading) : Applied :=
  appliedTo (map.get row.1) row.2 ((touched.lookup row.1).getD default)

/-- The statistics of a range count what each reading did to the entry its
address held before the range. -/
theorem applyReadings_stats {rows : List (Address × Reading)}
    (h : applyReadings touched rows acc = some acc')
    (hnodup : (rows.map Prod.fst).Nodup) :
    acc'.2.stats =
      (rows.map (rowApplied acc.1 touched)).foldl BatchStats.count
        acc.2.stats := by
  induction rows generalizing acc with
  | nil =>
      simp only [applyReadings, Option.some.injEq] at h
      rw [← h]
      rfl
  | cons row rest ih =>
      simp only [applyReadings, Option.bind_eq_bind,
        Option.bind_eq_some_iff] at h
      rcases h with ⟨middle, hrow, hrest⟩
      rw [List.map_cons, List.nodup_cons] at hnodup
      have hsame : rest.map (rowApplied middle.1 touched) =
          rest.map (rowApplied acc.1 touched) := by
        apply List.map_congr_left
        intro other hother
        have hne : other.1 ≠ row.1 :=
          ne_of_mem_of_not_mem (List.mem_map_of_mem hother) hnodup.1
        have hcell := cellAt_applyReading_ne hrow hne
        have hget : middle.1.get other.1 = acc.1.get other.1 :=
          congrArg Journal.Cell.current hcell
        rw [rowApplied, hget, rowApplied]
      rw [ih hrest hnodup.2, hsame, applyReading_stats hrow, List.map_cons,
        List.foldl_cons]
      rfl

/-- The map grows by what was inserted less what was removed. -/
theorem applyReadings_len {rows : List (Address × Reading)}
    (h : applyReadings touched rows acc = some acc') :
    acc'.1.len + acc'.2.stats.removed + acc.2.stats.inserted =
      acc.1.len + acc'.2.stats.inserted + acc.2.stats.removed := by
  induction rows generalizing acc with
  | nil =>
      simp only [applyReadings, Option.some.injEq] at h
      rw [← h]
      omega
  | cons row rest ih =>
      simp only [applyReadings, Option.bind_eq_bind,
        Option.bind_eq_some_iff] at h
      rcases h with ⟨middle, hrow, hrest⟩
      have hfirst := applyReading_len hrow
      have hlater := ih hrest
      omega

theorem applyReadings_settled {rows : List (Address × Reading)}
    (h : applyReadings touched rows acc = some acc') :
    acc'.2.stats.settled = acc.2.stats.settled + rows.length ∧
      acc'.2.stats.touched = acc.2.stats.touched := by
  induction rows generalizing acc with
  | nil =>
      simp only [applyReadings, Option.some.injEq] at h
      rw [← h]
      exact ⟨rfl, rfl⟩
  | cons row rest ih =>
      simp only [applyReadings, Option.bind_eq_bind,
        Option.bind_eq_some_iff] at h
      rcases h with ⟨middle, hrow, hrest⟩
      have hfirst := applyReading_stats hrow
      rcases ih hrest with ⟨hsettled, htouched⟩
      rw [hfirst, BatchStats.settled_count] at hsettled
      rw [hfirst, BatchStats.touched_count] at htouched
      refine ⟨?_, htouched⟩
      rw [hsettled, List.length_cons]
      omega

end Rows

end UsdtPir
