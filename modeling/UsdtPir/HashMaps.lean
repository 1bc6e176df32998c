import UsdtPir.Records

/-!
# Hash maps

What is found in a map after an insertion or a removal.
-/

namespace UsdtPir

section HashMaps

variable {κ υ : Type} [DecidableEq κ] {m : HashMap κ υ} {k l : κ} {v w : υ}

theorem length_keys_erase_of_mem (h : k ∈ m) :
    (m.erase k).keys.length + 1 = m.keys.length := by
  have hkey : k ∈ m.keys := AList.mem_keys.mp h
  have hpos : 0 < m.keys.length := List.length_pos_of_mem hkey
  rw [AList.keys_erase, List.length_erase_of_mem hkey]
  omega

theorem mem_of_lookup (h : m.lookup k = some v) : k ∈ m :=
  AList.lookup_isSome.mp (by rw [h]; rfl)

theorem lookup_of_erase (h : (m.erase k).lookup l = some v) :
    l ≠ k ∧ m.lookup l = some v := by
  by_cases heq : l = k
  · subst heq
    rw [AList.lookup_erase] at h
    cases h
  · rw [AList.lookup_erase_ne heq] at h
    exact ⟨heq, h⟩

theorem lookup_of_insert (h : (m.insert k v).lookup l = some w) :
    (l = k ∧ w = v) ∨ (l ≠ k ∧ m.lookup l = some w) := by
  by_cases heq : l = k
  · subst heq
    rw [AList.lookup_insert, Option.some.injEq] at h
    exact .inl ⟨rfl, h.symm⟩
  · rw [AList.lookup_insert_ne heq] at h
    exact .inr ⟨heq, h⟩

end HashMaps

end UsdtPir
