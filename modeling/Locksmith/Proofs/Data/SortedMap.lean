import Mathlib
import Locksmith.Data.SortedMap

namespace Locksmith
namespace SortedMap

open Std

variable {κ υ : Type} [Ord κ]

theorem nodup_keys [TransOrd κ] [LawfulEqOrd κ] (m : SortedMap κ υ) : m.keys.Nodup := by
  refine List.pairwise_map.2 (m.sorted.imp fun {p q} hlt heq => ?_)
  rw [heq, (ReflCmp.compare_self : compare q.1 q.1 = .eq)] at hlt
  cases hlt

theorem mem_toList [TransOrd κ] [LawfulEqOrd κ] {m : SortedMap κ υ} {k : κ} {v : υ} :
    (k, v) ∈ m.toList ↔ m.get? k = some v := by
  obtain ⟨l, hl⟩ := m
  simp only [get?]
  induction l with
  | nil => simp [find]
  | cons p r ih =>
    obtain ⟨a, b⟩ := p
    obtain ⟨hfirst, hrest⟩ := List.pairwise_cons.1 hl
    rw [List.mem_cons, find, ih hrest]
    by_cases hk : compare k a = .eq
    · have hka := LawfulEqOrd.eq_of_compare hk
      subst hka
      have hnone : find k r = none := find_eq_none_of_lt hfirst
      simp [hnone, eq_comm]
    · have hne : k ≠ a := fun h => hk (h ▸ ReflCmp.compare_self)
      simp [hk, hne]

theorem mem_values [TransOrd κ] [LawfulEqOrd κ] {m : SortedMap κ υ} {v : υ} :
    v ∈ m.values ↔ ∃ k, m.get? k = some v := by
  simp only [values, List.mem_map, Prod.exists, mem_toList, exists_eq_right]

theorem mem_keys [TransOrd κ] [LawfulEqOrd κ] {m : SortedMap κ υ} {k : κ} :
    k ∈ m.keys ↔ m.contains k = true := by
  simp only [keys, List.mem_map, Prod.exists, mem_toList, exists_and_right,
    exists_eq_right, contains, Option.isSome_iff_exists]

theorem get?_erase_self [TransOrd κ] [LawfulEqOrd κ] (m : SortedMap κ υ) (k : κ) :
    (m.erase k).get? k = none := by
  rw [get?_erase, if_pos ReflCmp.compare_self]

theorem get?_erase_of_ne [TransOrd κ] [LawfulEqOrd κ] (m : SortedMap κ υ) {k a : κ}
    (h : a ≠ k) : (m.erase k).get? a = m.get? a := by
  rw [get?_erase, if_neg fun hc => h (LawfulEqCmp.eq_of_compare hc)]

theorem erase_insert_self [TransOrd κ] [LawfulEqOrd κ] (m : SortedMap κ υ) (k : κ) (v : υ) :
    (m.insert k v).erase k = m.erase k := by
  apply ext_get?
  intro a
  by_cases h : a = k
  · rw [h, get?_erase_self, get?_erase_self]
  · rw [get?_erase_of_ne _ h, get?_erase_of_ne _ h, get?_insert_of_ne _ _ h]

theorem erase_comm [TransOrd κ] [LawfulEqOrd κ] (m : SortedMap κ υ) (k k' : κ) :
    (m.erase k).erase k' = (m.erase k').erase k := by
  apply ext_get?
  intro a
  rw [get?_erase, get?_erase, get?_erase, get?_erase]
  split
  · split
    · rfl
    · rfl
  · rfl

theorem erase_of_get? [TransOrd κ] [LawfulEqOrd κ] {m : SortedMap κ υ} {k : κ}
    (h : m.get? k = none) : m.erase k = m := by
  apply ext_get?
  intro a
  by_cases ha : a = k
  · rw [ha, get?_erase_self, h]
  · exact get?_erase_of_ne _ ha

theorem insert_of_get? [TransOrd κ] [LawfulEqOrd κ] {m : SortedMap κ υ} {k : κ} {v : υ}
    (h : m.get? k = some v) : m.insert k v = m := by
  apply ext_get?
  intro a
  by_cases ha : a = k
  · rw [ha, get?_insert_self, h]
  · exact get?_insert_of_ne _ _ ha

def mapValues {φ : Type} (f : υ → φ) (m : SortedMap κ υ) : SortedMap κ φ :=
  ⟨m.toList.map fun e => (e.1, f e.2), List.pairwise_map.2 m.sorted⟩

theorem get?_mapValues {φ : Type} (f : υ → φ) (m : SortedMap κ υ) (k : κ) :
    (m.mapValues f).get? k = (m.get? k).map f := by
  obtain ⟨l, hl⟩ := m
  simp only [get?, mapValues]
  clear hl
  induction l with
  | nil => rfl
  | cons e r ih =>
    rw [List.map_cons, find, find, ih]
    split
    · rfl
    · rfl

theorem mapValues_insert {φ : Type} [TransOrd κ] [LawfulEqOrd κ] (f : υ → φ) (m : SortedMap κ υ)
    (k : κ) (v : υ) :
    (m.insert k v).mapValues f = (m.mapValues f).insert k (f v) := by
  apply ext_get?
  intro a
  rw [get?_mapValues]
  by_cases ha : a = k
  · rw [ha, get?_insert_self, get?_insert_self, Option.map_some]
  · rw [get?_insert_of_ne _ _ ha, get?_insert_of_ne _ _ ha, get?_mapValues]

end SortedMap
end Locksmith
