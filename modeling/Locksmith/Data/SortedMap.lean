namespace Locksmith

open Std

/-- A finite map from `κ` to `υ`, as a list in increasing order of its keys. Two maps with the
same look-ups are equal. -/
structure SortedMap (κ υ : Type) [Ord κ] where
  toList : List (κ × υ)
  sorted : toList.Pairwise fun p q => compare p.1 q.1 = .lt

namespace SortedMap

variable {κ υ : Type} [Ord κ]

theorem toList_inj {m n : SortedMap κ υ} (h : m.toList = n.toList) : m = n := by
  cases m; cases n; cases h; rfl

instance [DecidableEq κ] [DecidableEq υ] : DecidableEq (SortedMap κ υ) := fun m n =>
  decidable_of_iff (m.toList = n.toList) ⟨toList_inj, fun h => h ▸ rfl⟩

def empty : SortedMap κ υ := ⟨[], .nil⟩

instance : EmptyCollection (SortedMap κ υ) := ⟨empty⟩
instance : Inhabited (SortedMap κ υ) := ⟨empty⟩

/-- The value of a key in a list of entries. -/
def find (k : κ) : List (κ × υ) → Option υ
  | [] => none
  | (a, b) :: r => if compare k a = .eq then some b else find k r

def get? (m : SortedMap κ υ) (k : κ) : Option υ := find k m.toList

def contains (m : SortedMap κ υ) (k : κ) : Bool := (m.get? k).isSome

def keys (m : SortedMap κ υ) : List κ := m.toList.map (·.1)

/-- The values in the order of their keys. -/
def values (m : SortedMap κ υ) : List υ := m.toList.map (·.2)

def size (m : SortedMap κ υ) : Nat := m.toList.length

/-- Puts an entry where it belongs, over an entry with the same key. -/
def insertEntry (k : κ) (v : υ) : List (κ × υ) → List (κ × υ)
  | [] => [(k, v)]
  | (a, b) :: r =>
    match compare k a with
    | .lt => (k, v) :: (a, b) :: r
    | .eq => (k, v) :: r
    | .gt => (a, b) :: insertEntry k v r

theorem mem_insertEntry {k : κ} {v : υ} {l : List (κ × υ)} {p : κ × υ}
    (h : p ∈ insertEntry k v l) : p = (k, v) ∨ p ∈ l := by
  fun_induction insertEntry k v l with
  | case1 => simpa using h
  | case2 => simpa using h
  | case3 => exact (List.mem_cons.1 h).imp_right (List.mem_cons_of_mem _)
  | case4 a b r _ ih =>
    rcases List.mem_cons.1 h with rfl | h
    · simp
    · rcases ih h with rfl | h <;> simp [*]

theorem insertEntry_sorted [TransOrd κ] [LawfulEqOrd κ] (k : κ) (v : υ) {l : List (κ × υ)}
    (h : l.Pairwise fun p q => compare p.1 q.1 = .lt) :
    (insertEntry k v l).Pairwise fun p q => compare p.1 q.1 = .lt := by
  fun_induction insertEntry k v l with
  | case1 => simp
  | case2 a b r hk =>
    refine List.pairwise_cons.2 ⟨?_, h⟩
    intro q hq
    rcases List.mem_cons.1 hq with rfl | hq
    · exact hk
    · exact TransCmp.lt_trans hk ((List.pairwise_cons.1 h).1 q hq)
  | case3 a b r hk =>
    have := LawfulEqOrd.eq_of_compare hk
    subst this
    exact List.pairwise_cons.2 (List.pairwise_cons.1 h)
  | case4 a b r hk ih =>
    have hr := List.pairwise_cons.1 h
    refine List.pairwise_cons.2 ⟨?_, ih hr.2⟩
    intro q hq
    rcases mem_insertEntry hq with rfl | hq
    · exact OrientedCmp.lt_of_gt hk
    · exact hr.1 q hq

/-- Adds an entry, or replaces the value of a key. -/
def insert [TransOrd κ] [LawfulEqOrd κ] (m : SortedMap κ υ) (k : κ) (v : υ) : SortedMap κ υ :=
  ⟨insertEntry k v m.toList, insertEntry_sorted k v m.sorted⟩

/-- Keeps the entries that satisfy a condition. -/
def filter (m : SortedMap κ υ) (p : κ → υ → Bool) : SortedMap κ υ :=
  ⟨m.toList.filter fun e => p e.1 e.2, m.sorted.filter _⟩

def erase (m : SortedMap κ υ) (k : κ) : SortedMap κ υ :=
  m.filter fun a _ => compare k a != .eq

/-- Applies a function to the value of a key, if it has one. -/
def modify [TransOrd κ] [LawfulEqOrd κ] (m : SortedMap κ υ) (k : κ) (f : υ → υ) :
    SortedMap κ υ :=
  match m.get? k with
  | some v => m.insert k (f v)
  | none => m

/-- The map with the given entries; of two with one key the later counts. -/
def ofList [TransOrd κ] [LawfulEqOrd κ] (l : List (κ × υ)) : SortedMap κ υ :=
  l.foldl (fun m e => m.insert e.1 e.2) empty

theorem find_insertEntry [TransOrd κ] [LawfulEqOrd κ] (k a : κ) (v : υ) (l : List (κ × υ)) :
    find a (insertEntry k v l) = if compare a k = .eq then some v else find a l := by
  fun_induction insertEntry k v l with
  | case1 => simp [find]
  | case2 => simp [find]
  | case3 b w r hk =>
    have := LawfulEqOrd.eq_of_compare hk
    subst this
    simp only [find]
    split <;> rfl
  | case4 b w r hk ih =>
    simp only [find, ih]
    by_cases hb : compare a b = .eq
    · have := LawfulEqOrd.eq_of_compare hb
      subst this
      have : compare a k = .lt := OrientedCmp.lt_of_gt hk
      simp [this]
    · simp [hb]

@[simp] theorem get?_empty (k : κ) : (empty : SortedMap κ υ).get? k = none := rfl

theorem get?_insert [TransOrd κ] [LawfulEqOrd κ] (m : SortedMap κ υ) (k a : κ) (v : υ) :
    (m.insert k v).get? a = if compare a k = .eq then some v else m.get? a :=
  find_insertEntry k a v m.toList

theorem get?_insert_self [TransOrd κ] [LawfulEqOrd κ] (m : SortedMap κ υ) (k : κ) (v : υ) :
    (m.insert k v).get? k = some v := by
  rw [get?_insert, if_pos ReflCmp.compare_self]

theorem get?_insert_of_ne [TransOrd κ] [LawfulEqOrd κ] (m : SortedMap κ υ) {k a : κ} (v : υ)
    (h : a ≠ k) : (m.insert k v).get? a = m.get? a := by
  rw [get?_insert, if_neg fun hc => h (LawfulEqCmp.eq_of_compare hc)]

theorem find_eq_none_of_lt [TransOrd κ] {k : κ} {l : List (κ × υ)}
    (h : ∀ p ∈ l, compare k p.1 = .lt) : find k l = none := by
  induction l with
  | nil => rfl
  | cons p r ih =>
    have hp := h p (by simp)
    rw [find, if_neg (by simp [hp]), ih fun q hq => h q (by simp [hq])]

theorem get?_erase [TransOrd κ] [LawfulEqOrd κ] (m : SortedMap κ υ) (k a : κ) :
    (m.erase k).get? a = if compare a k = .eq then none else m.get? a := by
  simp only [erase, get?, filter]
  induction m.toList with
  | nil => simp [find]
  | cons p r ih =>
    obtain ⟨b, w⟩ := p
    by_cases hb : compare k b = .eq
    · have := LawfulEqOrd.eq_of_compare hb
      subst this
      simp only [List.filter_cons, hb, bne_self_eq_false, Bool.false_eq_true,
        if_false, ih, find]
      split <;> rfl
    · simp only [List.filter_cons, bne_iff_ne, ne_eq, hb, not_false_eq_true, if_true, find, ih]
      by_cases ha : compare a b = .eq
      · have := LawfulEqOrd.eq_of_compare ha
        subst this
        have : compare a k ≠ .eq := fun h => hb (OrientedCmp.eq_symm h)
        simp [this]
      · simp [ha]

/-- A map is determined by its look-ups. -/
theorem ext_get? [TransOrd κ] [LawfulEqOrd κ] {m n : SortedMap κ υ}
    (h : ∀ k, m.get? k = n.get? k) : m = n := by
  apply toList_inj
  obtain ⟨l, hl⟩ := m
  obtain ⟨r, hr⟩ := n
  simp only [get?] at h ⊢
  induction l generalizing r with
  | nil =>
    cases r with
    | nil => rfl
    | cons p r => have := h p.1; simp [find] at this
  | cons p l ih =>
    cases r with
    | nil => have := h p.1; simp [find] at this
    | cons q r =>
      have hl' := List.pairwise_cons.1 hl
      have hr' := List.pairwise_cons.1 hr
      have key : p.1 = q.1 := by
        cases hc : compare p.1 q.1 with
        | eq => exact LawfulEqOrd.eq_of_compare hc
        | lt =>
          have hp := h p.1
          rw [find, if_pos (by simp), find_eq_none_of_lt] at hp
          · simp at hp
          · intro x hx
            rcases List.mem_cons.1 hx with rfl | hx
            · exact hc
            · exact TransCmp.lt_trans hc (hr'.1 x hx)
        | gt =>
          have hc := OrientedCmp.lt_of_gt hc
          have hq := (h q.1).symm
          rw [find, if_pos (by simp), find_eq_none_of_lt] at hq
          · simp at hq
          · intro x hx
            rcases List.mem_cons.1 hx with rfl | hx
            · exact hc
            · exact TransCmp.lt_trans hc (hl'.1 x hx)
      obtain ⟨k, v⟩ := p
      obtain ⟨k', w⟩ := q
      simp only at key
      subst key
      have hv : v = w := by simpa [find] using h k
      subst hv
      have : l = r := by
        apply ih hl'.2 r hr'.2
        intro a
        have ha := h a
        simp only [find] at ha
        split at ha
        · rename_i hak
          have := LawfulEqOrd.eq_of_compare hak
          subst this
          rw [find_eq_none_of_lt hl'.1, find_eq_none_of_lt hr'.1]
        · exact ha
      rw [this]

end SortedMap
end Locksmith
