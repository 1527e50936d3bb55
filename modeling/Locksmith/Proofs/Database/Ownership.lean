import Locksmith.Proofs.Data.SortedMap
import Locksmith.Proofs.Database.Working

namespace Locksmith
namespace Database
namespace Store

variable {s s' : Store} {d : Dbref} {key name : Bytes} {l : LockRecord} {o : Object}
  {r : ChunkRef} {loose loose' : List ChunkRef} {k k' : Nat}

def kept? (s : Store) (d : Dbref) (key : Bytes) : Option (Option LockRecord) :=
  (s.get? d).map (·.locks.get? key)

def record? (s : Store) (d : Dbref) (key : Bytes) : Option LockRecord := (s.kept? d key).join

theorem kept?_of_get? (h : s.get? d = some o) (key : Bytes) :
    s.kept? d key = some (o.locks.get? key) := by
  rw [kept?, h, Option.map_some]

theorem record?_of_get? (h : s.get? d = some o) (key : Bytes) :
    s.record? d key = o.locks.get? key := by
  rw [record?, kept?_of_get? h, Option.join_some]

theorem get?_of_record? (h : s.record? d key = some l) :
    ∃ o, s.get? d = some o ∧ o.locks.get? key = some l := by
  rcases hget : s.get? d with _ | o
  · rw [record?, kept?, hget] at h
    cases h
  · exact ⟨o, rfl, (record?_of_get? hget key).symm.trans h⟩

theorem findLock_congr
    (hkept : s'.kept? d (lockName name).toLower = s.kept? d (lockName name).toLower)
    (hchunk : ∀ l, s.record? d (lockName name).toLower = some l →
      s'.chunks.chunks.get? l.ref = s.chunks.chunks.get? l.ref) :
    s'.findLock d name = s.findLock d name := by
  simp only [findLock, Object.lock?]
  rcases hget : s.get? d with _ | o
  · rw [kept?, kept?, hget, Option.map_none, Option.map_eq_none_iff] at hkept
    rw [hkept]
  · rw [kept?_of_get? hget] at hkept
    obtain ⟨o', hget', hlocks⟩ := Option.map_eq_some_iff.1 hkept
    simp only [hget', hlocks]
    rcases hl : o.locks.get? (lockName name).toLower with _ | l
    · rfl
    · have := hchunk l (by rw [record?_of_get? hget, hl])
      simp only [codeOf, Chunk.Store.fetch, this]

theorem get?_modify (s : Store) (d : Dbref) (f : Object → Object) (d' : Dbref) :
    (s.modify d f).get? d' = if d' = d then (s.get? d).map f else s.get? d' := by
  unfold modify
  rcases hget : s.get? d with _ | o
  · by_cases hd : d' = d
    · rw [if_pos hd, hd, hget]
      rfl
    · rw [if_neg hd]
  · by_cases hd : d' = d
    · rw [if_pos hd, hd, get?, SortedMap.get?_insert_self]
      rfl
    · rw [if_neg hd, get?, SortedMap.get?_insert_of_ne _ _ hd]
      rfl

theorem chunks_modify (s : Store) (d : Dbref) (f : Object → Object) :
    (s.modify d f).chunks = s.chunks := by
  unfold modify
  split
  · rfl
  · rfl

theorem kept?_modify (h : s.get? d = some o) (f : Object → Object) (d' : Dbref) (key : Bytes) :
    (s.modify d f).kept? d' key = if d' =
      d then some ((f o).locks.get? key) else s.kept? d' key := by
  rw [kept?, get?_modify, h]
  split
  · rfl
  · rfl

theorem record?_modify (h : s.get? d = some o) (f : Object → Object) (d' : Dbref)
    (key : Bytes) :
    (s.modify d f).record? d' key = if d' =
      d then (f o).locks.get? key else s.record? d' key := by
  rw [record?, kept?_modify h]
  split
  · rfl
  · rfl

theorem retired_modify {d' : Dbref} (h : s.slots.get? d' = some .retired) (d : Dbref)
    (f : Object → Object) :
    (s.modify d f).slots.get? d' = some .retired := by
  unfold modify
  split
  · rename_i o hget
    rw [SortedMap.get?_insert_of_ne, h]
    rintro rfl
    rw [get?, h] at hget
    cases hget
  · exact h

/-- Objects stand under their own numbers, and sentinels stand for none. -/
def Numbered (s : Store) : Prop := ∀ d o, s.get? d = some o → o.id = d ∧ d.isSentinel = false

theorem Numbered.modify (h : s.Numbered) (d : Dbref) {f : Object → Object}
    (hf : ∀ o, (f o).id = o.id) : (s.modify d f).Numbered := by
  intro d' o ho
  rw [get?_modify] at ho
  split at ho
  · rename_i hd
    obtain ⟨o', hget, rfl⟩ := Option.map_eq_some_iff.1 ho
    rw [hf, hd]
    exact h d o' hget
  · exact h d' o ho

/-- Whether a chunk is kept under a reference. -/
def Holds (s : Store) (r : ChunkRef) : Prop := s.chunks.chunks.contains r = true

/-- Every chunk belongs to one lock record, or is loose, and there are `room` references left to
give away. -/
structure Owned (s : Store) (loose : List ChunkRef) (room : Nat) : Prop where
  numbered : s.Numbered
  keyed : ∀ d key l, s.record? d key = some l → key = l.name.toLower
  held : ∀ d key l, s.record? d key = some l → s.Holds l.ref
  apart : ∀ d key l d' key' l', s.record? d key = some l → s.record? d' key' = some l' →
    l.ref = l'.ref → d = d' ∧ key = key'
  looseHeld : ∀ r ∈ loose, s.Holds r
  looseApart : loose.Nodup
  free : ∀ d key l, s.record? d key = some l → l.ref ∉ loose
  owned : ∀ r, s.Holds r → r ∈ loose ∨ ∃ d key l, s.record? d key = some l ∧ l.ref = r
  given : ∀ r, s.Holds r → 0 < r.num.toNat ∧ r.num.toNat < s.chunks.next.num.toNat
  room : 0 < s.chunks.next.num.toNat ∧ s.chunks.next.num.toNat + room < 2 ^ 64

namespace Owned

theorem mono (h : s.Owned loose k) (hk : k' ≤ k) : s.Owned loose k' :=
  { h with room := ⟨h.room.1, by have := h.room.2; omega⟩ }

theorem perm (h : s.Owned loose k) (hp : loose.Perm loose') : s.Owned loose' k :=
  { h with
    looseHeld := fun r hr => h.looseHeld r (hp.mem_iff.2 hr)
    looseApart := hp.nodup_iff.1 h.looseApart
    free := fun d key l hl hmem => h.free d key l hl (hp.mem_iff.2 hmem)
    owned := fun r hr => (h.owned r hr).imp_left hp.mem_iff.1 }

/-- Records are taken away, and their chunks become loose. -/
theorem drop (h : s.Owned loose k) (hc : s'.chunks = s.chunks) (hnum : s'.Numbered)
    {out : List ChunkRef} (hn : out.Nodup)
    (hrec : ∀ d key l, s'.record? d key = some l → s.record? d key = some l)
    (hout : ∀ r, r ∈ out ↔
      ∃ d key l, s.record? d key = some l ∧ s'.record? d key = none ∧ l.ref = r) :
    s'.Owned (out ++ loose) k := by
  have hholds (r : ChunkRef) : s'.Holds r ↔ s.Holds r := by rw [Holds, Holds, hc]
  have hgone {r : ChunkRef} (hr : r ∈ out) : s.Holds r ∧ r ∉ loose := by
    obtain ⟨d, key, l, hl, -, rfl⟩ := (hout r).1 hr
    exact ⟨h.held d key l hl, h.free d key l hl⟩
  constructor
  · exact hnum
  · exact fun d key l hl => h.keyed d key l (hrec d key l hl)
  · exact fun d key l hl => (hholds _).2 (h.held d key l (hrec d key l hl))
  · exact fun d key l d' key' l' hl hl' =>
      h.apart d key l d' key' l' (hrec d key l hl) (hrec d' key' l' hl')
  · intro r hr
    rcases List.mem_append.1 hr with hr | hr
    · exact (hholds r).2 (hgone hr).1
    · exact (hholds r).2 (h.looseHeld r hr)
  · exact List.nodup_append'.2 ⟨hn, h.looseApart, fun r hr hr' => (hgone hr).2 hr'⟩
  · intro d key l hl hmem
    rcases List.mem_append.1 hmem with hmem | hmem
    · obtain ⟨d', key', l', hl', hnone, href⟩ := (hout _).1 hmem
      obtain ⟨rfl, rfl⟩ := h.apart _ _ _ _ _ _ hl' (hrec d key l hl) href
      rw [hl] at hnone
      cases hnone
    · exact h.free d key l (hrec d key l hl) hmem
  · intro r hr
    rcases h.owned r ((hholds r).1 hr) with hr | ⟨d, key, l, hl, rfl⟩
    · exact .inl (List.mem_append_right _ hr)
    · rcases hl' : s'.record? d key with _ | l'
      · exact .inl (List.mem_append_left _ ((hout _).2 ⟨d, key, l, hl, hl', rfl⟩))
      · have := hl.symm.trans (hrec d key l' hl')
        cases this
        exact .inr ⟨d, key, l, hl', rfl⟩
  · intro r hr
    rw [hc]
    exact h.given r ((hholds r).1 hr)
  · rw [hc]
    exact h.room

theorem congr (h : s.Owned loose k) (hc : s'.chunks = s.chunks) (hnum : s'.Numbered)
    (hrec : ∀ d key, s'.record? d key = s.record? d key) : s'.Owned loose k := by
  refine h.drop hc hnum List.nodup_nil (fun d key l hl => (hrec d key).symm.trans hl) fun r =>
    ?_
  constructor
  · exact fun hr => nomatch hr
  · rintro ⟨d, key, l, hl, hnone, -⟩
    rw [hrec, hl] at hnone
    cases hnone

/-- A record is put where there was none, and takes a loose chunk. -/
theorem put (h : s.Owned (l.ref :: loose) k) (hc : s'.chunks = s.chunks) (hnum : s'.Numbered)
    (hnone : s.record? d l.name.toLower = none)
    (hrec : ∀ d' key, s'.record? d' key = if d' = d ∧
      key = l.name.toLower then some l else s.record? d' key) :
    s'.Owned loose k := by
  have hholds (r : ChunkRef) : s'.Holds r ↔ s.Holds r := by rw [Holds, Holds, hc]
  obtain ⟨hfirst, hrest⟩ := List.nodup_cons.1 h.looseApart
  have hcases {d' : Dbref} {key : Bytes} {l' : LockRecord} (hl' : s'.record? d' key = some l') :
      (d' = d ∧ key = l.name.toLower ∧ l' = l) ∨ s.record? d' key = some l' ∧
      l'.ref ≠ l.ref := by
    rw [hrec] at hl'
    split at hl'
    · rename_i hat
      cases hl'
      exact .inl ⟨hat.1, hat.2, rfl⟩
    · exact .inr ⟨hl', fun href => h.free d' key l' hl' (href ▸ List.mem_cons_self)⟩
  constructor
  · exact hnum
  · intro d' key l' hl'
    rcases hcases hl' with ⟨-, hkey, rfl⟩ | ⟨hl', -⟩
    · exact hkey
    · exact h.keyed d' key l' hl'
  · intro d' key l' hl'
    rw [hholds]
    rcases hcases hl' with ⟨-, -, rfl⟩ | ⟨hl', -⟩
    · exact h.looseHeld _ List.mem_cons_self
    · exact h.held d' key l' hl'
  · intro d₁ key₁ l₁ d₂ key₂ l₂ h₁ h₂ href
    rcases hcases h₁ with ⟨rfl, rfl, rfl⟩ | ⟨h₁, hne₁⟩
    · rcases hcases h₂ with ⟨rfl, rfl, -⟩ | ⟨-, hne₂⟩
      · exact ⟨rfl, rfl⟩
      · exact absurd href.symm hne₂
    · rcases hcases h₂ with ⟨-, -, rfl⟩ | ⟨h₂, -⟩
      · exact absurd href hne₁
      · exact h.apart _ _ _ _ _ _ h₁ h₂ href
  · exact fun r hr => (hholds r).2 (h.looseHeld r (List.mem_cons_of_mem _ hr))
  · exact hrest
  · intro d' key l' hl' hmem
    rcases hcases hl' with ⟨-, -, rfl⟩ | ⟨hl', -⟩
    · exact hfirst hmem
    · exact h.free d' key l' hl' (List.mem_cons_of_mem _ hmem)
  · intro r hr
    rcases h.owned r ((hholds r).1 hr) with hr | ⟨d', key, l', hl', rfl⟩
    · rcases List.mem_cons.1 hr with rfl | hr
      · exact .inr ⟨d, _, l, by rw [hrec, if_pos ⟨rfl, rfl⟩], rfl⟩
      · exact .inl hr
    · refine .inr ⟨d', key, l', ?_, rfl⟩
      rw [hrec, if_neg, hl']
      rintro ⟨rfl, rfl⟩
      rw [hnone] at hl'
      cases hl'
  · intro r hr
    rw [hc]
    exact h.given r ((hholds r).1 hr)
  · rw [hc]
    exact h.room

theorem append (h : s.Owned loose (k + 1)) (p : Packed) :
    { s with chunks := (s.chunks.append p).2 }.Owned (s.chunks.next :: loose) k := by
  obtain ⟨hpos, hroom⟩ := h.room
  have hnext : (s.chunks.next.num + 1).toNat = s.chunks.next.num.toNat + 1 := by
    rw [UInt64.toNat_add, UInt64.toNat_one, Nat.mod_eq_of_lt (by omega)]
  have hholds (r : ChunkRef) :
      { s with chunks := (s.chunks.append p).2 }.Holds r ↔ r = s.chunks.next ∨ s.Holds r := by
    simp only [Holds, SortedMap.contains, Chunk.Store.append]
    by_cases hr : r = s.chunks.next
    · simp [hr, SortedMap.get?_insert_self]
    · simp [hr, SortedMap.get?_insert_of_ne _ _ hr]
  -- References are given away in increasing order, so the next one was never used.
  have hfresh : ¬s.Holds s.chunks.next := fun hr => (h.given _ hr).2.false
  constructor
  · exact h.numbered
  · exact h.keyed
  · exact fun d key l hl => (hholds _).2 (.inr (h.held d key l hl))
  · exact h.apart
  · intro r hr
    rw [hholds]
    exact (List.mem_cons.1 hr).imp_right (h.looseHeld r)
  · exact List.nodup_cons.2 ⟨fun hmem => hfresh (h.looseHeld _ hmem), h.looseApart⟩
  · intro d key l hl hmem
    rcases List.mem_cons.1 hmem with href | hmem
    · exact hfresh (href ▸ h.held d key l hl)
    · exact h.free d key l hl hmem
  · intro r hr
    rcases (hholds r).1 hr with rfl | hr
    · exact .inl List.mem_cons_self
    · exact (h.owned r hr).imp_left (List.mem_cons_of_mem _)
  · intro r hr
    change 0 < r.num.toNat ∧ r.num.toNat < (s.chunks.next.num + 1).toNat
    rcases (hholds r).1 hr with rfl | hr
    · omega
    · have := h.given r hr
      omega
  · change 0 < (s.chunks.next.num + 1).toNat ∧ (s.chunks.next.num + 1).toNat + k < 2 ^ 64
    omega

theorem isZero_eq_false (h : s.Owned loose k) (hr : s.Holds r) : r.isZero = false := by
  have hpos := (h.given r hr).1
  rw [ChunkRef.isZero, beq_eq_false_iff_ne]
  intro hzero
  rw [hzero] at hpos
  cases hpos

theorem releaseChunk_eq (h : s.Owned loose k) (hr : s.Holds r) :
    s.releaseChunk r =
      { s with chunks := { s.chunks with chunks := s.chunks.chunks.erase r } } := by
  rw [releaseChunk, h.isZero_eq_false hr, Chunk.Store.delete,
    show s.chunks.chunks.contains r = true from hr]
  rfl

theorem release (h : s.Owned (r :: loose) k) : (s.releaseChunk r).Owned loose k := by
  rw [h.releaseChunk_eq (h.looseHeld r List.mem_cons_self)]
  have hholds (r' : ChunkRef) :
      { s with chunks := { s.chunks with chunks := s.chunks.chunks.erase r } }.Holds r' ↔
      r' ≠ r ∧ s.Holds r' := by
    simp only [Holds, SortedMap.contains]
    by_cases hr : r' = r
    · simp [hr, SortedMap.get?_erase_self]
    · simp [hr, SortedMap.get?_erase_of_ne _ hr]
  obtain ⟨hfirst, hrest⟩ := List.nodup_cons.1 h.looseApart
  constructor
  · exact h.numbered
  · exact h.keyed
  · intro d key l hl
    have hne : l.ref ≠ r := fun href => h.free d key l hl (href ▸ List.mem_cons_self)
    exact (hholds _).2 ⟨hne, h.held d key l hl⟩
  · exact h.apart
  · intro r' hr'
    have hne : r' ≠ r := fun heq => hfirst (heq ▸ hr')
    exact (hholds r').2 ⟨hne, h.looseHeld r' (List.mem_cons_of_mem _ hr')⟩
  · exact hrest
  · exact fun d key l hl hmem => h.free d key l hl (List.mem_cons_of_mem _ hmem)
  · intro r' hr'
    obtain ⟨hne, hr'⟩ := (hholds r').1 hr'
    exact (h.owned r' hr').imp_left fun hmem => (List.mem_cons.1 hmem).resolve_left hne
  · exact fun r' hr' => h.given r' ((hholds r').1 hr').2
  · exact h.room

theorem numbered_modify (h : s.Owned loose k) (d : Dbref) {f : Object → Object}
    (hf : ∀ o, (f o).id = o.id) :
    (s.modify d f).Numbered := h.numbered.modify d hf

/-- An object gives up some of its records. -/
theorem strip (h : s.Owned loose k) (ho : s.get? d = some o) {f : Object → Object}
    (hid : ∀ o, (f o).id = o.id) (gone : Bytes → Prop) [DecidablePred gone]
    (hf : ∀ key, (f o).locks.get? key = if gone key then none else o.locks.get? key)
    {out : List LockRecord}
    (hn : (out.map (·.ref)).Nodup)
    (hout : ∀ l, l ∈ out ↔ ∃ key, gone key ∧ o.locks.get? key = some l) :
    (s.modify d f).Owned (out.map (·.ref) ++ loose) k := by
  have hrec (d' : Dbref) (key : Bytes) :
      (s.modify d f).record? d' key = if d' = d ∧ gone key then none else s.record? d' key := by
    rw [record?_modify ho, hf]
    by_cases hd : d' = d
    · rw [if_pos hd, hd, record?_of_get? ho]
      simp only [true_and]
    · rw [if_neg hd, if_neg fun hat => hd hat.1]
  refine h.drop (chunks_modify s d f) (h.numbered_modify d hid) hn ?_ ?_
  · intro d' key l hl
    rw [hrec] at hl
    split at hl
    · cases hl
    · exact hl
  · intro r
    rw [List.mem_map]
    constructor
    · rintro ⟨l, hl, rfl⟩
      obtain ⟨key, hgone, hl⟩ := (hout l).1 hl
      exact ⟨d, key, l, (record?_of_get? ho key).trans hl,
        by rw [hrec, if_pos ⟨rfl, hgone⟩], rfl⟩
    · rintro ⟨d', key, l, hl, hnone, rfl⟩
      rw [hrec] at hnone
      split at hnone
      · rename_i hat
        rw [hat.1, record?_of_get? ho] at hl
        exact ⟨l, (hout l).2 ⟨key, hat.2, hl⟩, rfl⟩
      · rw [hl] at hnone
        cases hnone

theorem take (h : s.Owned loose k) (ho : s.get? d = some o) (name : Bytes) :
    (s.modify d (·.dropLock name)).Owned ((o.lock? name).toList.map (·.ref) ++ loose) k := by
  refine h.strip ho ?_ (· = name.toLower) ?_ ?_ ?_
  · exact fun _ => rfl
  · intro key
    rw [Object.dropLock]
    split
    · rename_i hkey
      rw [hkey, SortedMap.get?_erase_self]
    · rename_i hkey
      rw [SortedMap.get?_erase_of_ne _ hkey]
  · rcases o.lock? name with _ | l
    · exact List.nodup_nil
    · exact List.nodup_singleton _
  · intro l
    simp only [Option.mem_toList, exists_eq_left]
    rfl

theorem nodup_refs (h : s.Owned loose k) (ho : s.get? d = some o) :
    (o.locks.values.map (·.ref)).Nodup := by
  rw [SortedMap.values, List.map_map]
  refine List.Nodup.map_on ?_ (List.Nodup.of_map _ o.locks.nodup_keys)
  rintro ⟨key, l⟩ hl ⟨key', l'⟩ hl' href
  rw [SortedMap.mem_toList] at hl hl'
  have hkey :=
    (h.apart d key l d key' l' ((record?_of_get? ho key).trans hl)
    ((record?_of_get? ho key').trans hl') href).2
  subst hkey
  rw [Option.some.inj (hl.symm.trans hl')]

theorem takeAll (h : s.Owned loose k) (ho : s.get? d = some o) :
    (s.modify d ({ · with locks := .empty })).Owned
    (o.locks.values.map (·.ref) ++ loose) k := by
  refine h.strip ho ?_ (fun _ => True) ?_ (h.nodup_refs ho) ?_
  · exact fun _ => rfl
  · exact fun _ => (if_pos trivial).symm
  · intro l
    simp only [SortedMap.mem_values, true_and]

/-- A record is put in the place of another, whose chunk becomes loose. -/
theorem install (h : s.Owned (l.ref :: loose) k) (ho : s.get? d = some o) :
    (s.modify d (·.putLock l)).Owned ((o.lock? l.name).toList.map (·.ref) ++ loose) k := by
  -- The record that was there is taken off first, so that the new one comes to an empty place.
  have hget : (s.modify d (·.dropLock l.name)).get? d = some (o.dropLock l.name) := by
    rw [get?_modify, if_pos rfl, ho, Option.map_some]
  refine ((h.take ho l.name).perm List.perm_middle).put (d := d) ?_
    (h.numbered_modify d fun _ => rfl) ?_ ?_
  · rw [chunks_modify, chunks_modify]
  · rw [record?_of_get? hget, Object.dropLock, SortedMap.get?_erase_self]
  · intro d' key
    rw [record?_modify ho, record?_modify ho, Object.putLock, Object.dropLock]
    by_cases hd : d' = d
    · by_cases hkey : key = l.name.toLower
      · rw [if_pos hd, if_pos ⟨hd, hkey⟩, hkey, SortedMap.get?_insert_self]
      · rw [if_pos hd, if_neg fun hat => hkey hat.2, if_pos hd,
          SortedMap.get?_insert_of_ne _ _ hkey, SortedMap.get?_erase_of_ne _ hkey]
    · rw [if_neg hd, if_neg fun hat => hd hat.1, if_neg hd]

end Owned
end Store
end Database
end Locksmith
