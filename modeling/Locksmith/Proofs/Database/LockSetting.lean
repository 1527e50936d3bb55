import Locksmith.Proofs.Database.Likeness
import Locksmith.Proofs.Database.LockChanges

namespace Locksmith

namespace Database
namespace Store

variable {s s' : Store} {d creator : Dbref} {name : Bytes} {flags : LockFlags} {k : Nat}

theorem SameUnlocked.modify (s : Store) (d : Dbref) {f : Object → Object}
    (hf : ∀ o, (f o).unlocked = o.unlocked) : SameUnlocked s (s.modify d f) := by
  intro d'
  rw [get?_modify]
  split
  · rename_i hd
    rw [hd, Option.map_map]
    congr 1
    funext o
    exact hf o
  · rfl

theorem SameUnlocked.releaseChunk (s : Store) (r : ChunkRef) :
    SameUnlocked s (s.releaseChunk r) := by
  intro d
  rw [get?_releaseChunk]

def forget (s : Store) : Option LockRecord → Store
  | none => s
  | some l => s.releaseChunk l.ref

/-- What setting a lock can do: nothing, or take the record off, or put one with a new chunk in
its place. The chunk of the record that was there is released. -/
inductive Relocked (s : Store) (d : Dbref) (name : Bytes) (creator : Dbref)
    (flags : LockFlags) : Store → Prop where
  | same : Relocked s d name creator flags s
  | freed {o : Object} (there : s.get? d = some o) :
      Relocked s d name creator flags ((s.modify d (·.dropLock name)).forget (o.lock? name))
  | put {o : Object} (there : s.get? d = some o) (p : Packed) :
      Relocked s d name creator flags
        (({ s with chunks := (s.chunks.append p).2 }.modify d
          (·.putLock ⟨name, creator, flags, s.chunks.next⟩)).forget (o.lock? name))

/-- No two lock records share a chunk, and there are `room` references left to give away. -/
structure Separate (s : Store) (room : Nat) : Prop where
  apart : ∀ d key l d' key' l', s.record? d key = some l → s.record? d' key' = some l' →
    l.ref = l'.ref → l.ref.isZero = false → d = d' ∧ key = key'
  given : ∀ d key l, s.record? d key = some l → l.ref.num.toNat < s.chunks.next.num.toNat
  room : s.chunks.next.num.toNat + room < 2 ^ 64

theorem Owned.separate (h : s.Owned [] k) : s.Separate k where
  apart d key l d' key' l' hl hl' href _ := h.apart d key l d' key' l' hl hl' href
  given d key l hl := (h.given _ (h.held d key l hl)).2
  room := h.room.2

theorem Separate.mono {k' : Nat} (h : s.Separate k) (hk : k' ≤ k) : s.Separate k' :=
  { h with room := by have := h.room; omega }

theorem get?_forget (s : Store) (old : Option LockRecord) (d : Dbref) :
    (s.forget old).get? d = s.get? d := by
  cases old with
  | none => rfl
  | some l => exact get?_releaseChunk s l.ref d

theorem record?_forget (s : Store) (old : Option LockRecord) (d : Dbref) (key : Bytes) :
    (s.forget old).record? d key = s.record? d key := by
  rw [record?, kept?, get?_forget]
  rfl

theorem next_releaseChunk (s : Store) (r : ChunkRef) :
    (s.releaseChunk r).chunks.next = s.chunks.next := by
  unfold releaseChunk Chunk.Store.delete
  split
  · rfl
  · rcases s.chunks.chunks.contains r with _ | _
    · rfl
    · rfl

theorem next_forget (s : Store) (old : Option LockRecord) :
    (s.forget old).chunks.next = s.chunks.next := by
  cases old with
  | none => rfl
  | some l => exact next_releaseChunk s l.ref

theorem chunk_releaseChunk (s : Store) {r r' : ChunkRef} (h : r' = r → r'.isZero = true) :
    (s.releaseChunk r).chunks.chunks.get? r' = s.chunks.chunks.get? r' := by
  unfold releaseChunk
  split
  · rfl
  · rename_i hzero
    have hne : r' ≠ r := by
      rintro rfl
      exact hzero (h rfl)
    unfold Chunk.Store.delete
    rcases s.chunks.chunks.contains r with _ | _
    · rfl
    · exact SortedMap.get?_erase_of_ne _ hne

theorem chunk_forget (s : Store) {old : Option LockRecord} {r : ChunkRef}
    (h : ∀ l, old = some l → r = l.ref → r.isZero = true) :
    (s.forget old).chunks.chunks.get? r = s.chunks.chunks.get? r := by
  cases old with
  | none => rfl
  | some l => exact s.chunk_releaseChunk (h l rfl)

namespace Relocked

theorem sameUnlocked (h : Relocked s d name creator flags s') : SameUnlocked s s' := by
  have hforget (s : Store) (old : Option LockRecord) : SameUnlocked s (s.forget old) := by
    intro d
    rw [get?_forget]
  cases h with
  | same => exact .refl s
  | freed =>
    apply SameUnlocked.trans _ (hforget _ _)
    exact .modify s d fun _ => rfl
  | put _ p =>
    have happend : SameUnlocked s { s with chunks := (s.chunks.append p).2 } := fun _ => rfl
    apply happend.trans
    apply SameUnlocked.trans _ (hforget _ _)
    exact .modify _ d fun _ => rfl

/-- The records after a change: all others are the same, and one that was put has the next
reference. -/
theorem record?_cases (h : Relocked s d name creator flags s') (d' : Dbref) (key : Bytes) :
    s'.record? d' key = s.record? d' key ∨
      (d' = d ∧ key = name.toLower) ∧ (s'.record? d' key = none ∨
        s'.record? d' key = some ⟨name, creator, flags, s.chunks.next⟩ ∧
          s'.chunks.next = ⟨s.chunks.next.num + 1⟩) := by
  cases h with
  | same => exact .inl rfl
  | @freed o there =>
    rw [record?_forget, record?_modify there]
    by_cases hd : d' = d
    · by_cases hkey : key = name.toLower
      · refine .inr ⟨⟨hd, hkey⟩, .inl ?_⟩
        rw [if_pos hd, hkey]
        exact SortedMap.get?_erase_self _ _
      · left
        rw [if_pos hd, hd, record?_of_get? there]
        exact SortedMap.get?_erase_of_ne _ hkey
    · exact .inl (if_neg hd)
  | @put o there p =>
    rw [record?_forget,
      record?_modify (show get? { s with chunks := (s.chunks.append p).2 } d =
        some o from there)]
    by_cases hd : d' = d
    · by_cases hkey : key = name.toLower
      · refine .inr ⟨⟨hd, hkey⟩, .inr ⟨?_, ?_⟩⟩
        · rw [if_pos hd, hkey]
          exact SortedMap.get?_insert_self _ _ _
        · rw [next_forget, chunks_modify]
          rfl
      · left
        rw [if_pos hd, hd, record?_of_get? there]
        exact SortedMap.get?_insert_of_ne _ _ hkey
    · exact .inl (if_neg hd)

theorem next (h : Relocked s d name creator flags s') :
    s'.chunks.next = s.chunks.next ∨ s'.chunks.next = ⟨s.chunks.next.num + 1⟩ := by
  cases h with
  | same => exact .inl rfl
  | freed => exact .inl (by rw [next_forget, chunks_modify])
  | put => exact .inr (by rw [next_forget, chunks_modify]; rfl)

/-- A chunk of another record stays as it is. -/
theorem chunk (h : Relocked s d name creator flags s') (hs : s.Separate k) {d' : Dbref}
    {key : Bytes} {l : LockRecord} (hl : s.record? d' key = some l)
    (hother : ¬(d' = d ∧ key = name.toLower)) :
    s'.chunks.chunks.get? l.ref = s.chunks.chunks.get? l.ref := by
  have hold {o : Object} (there : s.get? d = some o) (old : LockRecord)
      (hold : o.lock? name = some old) (href : l.ref = old.ref) : l.ref.isZero = true := by
    by_contra hzero
    apply hother
    exact hs.apart d' key l d _ old hl ((record?_of_get? there _).trans hold) href
      (Bool.eq_false_iff.2 hzero)
  cases h with
  | same => rfl
  | freed there => rw [chunk_forget _ (hold there), chunks_modify]
  | put there p =>
    rw [chunk_forget _ (hold there), chunks_modify]
    refine SortedMap.get?_insert_of_ne _ _ fun href => ?_
    exact (hs.given d' key l hl).ne (congrArg (·.num.toNat) href)

theorem findLock_eq (h : Relocked s d name creator flags s') (hs : s.Separate k) {d' : Dbref}
    {name' : Bytes} (hother : ¬(d' = d ∧ (lockName name').toLower = name.toLower)) :
    s'.findLock d' name' = s.findLock d' name' := by
  apply findLock_congr
  · have hsome : (s'.get? d').isSome = (s.get? d').isSome := by
      have hmap := congrArg Option.isSome (h.sameUnlocked d')
      rwa [Option.isSome_map, Option.isSome_map] at hmap
    have hrecord := (h.record?_cases d' (lockName name').toLower).resolve_right fun hat =>
      hother hat.1
    rw [record?, record?] at hrecord
    rcases hget : s.get? d' with _ | o
    · rw [hget] at hsome
      rw [kept?, kept?, hget, Option.isNone_iff_eq_none.1 (Option.isSome_eq_false_iff.1 hsome)]
    · rw [hget] at hsome
      obtain ⟨o', hget'⟩ := Option.isSome_iff_exists.1 hsome
      rw [kept?_of_get? hget, kept?_of_get? hget'] at hrecord ⊢
      exact congrArg some hrecord
  · intro l hl
    exact h.chunk hs hl hother

theorem separate (h : Relocked s d name creator flags s') (hs : s.Separate (k + 1)) :
    s'.Separate k := by
  have hroom := hs.room
  have hsucc : (s.chunks.next.num + 1).toNat = s.chunks.next.num.toNat + 1 := by
    rw [UInt64.toNat_add, UInt64.toNat_one, Nat.mod_eq_of_lt (by omega)]
  have hnext : s.chunks.next.num.toNat ≤ s'.chunks.next.num.toNat ∧
      s'.chunks.next.num.toNat ≤ s.chunks.next.num.toNat + 1 := by
    rcases h.next with heq | heq
    · rw [heq]
      omega
    · rw [heq]
      exact ⟨hsucc ▸ Nat.le_succ _, hsucc.le⟩
  -- a record was there before, or it is the one that was put
  have hcases {d' : Dbref} {key : Bytes} {l : LockRecord} (hl : s'.record? d' key = some l) :
      s.record? d' key = some l ∨
        (d' = d ∧ key = name.toLower) ∧ l.ref = s.chunks.next ∧
        s'.chunks.next = ⟨s.chunks.next.num + 1⟩ := by
    rcases h.record?_cases d' key with hsame | ⟨hat, hnone | ⟨hput, hlast⟩⟩
    · exact .inl (hsame ▸ hl)
    · rw [hnone] at hl
      cases hl
    · rw [hput] at hl
      cases hl
      exact .inr ⟨hat, rfl, hlast⟩
  constructor
  · intro d₁ key₁ l₁ d₂ key₂ l₂ h₁ h₂ href hzero
    rcases hcases h₁ with h₁ | ⟨hat₁, hnew₁, -⟩
    · rcases hcases h₂ with h₂ | ⟨-, hnew₂, -⟩
      · exact hs.apart _ _ _ _ _ _ h₁ h₂ href hzero
      · exact absurd (congrArg (·.num.toNat) (href.trans hnew₂)) (hs.given _ _ _ h₁).ne
    · rcases hcases h₂ with h₂ | ⟨hat₂, -, -⟩
      · exact absurd (congrArg (·.num.toNat) (href.symm.trans hnew₁)) (hs.given _ _ _ h₂).ne
      · exact ⟨hat₁.1.trans hat₂.1.symm, hat₁.2.trans hat₂.2.symm⟩
  · intro d' key l hl
    rcases hcases hl with hl | ⟨-, hnew, hlast⟩
    · exact Nat.lt_of_lt_of_le (hs.given d' key l hl) hnext.1
    · rw [hnew, hlast]
      exact hsucc ▸ Nat.lt_succ_self _
  · omega

end Relocked
end Store

namespace Db

open Store

variable {s : Store} {d creator : Dbref} {name : Bytes} {flags : LockFlags}

theorem release_forget (l : LockRecord) {s : Store} :
    Ensures (· = s) (release l) fun out s' => out = .ok () ∧ s' = s.forget (some l) := by
  refine .store_bind fun s' h => .putStore fun _ _ => ?_
  rw [h]
  exact ⟨rfl, rfl⟩

def TookOff (s : Store) (d : Dbref) (name : Bytes) :
    Except Error (Option LockRecord) → Store → Prop
  | .ok old, s' =>
    ∃ o, s.get? d = some o ∧ old = o.lock? name ∧ s' = s.modify d (·.dropLock name)
  | .error _, s' => s' = s

/-- What putting a chunk away does. -/
def PutAway (s : Store) : Except Error ChunkRef → Store → Prop
  | .ok ref, s' => ∃ p, ref = s.chunks.next ∧ s' = { s with chunks := (s.chunks.append p).2 }
  | .error _, s' => s' = s

theorem freeLock_relocked (d : Dbref) (name : Bytes) (creator : Dbref) (flags : LockFlags) :
    Ensures (· = s) (freeLock d name) fun _ => Relocked s d name creator flags := by
  refine .bind (r := TookOff s d name) (.step ?_ ?_) ?_ ?_
  · rintro s' old s'' rfl hstep
    unfold takeLock at hstep
    split at hstep
    · cases hstep
    · rename_i o ho
      cases hstep
      exact ⟨o, ho, rfl, rfl⟩
  · exact fun _ _ h _ => h
  · intro old
    apply Ensures.of_forall
    rintro s' ⟨o, ho, rfl, rfl⟩
    have hfreed : Relocked s d name creator flags _ := .freed ho
    rcases hold : o.lock? name with _ | l
    · rw [hold] at hfreed
      exact .pure fun _ h => h ▸ hfreed
    · rw [hold] at hfreed
      exact .look_bind fun _ => (release_forget l).imp (fun _ h => h) fun _ _ h => h.2 ▸ hfreed
  · rintro e s' rfl
    exact .same

theorem setLock_relocked (d : Dbref) (name : Bytes) (code : LockCode) (creator : Dbref)
    (flags : LockFlags) :
    Ensures (· = s) (setLock d name code creator flags) fun _ =>
      Relocked s d (lockName name) creator flags := by
  refine .store_bind ?_
  rintro s' rfl
  refine .ite (fun _ => .throw fun _ h => h ▸ .same) fun hvalid => ?_
  rcases code with _ | code
  · exact freeLock_relocked d (lockName name) creator flags
  · obtain ⟨o, ho⟩ : ∃ o, s'.get? d = some o := by
      rw [Bool.not_eq_true', Bool.not_eq_false, isValid, Bool.and_eq_true] at hvalid
      exact Option.isSome_iff_exists.1 hvalid.2
    refine .bind (r := PutAway s') (.step ?_ ?_) ?_ ?_
    · rintro _ ref s'' rfl hstep
      rcases hkeep : keepCode _ (some code) with e | ⟨ref', kept⟩
      · rw [hkeep] at hstep
        cases hstep
      · rw [hkeep] at hstep
        cases hstep
        exact appended_of_keepCode hkeep
    · exact fun _ _ h _ => h
    · intro ref
      apply Ensures.of_forall
      rintro _ ⟨p, rfl, rfl⟩
      have hput : Relocked s' d (lockName name) creator flags _ := .put ho p
      refine .store_bind ?_
      rintro _ rfl
      rw [installLock, show get? { s' with chunks := (s'.chunks.append p).2 } d =
        some o from ho]
      refine .putStore_bind (.bind (announceLock_quiet d _ _ _ _) ?_ ?_)
      · intro _
        rcases hold : o.lock? (lockName name) with _ | old
        · rw [hold] at hput
          exact .pure fun _ h => h.2 ▸ hput
        · rw [hold] at hput
          exact (release_forget old).imp (fun _ h => h.2) fun _ _ h => h.2 ▸ hput
      · rintro e s'' ⟨hout, -⟩
        cases hout
    · rintro e s'' rfl
      exact .same

/-- A player who may not set the lock changes nothing. -/
theorem setLockSource_relocked (player d : Dbref) (name source : Bytes) (flags : LockFlags) :
    Ensures (· = s) (setLockSource player d name source flags) fun _ s' =>
      s' = s ∨ s.canSetLock player d (lockName name) = true ∧
      Relocked s d (lockName name) player flags s' := by
  refine .store_bind ?_
  rintro s' rfl
  refine .ite (fun _ => .throw fun _ h => .inl h) fun hcan => ?_
  rw [Bool.not_eq_true', Bool.not_eq_false] at hcan
  rcases s'.compiler.compile source player (lockName name) with e | code
  · exact .throw fun _ h => .inl h
  · refine .bind (r := fun _ => Relocked s' d (lockName name) player flags) ?_
      (fun _ => .look fun _ _ h => .inr ⟨hcan, h⟩) fun _ _ h => .inr ⟨hcan, h⟩
    have hset := setLock_relocked (s := s') d (lockName name) code player flags
    rwa [lockName_idem] at hset

end Db
end Database
end Locksmith
