import Locksmith.Proofs.Chunk.Ledger
import Locksmith.Proofs.Database.LockPermission

namespace Locksmith
namespace Database
namespace Store

def HasLock (s : Store) (d : Dbref) (name : Bytes) (creator : Dbref) (flags : LockFlags)
    (code : LockCode) : Prop :=
  ∃ l, s.findLock d name = ⟨some l, .ok code⟩ ∧ l.name = name ∧ l.creator = creator ∧
    l.flags = flags

variable {s : Store} {d creator : Dbref} {name : Bytes} {flags : LockFlags}
  {o : Object} {k : Nat}

/-- An object has one lock at most under a name, without regard to case. -/
theorem HasLock.unique {creator' : Dbref} {name' : Bytes} {flags' : LockFlags}
    {code code' : LockCode} (h : s.HasLock d name creator flags code)
    (h' : s.HasLock d name' creator' flags' code')
    (hname : (lockName name).toLower = (lockName name').toLower) :
    name = name' ∧ creator = creator' ∧ flags = flags' ∧ code = code' := by
  obtain ⟨l, hl, rfl, rfl, rfl⟩ := h
  obtain ⟨l', hl', rfl, rfl, rfl⟩ := h'
  have hrecord := s.record_findLock d l.name
  have hrecord' := s.record_findLock d l'.name
  rw [hl, hname] at hrecord
  rw [hl', ← hrecord] at hrecord'
  cases hrecord'
  rw [hl] at hl'
  cases hl'
  exact ⟨rfl, rfl, rfl, rfl⟩

theorem HasLock.get? {code : LockCode} (h : s.HasLock d name creator flags code) :
    ∃ o, s.get? d = some o := by
  obtain ⟨l, hfound, -⟩ := h
  have hrecord := s.record_findLock d name
  rw [hfound] at hrecord
  obtain ⟨o, ho, -⟩ := get?_of_record? hrecord.symm
  exact ⟨o, ho⟩

def withLock (s : Store) (d : Dbref) (o : Object) (name : Bytes) (creator : Dbref)
    (flags : LockFlags) (p : Packed) : Store :=
  ({ s with chunks := (s.chunks.append p).2 }.modify d
    (·.putLock ⟨name, creator, flags, s.chunks.next⟩)).forget (o.lock? name)

/-- Releasing a chunk does not change how chunks are kept. -/
theorem setting_forget (s : Store) (old : Option LockRecord) :
    (s.forget old).chunks.compression = s.chunks.compression ∧
    (s.forget old).chunks.medium = s.chunks.medium := by
  cases old with
  | none => exact ⟨rfl, rfl⟩
  | some l =>
    rw [forget, releaseChunk]
    split
    · exact ⟨rfl, rfl⟩
    · rw [Chunk.Store.delete]
      cases s.chunks.chunks.contains l.ref with
      | false => exact ⟨rfl, rfl⟩
      | true => exact ⟨rfl, rfl⟩

theorem compression_withLock (s : Store) (d : Dbref) (o : Object) (name : Bytes)
    (creator : Dbref) (flags : LockFlags) (p : Packed) :
    (s.withLock d o name creator flags p).chunks.compression = s.chunks.compression := by
  rw [withLock, (setting_forget _ _).1, chunks_modify]
  rfl

theorem medium_withLock (s : Store) (d : Dbref) (o : Object) (name : Bytes) (creator : Dbref)
    (flags : LockFlags) (p : Packed) :
    (s.withLock d o name creator flags p).chunks.medium = s.chunks.medium := by
  rw [withLock, (setting_forget _ _).2, chunks_modify]
  rfl

/-- References start at one, and those in lock records were given away before. -/
structure Issued (s : Store) : Prop where
  started : 0 < s.chunks.next.num.toNat
  older : ∀ d key l, s.record? d key = some l → l.ref.num.toNat < s.chunks.next.num.toNat

theorem Owned.issued {loose : List ChunkRef} (h : s.Owned loose k) : s.Issued where
  started := h.room.1
  older d key l hl := (h.given _ (h.held d key l hl)).2

/-- A lock that was put in place is found. -/
theorem Issued.findLock_withLock (h : s.Issued) (ho : s.get? d = some o) {p : Packed}
    {code : LockCode} (hp : p.Holds code) (name : Bytes) (creator : Dbref) (flags : LockFlags) :
    (s.withLock d o (lockName name) creator flags p).findLock d name =
      ⟨some ⟨lockName name, creator, flags, s.chunks.next⟩, .ok code⟩ := by
  have hget : (s.withLock d o (lockName name) creator flags p).get? d =
      some (o.putLock ⟨lockName name, creator, flags, s.chunks.next⟩) := by
    rw [withLock, get?_forget, get?_modify, if_pos rfl]
    exact congrArg (Option.map _) ho
  have hchunk :
      (s.withLock d o (lockName name) creator flags p).chunks.chunks.get? s.chunks.next =
        some p := by
    rw [withLock, chunk_forget, chunks_modify]
    · exact SortedMap.get?_insert_self _ _ _
    · -- the record that was there has an older chunk
      intro l hl hnext
      have holder := h.older d _ l ((record?_of_get? ho _).trans hl)
      rw [hnext] at holder
      exact absurd holder (Nat.lt_irrefl _)
  have hzero : s.chunks.next.isZero = false := by
    have hpos := h.started
    rw [ChunkRef.isZero, beq_eq_false_iff_ne]
    intro hzero
    rw [hzero] at hpos
    cases hpos
  rw [findLock, hget]
  simp only [Object.lock?, Object.putLock, SortedMap.get?_insert_self, codeOf, hzero,
    Bool.false_eq_true, if_false, Chunk.Store.fetch, hchunk, hp.unpack]
  rfl

/-- A lock that was put in place can be read. -/
theorem hasLock_withLock (h : s.Owned [] k) (ho : s.get? d = some o) {p : Packed} {code : Bytes}
    (hp : p.Holds (some code)) :
    (s.withLock d o (lockName name) creator flags p).HasLock d (lockName name) creator flags
    (some code) := by
  have hfound := h.issued.findLock_withLock ho hp (lockName name) creator flags
  rw [lockName_idem] at hfound
  exact ⟨_, hfound, rfl, rfl, rfl⟩

end Store

namespace Db

open Store

variable {s : Store} {d : Dbref} {name code : Bytes} {o : Object}

/-- A record whose chunk was just made takes the place of the one before. -/
theorem replaceLock_withLock (ho : s.get? d = some o) {announce : Db Error Unit}
    (hquiet : Quiet announce) (name : Bytes) (creator : Dbref) (flags : LockFlags)
    (p : Packed) :
    Ensures (· = { s with chunks := (s.chunks.append p).2 })
      (replaceLock d ⟨name, creator, flags, s.chunks.next⟩ announce) fun out s' =>
        out = .ok () ∧ s' = s.withLock d o name creator flags p := by
  apply Ensures.store_bind
  rintro _ rfl
  rw [installLock, show get? { s with chunks := (s.chunks.append p).2 } d = some o from ho]
  refine .putStore_bind (.bind (hquiet _) ?_ ?_)
  · intro _
    rcases hold : o.lock? name with _ | old
    · refine .pure fun _ h => ⟨rfl, ?_⟩
      rw [h.2, withLock, hold]
      rfl
    · refine (release_forget old).imp (fun _ h => h.2) fun _ _ h => ⟨h.1, ?_⟩
      rw [h.2, withLock, hold]
  · rintro e s' ⟨hout, -⟩
    cases hout

/-- Setting a lock whose code can be kept as a chunk. -/
theorem setLock_of_append {p : Packed} (hd : d.isSentinel = false) (ho : s.get? d = some o)
    (hx : s.chunks.create (some code) = .ok (s.chunks.append p)) (creator : Dbref)
    (flags : LockFlags) :
    Ensures (· = s) (setLock d name (some code) creator flags) fun out s' =>
      out = .ok () ∧ s' = s.withLock d o (lockName name) creator flags p := by
  have hvalid : (!s.isValid d) = false := by rw [isValid, hd, ho]; rfl
  apply Ensures.store_bind
  rintro s rfl
  refine .ite (fun hinvalid => ?_) fun _ => ?_
  · rw [hvalid] at hinvalid
    cases hinvalid
  · refine .bind (r := fun out s' => out = .ok s.chunks.next ∧
      s' = { s with chunks := (s.chunks.append p).2 })
      (.step ?_ ?_) ?_ ?_
    · rintro _ ref s' rfl hstep
      rw [keepCode, hx] at hstep
      cases hstep
      exact ⟨rfl, rfl⟩
    · rintro _ e rfl hstep
      rw [keepCode, hx] at hstep
      cases hstep
    · intro ref
      apply Ensures.of_forall
      rintro _ ⟨hout, rfl⟩
      cases hout
      exact replaceLock_withLock ho (announceLock_quiet d _ _ _) _ creator flags p
    · rintro e s' ⟨hout, -⟩
      cases hout

/-- Setting a lock whose code fits into a chunk does not fail. -/
theorem setLock_withLock (hd : d.isSentinel = false) (ho : s.get? d = some o)
    (hc : s.chunks.compression.Supported) (hcode : code.length ≤ maxChunkSize) (creator : Dbref)
    (flags : LockFlags) :
    Ensures (· = s) (setLock d name (some code) creator flags) fun out s' =>
      out = .ok () ∧ ∃ p, p.Holds (some code) ∧
        s' = s.withLock d o (lockName name) creator flags p := by
  have hcreate := Chunk.Store.create_supported hc (some code)
  rw [Option.getD_some, if_neg (Nat.not_lt.2 hcode)] at hcreate
  obtain ⟨x, hx⟩ := hcreate
  obtain ⟨p, hp, rfl⟩ := Chunk.Store.append_of_create hx
  have hholds : p.Holds (some code) := by
    cases hmedium : s.chunks.medium with
    | memory => rwa [hmedium] at hp
    | table => rwa [hmedium] at hp
  refine (setLock_of_append hd ho hx creator flags).imp (fun _ h => h) ?_
  exact fun _ _ h => ⟨h.1, p, hholds, h.2⟩

end Db

end Database
end Locksmith
