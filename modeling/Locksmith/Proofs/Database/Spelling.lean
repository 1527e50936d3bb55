import Locksmith.Proofs.Database.LockSource
import Locksmith.Proofs.Machine.Warnings

namespace Locksmith

namespace Lint

variable {m : Type → Type} [Monad m] [LawfulMonad m] {w : World m} {known : Answers}

/-- What is found wrong depends on nothing but the answers of the world. -/
theorem checkFrom_pure (hw : w.Gives known) (code : Bytes) (target : Dbref) (pc : Nat)
    (text : Bytes) :
    ∃ causes, checkFrom w code target pc text = pure causes := by
  fun_induction checkFrom w code target pc text with
  | case1 => exact ⟨_, rfl⟩
  | case2 => exact ⟨_, rfl⟩
  | case3 => exact ⟨_, rfl⟩
  | case4 _ _ _ _ _ _ _ _ ih => exact ih
  | case5 _ _ _ _ _ _ _ ih =>
    obtain ⟨later, hlater⟩ := ih
    rw [checkInsn_eq hw, hlater, pure_bind, pure_bind]
    exact ⟨_, rfl⟩

theorem check_pure (hw : w.Gives known) (code : LockCode) (owner target : Dbref) :
    ∃ causes : List Warning.Cause, ∀ lock, check w code owner target lock =
      pure (causes.map fun cause => ⟨owner, target, lock, cause⟩) := by
  cases code with
  | none => exact ⟨[], fun _ => rfl⟩
  | some bytes =>
    obtain ⟨causes, hcauses⟩ := checkFrom_pure hw bytes target 0 []
    refine ⟨causes, fun lock => ?_⟩
    rw [check, hcauses, pure_bind]

end Lint

/-- A warning that does not tell the name of the lock. -/
def Warning.unnamed (w : Warning) : Warning := { w with lock := [] }

def LockRecord.lowered (l : LockRecord) : LockRecord := { l with name := l.name.toLower }

def Object.lowered (o : Object) : Object :=
  { o with locks := o.locks.mapValues LockRecord.lowered }

theorem Object.lock?_lowered (o : Object) (name : Bytes) :
    o.lowered.lock? name = (o.lock? name).map LockRecord.lowered :=
  SortedMap.get?_mapValues _ _ _

theorem Object.lowered_putLock (o : Object) {l l' : LockRecord} (h : l.lowered = l'.lowered) :
    (o.putLock l).lowered = (o.putLock l').lowered := by
  have hkey : l.name.toLower = l'.name.toLower := congrArg LockRecord.name h
  rw [putLock, putLock, lowered, lowered, SortedMap.mapValues_insert,
    SortedMap.mapValues_insert, h, hkey]

namespace Database

def Error.unnamed : Error → Error
  | compiling _ e => compiling [] e
  | storing _ d e => storing [] d e
  | fetching _ d e => fetching [] d e
  | copying _ d e => copying [] d e
  | packing _ d e => packing [] d e
  | unpacking _ d c => unpacking [] d c
  | e => e

def Slot.lowered : Slot → Slot
  | live o => live o.lowered
  | retired => retired

namespace Store

variable {s s' : Store} {m n : Bytes}

/-- A database with the names of all lock records in lower case. -/
def lowered (s : Store) : Store := { s with slots := s.slots.mapValues Slot.lowered }

/-- How a database looks but for the names of lock records and for what is kept under the next
reference of `s`. -/
def recoded (s t : Store) : Store := (t.without s.chunks.next).lowered

theorem get?_lowered (s : Store) (d : Dbref) :
    s.lowered.get? d = (s.get? d).map Object.lowered := by
  rw [get?, get?, lowered, SortedMap.get?_mapValues]
  rcases s.slots.get? d with _ | _ | _
  · rfl
  · rfl
  · rfl

theorem lowered_modify (s : Store) (d : Dbref) {f g : Object → Object}
    (h : ∀ o, (f o).lowered = (g o).lowered) :
    (s.modify d f).lowered = (s.modify d g).lowered := by
  rw [modify, modify]
  rcases s.get? d with _ | o
  · rfl
  · simp only [lowered, SortedMap.mapValues_insert, Slot.lowered, h]

theorem lowered_forget (s : Store) (old : Option LockRecord) :
    (s.forget old).lowered = s.lowered.forget old := by
  cases old with
  | none => rfl
  | some l =>
    rw [forget, forget]
    rcases hzero : l.ref.isZero with _ | _
    · rw [releaseChunk_eq s hzero, releaseChunk_eq _ hzero]
      rfl
    · rw [releaseChunk, releaseChunk, hzero]
      rfl

theorem without_forget (s : Store) (old : Option LockRecord) (r : ChunkRef) :
    (s.forget old).without r = (s.without r).forget old := by
  cases old with
  | none => rfl
  | some l =>
    rw [forget, forget]
    rcases hzero : l.ref.isZero with _ | _
    · rw [releaseChunk_eq s hzero, releaseChunk_eq _ hzero]
      simp only [without, SortedMap.erase_comm _ r]
    · rw [releaseChunk, releaseChunk, hzero]
      rfl

theorem without_modify (s : Store) (d : Dbref) (f : Object → Object) (r : ChunkRef) :
    (s.modify d f).without r = (s.without r).modify d f := by
  have hget : (s.without r).get? d = s.get? d := rfl
  rw [modify, modify, hget]
  rcases s.get? d with _ | o
  · rfl
  · rfl

/-- A lock under one spelling of its name or another. -/
theorem lowered_withLock (h : m.toLower = n.toLower) (s : Store) (d : Dbref) (o : Object)
    (creator : Dbref) (flags : LockFlags) (p : Packed) :
    (s.withLock d o m creator flags p).lowered =
      (s.withLock d o n creator flags p).lowered := by
  rw [withLock, withLock, lowered_forget, lowered_forget, Object.lock?, Object.lock?, h]
  congr 1
  apply lowered_modify
  intro o
  apply o.lowered_putLock
  simp only [LockRecord.lowered, h]

/-- A lock with one code or another. -/
theorem without_withLock (s : Store) (d : Dbref) (o : Object) (name : Bytes) (creator : Dbref)
    (flags : LockFlags) (p p' : Packed) :
    (s.withLock d o name creator flags p).without s.chunks.next =
      (s.withLock d o name creator flags p').without s.chunks.next := by
  have happend (p : Packed) : without { s with chunks := (s.chunks.append p).2 } s.chunks.next =
      { s with chunks := ⟨s.chunks.medium, s.chunks.compression, ⟨s.chunks.next.num + 1⟩,
        s.chunks.chunks.erase s.chunks.next⟩ } := by
    rw [without]
    simp only [Chunk.Store.append, SortedMap.erase_insert_self]
  rw [withLock, withLock, without_forget, without_forget, without_modify, without_modify,
    happend, happend]

theorem withoutLock_congr (h : m.toLower = n.toLower) (s : Store) (d : Dbref) (o : Object) :
    s.withoutLock d o m = s.withoutLock d o n := by
  simp only [withoutLock, Object.lock?, Object.dropLock, h]

theorem alike_lowered (s : Store) : Alike s s.lowered := by
  intro d
  rw [get?_lowered, Option.map_map]
  rfl

theorem map_lowered (s : Store) {α : Type} {f : Object → α} (hf : ∀ o, f o.lowered = f o)
    (d : Dbref) :
    (s.lowered.get? d).map f = (s.get? d).map f := by
  rw [get?_lowered, Option.map_map]
  congr 1
  funext o
  exact hf o

theorem code_lowered (s : Store) (d : Dbref) (name : Bytes) :
    (s.lowered.findLock d name).code = (s.findLock d name).code := by
  simp only [findLock, get?_lowered]
  rcases s.get? d with _ | o
  · rfl
  · simp only [Option.map_some, Object.lock?_lowered]
    rcases o.lock? (lockName name) with _ | l
    · rfl
    · rfl

/-- How the names of lock records are spelled makes no difference to what locks and warnings are
about. -/
theorem world_lowered (s : Store) : s.lowered.world = s.world := by
  -- records count by their flags and codes alone
  have h := s.alike_lowered
  have hsettings : s.lowered.settings = s.settings := rfl
  have hchannels : s.lowered.channels = s.channels := rfl
  have hlock (viewer d : Dbref) (name : Bytes) :
      s.lowered.canReadLock viewer d name = s.canReadLock viewer d name := by
    apply h.canReadLock
    apply s.map_lowered
    intro o
    rw [o.lock?_lowered, Option.map_map]
    rfl
  have hread (viewer d : Dbref) (name : Bytes) :
      s.lowered.canReadAttribute viewer d name = s.canReadAttribute viewer d name :=
    h.canReadAttribute (s.map_lowered (fun _ => rfl) d) viewer
  have hvalue (d : Dbref) (name : Bytes) : s.lowered.attribute? d name = s.attribute? d name :=
    attribute?_congr (s.map_lowered (fun _ => rfl) d)
  have heval (d : Dbref) (name : Bytes) (enactor : Dbref) :
      s.lowered.evalAttribute d name enactor = s.evalAttribute d name enactor :=
    h.evalAttribute (hvalue d name) enactor
  simp only [world, notify, canSeeConnection, onChannel, channel?, hsettings, hchannels,
    h.isValid, h.owner, h.carries, code_lowered, hlock, hread, hvalue, heval, h.hasFlagClass,
    h.oversees, h.leastIdle, h.canSeeChannel hchannels]

theorem gives_world (s : Store) :
    s.world.Gives ⟨s.isValid, s.canReadLock, s.canReadAttribute⟩ :=
  ⟨fun _ => rfl, fun _ _ _ => rfl, fun _ _ _ => rfl⟩

def warnings (s : Store) (code : LockCode) (d : Dbref) (name : Bytes) : List Warning :=
  (Lint.check s.world code (s.owner d) d name []).1

theorem check_eq_warnings (s : Store) (code : LockCode) (d : Dbref) (name : Bytes) :
    Lint.check s.world code (s.owner d) d name = pure (s.warnings code d name) := by
  obtain ⟨causes, hcauses⟩ := Lint.check_pure s.gives_world code (s.owner d) d
  rw [warnings, hcauses]
  rfl

theorem warnings_unnamed (h : s.lowered = s'.lowered) (code : LockCode) (d : Dbref)
    (m n : Bytes) :
    (s.warnings code d m).map Warning.unnamed = (s'.warnings code d n).map Warning.unnamed := by
  have hworld : s.world = s'.world := by rw [← world_lowered, h, world_lowered]
  have howner : s.owner d = s'.owner d := by
    rw [← s.alike_lowered.owner, h, s'.alike_lowered.owner]
  obtain ⟨causes, hcauses⟩ := Lint.check_pure s.gives_world code (s.owner d) d
  have hmap (lock : Bytes) :
      (Lint.check s.world code (s.owner d) d lock []).1.map Warning.unnamed =
      causes.map fun cause => ⟨s.owner d, d, [], cause⟩ := by
    rw [hcauses]
    exact List.map_map
  rw [warnings, warnings, ← hworld, ← howner, hmap, hmap]

end Store

end Database
end Locksmith
