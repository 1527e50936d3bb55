import Locksmith.Database.Lookup
import Locksmith.Database.Matcher
import Locksmith.Machine.Decompile
import Locksmith.Machine.Lint

namespace Locksmith
namespace Database
namespace Store

def keepCode (s : Store) (code : LockCode) : Except Chunk.Error (ChunkRef × Store) :=
  (s.chunks.create code).map fun (ref, chunks) => (ref, { s with chunks })

/-- Keeps a copy of a chunk as a new one. -/
def copyChunk (s : Store) (ref : ChunkRef) : Except Chunk.Error (ChunkRef × Store) :=
  (s.chunks.duplicate ref).map fun (ref, chunks) => (ref, { s with chunks })

/-- Puts a lock record on an object; gives the record that it replaces. -/
def installLock (s : Store) (d : Dbref) (l : LockRecord) :
    Except Error (Option LockRecord × Store) :=
  match s.get? d with
  | none => .error (.noObject d)
  | some o => .ok (o.lock? l.name, s.modify d (·.putLock l))

def takeLock (s : Store) (d : Dbref) (name : Bytes) :
    Except Error (Option LockRecord × Store) :=
  match s.get? d with
  | none => .error (.noObject d)
  | some o => .ok (o.lock? name, s.modify d (·.dropLock name))

def takeLocks (s : Store) (d : Dbref) : Except Error (List LockRecord × Store) :=
  match s.get? d with
  | none => .error (.noObject d)
  | some o => .ok (o.locks.values, s.modify d ({ · with locks := .empty }))

/-- Releases a chunk; one that is gone already is no failure. -/
def releaseChunk (s : Store) (ref : ChunkRef) : Store :=
  if ref.isZero then s
  else
    match s.chunks.delete ref with
    | .ok chunks => { s with chunks }
    | .error _ => s

/-- What compiles locks for this database. -/
def compiler (s : Store) : Lock.Compiler := ⟨s.settings.classes, some s.matchObject⟩

end Store

namespace Db

def step {ε α : Type} (f : Store → Except ε (α × Store)) : Db ε α := do
  match f (← store) with
  | .ok (a, s) =>
    putStore s
    return a
  | .error e => throw e

def release (l : LockRecord) : Db Error Unit := do putStore ((← store).releaseChunk l.ref)

/-- Removes a lock from an object. One that is not set is no failure. -/
def freeLock (d : Dbref) (name : Bytes) : Db Error Unit := do
  match ← step (·.takeLock d name) with
  | none => return
  | some l =>
    log ⟨.debug, "lock freed",
      [("object", .object d), ("lock", .text l.name), ("chunk", .chunk l.ref)]⟩
    release l

/-- Removes all locks from an object. Their chunks are released in the order of the lock names,
but any other order leads to the same database. -/
def freeAllLocks (d : Dbref) : Db Error Unit := do
  for l in ← step (·.takeLocks d) do release l

/-- Puts a record in place whose chunk was just made, and releases the chunk of the one before.
-/
def replaceLock (d : Dbref) (l : LockRecord) (announce : Db Error Unit) : Db Error Unit := do
  match (← store).installLock d l with
  | .error e =>
    -- No record has the new chunk.
    release l
    throw e
  | .ok (old, s) =>
    putStore s
    announce
    match old with
    | none => return
    | some old => release old

def announceLock (d : Dbref) (name : Bytes) (ref : ChunkRef) (code : LockCode) :
    Db Error Unit := do
  log ⟨.debug, "lock set",
    [("object", .object d), ("lock", .text name), ("chunk", .chunk ref),
      ("size", .number code.size)]⟩
  look fun s =>
    let t := s.settings.tracer
    if t.enabled then Journaled.trace (t.changed d name (code.decompile .nothing .dbrefs none))
    else pure ()

/-- Sets a lock on an object. An open lock removes the record. -/
def setLock (d : Dbref) (name : Bytes) (code : LockCode) (creator : Dbref) (flags : LockFlags) :
    Db Error Unit := do
  let name := lockName name
  if !(← store).isValid d then throw (.noObject d)
  match code with
  | none => freeLock d name
  | some _ =>
    let ref ← step fun s => (s.keepCode code).mapError (.storing name d)
    replaceLock d ⟨name, creator, flags, ref⟩ (announceLock d name ref code)

/-- Compiles a lock for a player and sets it, if they may; gives the warnings about it. -/
def setLockSource (player d : Dbref) (name source : Bytes) (flags : LockFlags) :
    Db Error (List Warning) := do
  let name := lockName name
  let s ← store
  if !s.canSetLock player d name then throw .permission
  match s.compiler.compile source player name with
  | .error e => throw (.compiling name e)
  | .ok code =>
    setLock d name code player flags
    look fun s => Lint.check s.world code (s.owner d) d name

def copyLock (source d : Dbref) (l : LockRecord) : Db Error Unit := do
  if l.ref.isZero then return
  let ref ← step fun s => (s.copyChunk l.ref).mapError (.copying l.name source)
  replaceLock d { l with ref } (pure ())

def copyLocks (source d : Dbref) : Db Error Unit := do
  let s ← store
  if !s.isValid d then throw (.noObject d)
  for l in s.locks source do copyLock source d l

/-- Destroys an object: its locks are freed and what it holds is left nowhere. -/
def recycle (d : Dbref) : Db Error Unit := do
  -- The locks go first: once the number is retired, no record can be reached through it.
  freeAllLocks d
  change fun s =>
    match s.get? d with
    | none => .error (.nothingToMove d)
    | some o => .ok (s.retire o)

/-- The warnings about a lock, for the owner of the object. -/
def lintLock (d : Dbref) (name : Bytes) : Db Error (List Warning) := do
  let name := lockName name
  match ((← store).findLock d name).code with
  | .error e => throw e
  | .ok code => look fun s => Lint.check s.world code (s.owner d) d name

end Db

namespace Store

/-- Whether a subject passes a lock on an object. One that cannot be read lets nobody pass. -/
def checkLock (s : Store) (subject d : Dbref) (name : Bytes) : Journaled Bool := do
  let name := lockName name
  let passed ←
    match (s.findLock d name).code with
    | .ok code => s.machine.evaluate code subject d
    | .error e => do
      Journaled.log ⟨.error, "lock check failed",
        [("object", .object d), ("lock", .text name), ("subject", .object subject),
          ("error", .text e.message)]⟩
      pure false
  Journaled.trace (s.settings.tracer.checked d name subject passed)
  return passed

/-- The text of a lock as a viewer sees it; `none` if they may not. -/
def showLock (s : Store) (viewer d : Dbref) (name : Bytes) (mode : DisplayMode) :
    Except Error (Option Bytes) := do
  let found := s.findLock d (lockName name)
  let code ← found.code
  let visible :=
    match found.record, s.get? d with
    | none, _ => true
    | some l, some o => s.canShowLock viewer o l
    | some _, none => false
  return if visible then some (code.decompile viewer mode (some s.name)) else none

end Store
end Database
end Locksmith
