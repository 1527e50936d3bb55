import Locksmith.Chunk.Snapshot
import Locksmith.Database.Locks

namespace Locksmith
namespace Database

/-- A lock in a snapshot. It names its object by number and time of creation, so that it is not
put on another object that took the number since. -/
structure SnapshotEntry where
  object : Dbref
  created : Int64
  name : Bytes
  creator : Dbref
  flags : LockFlags
  code : Packed
deriving DecidableEq, Repr

namespace SnapshotEntry

def toItem (e : SnapshotEntry) : Cbor.Item :=
  .map [(.nat 1, .ofInt64 e.object.num), (.nat 2, .ofInt64 e.created), (.nat 3, .text e.name),
    (.nat 4, .ofInt64 e.creator.num), (.nat 5, .nat e.flags.bits.toUInt64),
    (.nat 6, e.code.toItem)]

def ofItem (i : Cbor.Item) : Except Cbor.Error SnapshotEntry := do
  let r ← i.asRecord
  return ⟨⟨← (r.field 1).asInt64⟩, ← (r.field 2).asInt64, ← (r.field 3).asText,
    ⟨← (r.field 4).asInt64⟩, ⟨← (r.field 5).asByte⟩, ← Packed.ofItem (r.field 6)⟩

def listItem (l : List SnapshotEntry) : Cbor.Item :=
  .map [(.nat 1, if l.isEmpty then .null else .array (l.map toItem))]

def ofListItem (i : Cbor.Item) : Except Cbor.Error (List SnapshotEntry) := do
  (← i.asRecord).field 1 |>.asList ofItem

end SnapshotEntry

namespace Store

/-- The entry of a lock; an open lock has none. -/
def snapshotEntry (s : Store) (c : Compression) (o : Object) (l : LockRecord) :
    Except Error (Option SnapshotEntry) := do
  match ← (s.findLock o.id l.name).code with
  | none => return none
  | some code =>
    let packed ← (Packed.pack c (some code)).mapError (.packing l.name o.id)
    return some ⟨o.id, o.created, l.name, l.creator, l.flags, packed⟩

/-- The entries of all locks, by number and name. -/
def snapshotEntries (s : Store) (c : Compression) : Except Error (List SnapshotEntry) := do
  let found ← (s.objects.flatMap fun o => o.lockRecords.map (o, ·)).mapM fun (o, l) =>
    s.snapshotEntry c o l
  return found.filterMap id

/-- The snapshot of all locks, and their number. -/
def writeSnapshot (s : Store) (nonce : Bytes) (c : Compression) (key : Option Bytes) :
    Except Error (Nat × Bytes) := do
  let entries ← s.snapshotEntries c
  let raw ← (Snapshot.write nonce key (SnapshotEntry.listItem entries)).mapError .writing
  return (entries.length, raw)

end Store

namespace Db

/-- Puts the lock of an entry back, if its object is there; tells whether it did. -/
def restoreEntry (e : SnapshotEntry) : Db Error Bool := do
  -- The database may be another one, where the number is that of another object.
  if ((← store).get? e.object).any (·.created = e.created) then
    match e.code.unpack with
    | .error c => throw (.unpacking e.name e.object c)
    | .ok code =>
      setLock e.object e.name code e.creator e.flags
      return true
  else
    log ⟨.warn, "skipping lock for missing object",
      [("object", .object e.object), ("lock", .text e.name)]⟩
    return false

/-- Puts the locks of entries back, after `count` others; counts them up to the first failure.
-/
def restoreEntries (count : Nat) : List SnapshotEntry → StateM Session (Nat × Option Error)
  | [] => pure (count, none)
  | e :: rest => do
    match ← (restoreEntry e).run with
    | .error err => return (count, some err)
    | .ok true => restoreEntries (count + 1) rest
    | .ok false => restoreEntries count rest

def readEntries (key : Option Bytes) (raw : Bytes) :
    Except Snapshot.Error (List SnapshotEntry) := do
  let item ← Snapshot.read key raw
  (SnapshotEntry.ofListItem item).mapError .decoding

/-- Puts the locks of a snapshot back. Gives how many there were up to the first failure, if
any. -/
def restoreSnapshot (key : Option Bytes) (raw : Bytes) :
    StateM Session (Nat × Option Error) := do
  match readEntries key raw with
  | .error e => return (0, some (.reading e))
  | .ok entries =>
    let (count, failure) ← restoreEntries 0 entries
    if failure.isNone then
      let _ ← (log ⟨.info, "locks restored",
        [("count", .number count), ("skipped", .number (entries.length - count : Nat))]⟩ :
        Db Error Unit).run
    return (count, failure)

end Db
end Database
end Locksmith
