import Locksmith.Database.LockSnapshot
import Locksmith.Files.System

namespace Locksmith
namespace Database

inductive DumpReason where
  | shutdown
  | checkpoint
  | emergency
  | other (number : Int)
deriving DecidableEq, Repr

namespace DumpReason

def ofNumber (n : Int) : DumpReason :=
  if n = 0 then shutdown else if n = 1 then checkpoint else if n = 2 then emergency else other n

def name : DumpReason → Bytes
  | shutdown => "shutdown"
  | checkpoint => "checkpoint"
  | emergency => "panic"
  | other _ => "unknown"

end DumpReason

inductive CheckpointError where
  | creating (e : FileError)
  | taking (e : Error)
  | writing (e : FileError)
  | closing (e : FileError)
  | replacing (e : FileError)
  | makingFolder (e : FileError)
  | opening (e : FileError)
  | reading (e : FileError)
  | restoring (e : Error)
deriving Repr

def CheckpointError.message : CheckpointError → Bytes
  | creating e => "create temp file: " ++ e.message
  | taking e => "write snapshot: " ++ e.message
  | writing e => "write snapshot: writing snapshot: " ++ e.message
  | closing e => "close temp file: " ++ e.message
  | replacing e => "rename temp to snapshot: " ++ e.message
  | makingFolder e => "create directory: " ++ e.message
  | opening e => e.message
  | reading e => "reading snapshot: " ++ e.message
  | restoring e => e.message

/-- Where and how snapshots are written. -/
structure Checkpointer where
  path : Bytes
  /-- The time between two checkpoints; none are made by themselves if it is not positive. -/
  interval : Duration
  compression : Compression
  key : Option Bytes
  /-- Which of the two temporary names is next. -/
  second : Bool
  /-- Whether a checkpoint succeeded. -/
  saved : Bool

namespace Checkpointer

/-- A checkpointer that has written nothing yet. -/
def new (path : Bytes) (interval : Duration) (compression : Compression) (key : Option Bytes) :
    Checkpointer :=
  ⟨path, interval, compression, key, false, false⟩

def temporary (c : Checkpointer) (second : Bool) : Bytes :=
  c.path ++ if second then ".#1#" else ".#0#"

def emergencyPath (c : Checkpointer) : Bytes := c.path ++ ".PANIC"

section
variable {m : Type → Type} [Monad m] (fs : FileSystem m)

/-- Does one thing with a file after another, up to the first refusal. -/
def inTurn : List (m (Except FileError Unit)) → m (Except FileError Unit)
  | [] => pure (.ok ())
  | a :: rest => do
    match ← a with
    | .ok () => inTurn rest
    | .error e => return .error e

/-- Ends the writing of a file that is of no use, and removes it. -/
def abandon (path : Bytes) (e : CheckpointError) : m (Except CheckpointError Nat) := do
  let _ ← fs.close path
  let _ ← fs.remove path
  return .error e

/-- Writes a snapshot to a file; gives the number of locks. -/
def writeFile (c : Checkpointer) (nonce : Bytes) (s : Store) (path : Bytes) :
    m (Except CheckpointError Nat) := do
  match ← fs.create path with
  | .error e => return .error (.creating e)
  | .ok () =>
    match s.writeSnapshot nonce c.compression c.key with
    | .error e => abandon fs path (.taking e)
    | .ok (count, raw) =>
      match ← inTurn [fs.append path (raw.take Snapshot.headerSize),
        fs.append path (raw.drop Snapshot.headerSize)] with
      | .error e => abandon fs path (.writing e)
      | .ok () =>
        match ← fs.close path with
        | .ok () => return .ok count
        | .error e =>
          let _ ← fs.remove path
          return .error (.closing e)

/-- Puts a file in place of another. If that is refused, the other one is removed first, or set
aside. -/
def replaceFile (source target : Bytes) : m (Except FileError Unit) := do
  match ← fs.rename source target with
  | .ok () => return .ok ()
  | .error e =>
    match ← fs.remove target with
    -- The old file is gone, whether the new one takes its place or not.
    | .ok () => fs.rename source target
    | .error _ =>
      let aside := target ++ ".bak"
      match ← fs.rename target aside with
      | .error _ => return .error e
      | .ok () =>
        match ← fs.rename source target with
        | .ok () =>
          let _ ← fs.remove aside
          return .ok ()
        | .error _ =>
          -- The first refusal is reported, whatever becomes of the way back.
          let _ ← fs.rename aside target
          return .error e

def dumpInEmergency (c : Checkpointer) (nonce : Bytes) (s : Store) :
    m (Except CheckpointError Log.Record) := do
  match ← c.writeFile fs nonce s c.emergencyPath with
  | .error e => return .error e
  | .ok count =>
    return .ok ⟨.warn, "panic snapshot written",
      [("path", .text c.emergencyPath), ("locks", .number count)]⟩

/-- Writes a snapshot and puts it in place of the last one; gives what is logged. -/
def checkpoint (c : Checkpointer) (nonce : Bytes) (s : Store) (reason : DumpReason) :
    m (Except CheckpointError Log.Record × Checkpointer) := do
  if reason = .emergency then return (← c.dumpInEmergency fs nonce s, c)
  let path := c.temporary c.second
  match ← c.writeFile fs nonce s path with
  | .error e => return (.error e, c)
  | .ok count =>
    let _ ← fs.remove (c.temporary !c.second)
    match ← replaceFile fs path c.path with
    | .error e => return (.error (.replacing e), c)
    | .ok () =>
      return (.ok ⟨.info, "checkpoint completed",
        [("reason", .text reason.name), ("locks", .number count)]⟩,
        { c with saved := true, second := !c.second })

/-- Writes a snapshot to another file, whose folder is made if need be. -/
def dumpTo (c : Checkpointer) (nonce : Bytes) (s : Store) (path : Bytes) :
    m (Except CheckpointError Nat) := do
  let folder := Path.folder path
  let made ← if folder = "." then pure (.ok ()) else fs.makeFolders folder
  match made with
  | .error e => return .error (.makingFolder e)
  | .ok () => c.writeFile fs nonce s path

/-- Puts the locks of the last snapshot back, if there is one. -/
def restore (c : Checkpointer) (st : Session) :
    m ((Nat × Option CheckpointError) × Session) := do
  match ← fs.read c.path with
  | .error e =>
    if e.action = .read then return ((0, some (.reading e)), st)
    else if e.cause = .notFound then return ((0, none), st)
    else return ((0, some (.opening e)), st)
  | .ok raw =>
    let ((count, failure), st) := Db.restoreSnapshot c.key raw st
    return ((count, failure.map .restoring), st)

end
end Checkpointer
end Database
end Locksmith
