import Locksmith.Chunk.Snapshot
import Locksmith.Chunk.Store
import Locksmith.Lock.Compile

namespace Locksmith
namespace Database

/-- Why the database cannot do something. -/
inductive Error where
  | noObject (d : Dbref)
  | nothingToMove (d : Dbref)
  | badNumber (d : Dbref)
  | taken (d : Dbref)
  | noDestination (d : Dbref)
  | intoItself (d : Dbref)
  | noAttribute (d : Dbref) (name : Bytes)
  | permission
  | compiling (lockType : Bytes) (e : CompileError)
  | storing (lock : Bytes) (d : Dbref) (e : Chunk.Error)
  | fetching (lock : Bytes) (d : Dbref) (e : Chunk.Error)
  | copying (lock : Bytes) (d : Dbref) (e : Chunk.Error)
  | packing (lock : Bytes) (d : Dbref) (e : Packed.Error)
  | unpacking (lock : Bytes) (d : Dbref) (c : Packed.Corruption)
  | writing (e : Sealing.Error)
  | reading (e : Snapshot.Error)
deriving DecidableEq, Repr

def Error.message : Error → Bytes
  | noObject d | nothingToMove d => "object " ++ d.render ++ " does not exist"
  | badNumber d => "invalid object id " ++ d.render
  | taken d => "object " ++ d.render ++ " already exists"
  | noDestination d => "destination " ++ d.render ++ " does not exist"
  | intoItself d => "cannot move " ++ d.render ++ " into itself"
  | noAttribute d name => d.render ++ " has no attribute " ++ name
  | permission => "permission denied"
  | compiling lockType e => e.message lockType
  | storing lock d e => "storing " ++ lock ++ " lock on " ++ d.render ++ ": " ++ e.message
  | fetching lock d e => "fetching " ++ lock ++ " lock on " ++ d.render ++ ": " ++ e.message
  | copying lock d e => "copying " ++ lock ++ " lock from " ++ d.render ++ ": " ++ e.message
  | packing lock d e => "packing " ++ lock ++ " lock on " ++ d.render ++ ": " ++ e.message
  | unpacking lock d c => lock ++ " lock on " ++ d.render ++ ": " ++ c.message
  | writing e => Snapshot.writeFailure e
  | reading e => e.message

end Database
end Locksmith
