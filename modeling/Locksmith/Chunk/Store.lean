import Locksmith.Chunk.Packed
import Locksmith.Data.SortedMap
import Locksmith.Log.Record

namespace Locksmith
namespace Chunk

inductive Medium where
  | memory
  | table
deriving DecidableEq, Repr

/-- Chunks under references that are handed out in increasing order and never again. A table has
no absent data, and a copy in memory of empty data is absent. -/
structure Store where
  medium : Medium
  compression : Compression
  next : ChunkRef
  chunks : SortedMap ChunkRef Packed

inductive Action where
  | fetching
  | deleting
  | duplicating
deriving DecidableEq, Repr

def Action.word : Action → Bytes
  | fetching => "fetching"
  | deleting => "deleting"
  | duplicating => "duplicating"

inductive Error where
  | packing (e : Packed.Error)
  | notFound (a : Action) (ref : ChunkRef)
  | corrupt (ref : ChunkRef) (c : Packed.Corruption)
deriving DecidableEq, Repr

def Error.message : Error → Bytes
  | packing e => "packing chunk: " ++ e.message
  | notFound a ref => a.word ++ " " ++ ref.render ++ ": chunk not found"
  | corrupt ref c => "fetching " ++ ref.render ++ ": " ++ c.message

namespace Store

def empty (medium : Medium) (c : Compression) : Store := ⟨medium, c, ⟨1⟩, .empty⟩

/-- Keeps a chunk under the next reference. -/
def append (s : Store) (p : Packed) : ChunkRef × Store :=
  (s.next, { s with next := ⟨s.next.num + 1⟩, chunks := s.chunks.insert s.next p })

def create (s : Store) (data : Option Bytes) : Except Error (ChunkRef × Store) := do
  let p ← (Packed.pack s.compression data).mapError .packing
  -- A row does not tell absent data from empty data.
  return s.append (if s.medium = .table then { p with data := some (p.data.getD []) } else p)

def fetch (s : Store) (ref : ChunkRef) : Except Error (Option Bytes) :=
  match s.chunks.get? ref with
  | none => .error (.notFound .fetching ref)
  | some p => p.unpack.mapError (.corrupt ref)

def delete (s : Store) (ref : ChunkRef) : Except Error Store :=
  if s.chunks.contains ref then .ok { s with chunks := s.chunks.erase ref }
  else .error (.notFound .deleting ref)

/-- Keeps a copy of a chunk under a new reference. -/
def duplicate (s : Store) (ref : ChunkRef) : Except Error (ChunkRef × Store) :=
  match s.chunks.get? ref with
  | none => .error (.notFound .duplicating ref)
  -- In memory the copy of empty data is absent data.
  | some p =>
    .ok (s.append
      (if s.medium = .memory && p.data = some [] then { p with data := none } else p))

def size (s : Store) : Nat := s.chunks.size

def byteCount (s : Store) : Nat := (s.chunks.toList.flatMap fun e => e.2.data.getD []).length

end Store
end Chunk
end Locksmith
