import Locksmith.Chunk.Store
import Locksmith.Files.System

namespace Locksmith
namespace Chunk
namespace Table

/-- How many connections are kept open unless a number above zero is given. -/
def defaultPool : Int := 4

inductive Error where
  | noPath
  | noTable (path : Bytes)
  | file (e : FileError)
deriving DecidableEq, Repr

def Error.message : Error → Bytes
  | noPath => "chunk: sqlite path is required"
  | noTable path => "chunk: opening " ++ path ++ ": not a chunk table"
  | file e => "chunk: opening " ++ e.path ++ ": " ++ e.message

def rowItem (e : ChunkRef × Packed) : Cbor.Item :=
  .map [(.nat 1, .nat e.1.num), (.nat 2, e.2.toItem)]

def refOfItem (i : Cbor.Item) : Except Cbor.Error ChunkRef :=
  (i.asInt 0 0xffffffffffffffff).map fun n => ⟨UInt64.ofNat n.toNat⟩

def rowOfItem (i : Cbor.Item) : Except Cbor.Error (ChunkRef × Packed) := do
  let r ← i.asRecord
  return (← refOfItem (r.field 1), ← Packed.ofItem (r.field 2))

def content (s : Store) : Bytes :=
  (Cbor.Item.map [(.nat 1, .nat s.next.num),
    (.nat 2, .array (s.chunks.toList.map rowItem))]).encode

/-- The table that a file holds; an empty file holds an empty one. -/
def ofContent (c : Compression) (raw : Bytes) : Except Cbor.Error Store :=
  if raw.isEmpty then .ok (.empty .table c)
  else do
    let r ← (← Cbor.decode raw).asRecord
    return ⟨.table, c, ← refOfItem (r.field 1), .ofList (← (r.field 2).asList rowOfItem)⟩

/-- The table that a file holds, given what reading the file gave. -/
def kept (path : Bytes) (c : Compression) : Except FileError Bytes → Except Error (Option Store)
  | .ok raw => ((ofContent c raw).mapError fun _ => .noTable path).map some
  | .error e => if e.action = .open && e.cause = .notFound then .ok none else .error (.file e)

/-- Opens the table in the file at `path`, which so far holds `kept`; gives what is logged. -/
def openAt (path : Bytes) (pool : Int) (c : Compression) (kept : Option Store) :
    Except Error (Store × Log.Record) :=
  if path.isEmpty then .error .noPath
  else
    let store := (kept.map fun s => { s with compression := c }).getD (.empty .table c)
    .ok (store, ⟨.info, "chunk store opened",
      [("path", .text path), ("pool_size", .number (if pool ≤ 0 then defaultPool else pool))]⟩)

/-- What is logged when a table is closed. -/
def closed (path : Bytes) : Log.Record := ⟨.info, "chunk store closed", [("path", .text path)]⟩

end Table
end Chunk
end Locksmith
