import Locksmith.Cbor.Fields
import Locksmith.Chunk.Compression
import Locksmith.Chunk.Digest

namespace Locksmith

structure Packed where
  compression : Compression
  size : Int64
  digest : Digest
  data : Option Bytes
deriving DecidableEq, Repr, Inhabited

namespace Packed

inductive Error where
  | tooLarge (n : Nat)
  | unsupported (c : Compression)
deriving DecidableEq, Repr

def Error.message : Error → Bytes
  | tooLarge n =>
    "chunk is " ++ Decimal.ofNat n ++ " bytes, limit is " ++ Decimal.ofNat maxChunkSize
  | unsupported c => (Compression.Error.unsupported c).message

/-- Packs data, without compression if it does not get shorter. -/
def pack (c : Compression) (data : Option Bytes) : Except Error Packed :=
  let raw := data.getD []
  if maxChunkSize < raw.length then .error (.tooLarge raw.length)
  else
    let size := Int64.ofNat raw.length
    let digest := Digest.ofChunk raw
    if c = Compression.none then .ok ⟨c, size, digest, data⟩
    else
      match c.compress raw with
      | .ok out => .ok ⟨c, size, digest, some out⟩
      | .error .incompressible => .ok ⟨Compression.none, size, digest, data⟩
      | .error (.unsupported c) => .error (.unsupported c)

inductive Corruption where
  | undecodable (e : Compression.DecodeError)
  | digestMismatch
deriving DecidableEq, Repr

def Corruption.message : Corruption → Bytes
  | undecodable e => "chunk is corrupt: " ++ e.message
  | digestMismatch => "chunk is corrupt: digest mismatch"

/-- The data of a stored chunk, if size and digest are right. -/
def unpack (p : Packed) : Except Corruption (Option Bytes) := do
  let raw ← (p.compression.decompress p.size.toInt (p.data.getD [])).mapError .undecodable
  if Digest.ofChunk raw ≠ p.digest then throw .digestMismatch
  return if p.compression = Compression.none then p.data else some raw

/-- Absent bytes are null. -/
def dataItem : Option Bytes → Cbor.Item
  | some s => .bytes s
  | none => .null

def toItem (p : Packed) : Cbor.Item :=
  .map [(.nat 1, .nat p.compression.tag.toUInt64), (.nat 2, .ofInt64 p.size),
    (.nat 3, .bytes p.digest.toBytes), (.nat 4, dataItem p.data)]

def ofItem (i : Cbor.Item) : Except Cbor.Error Packed := do
  let r ← i.asRecord
  return ⟨⟨← (r.field 1).asByte⟩, ← (r.field 2).asInt64, .ofBytes (← (r.field 3).asBlock 32),
    ← (r.field 4).asBytes⟩

end Packed
end Locksmith
