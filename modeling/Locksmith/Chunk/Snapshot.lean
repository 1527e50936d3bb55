import Locksmith.Cbor.Fields
import Locksmith.Chunk.Digest
import Locksmith.Chunk.Seal

namespace Locksmith
namespace Snapshot

def magic : Bytes := "MUSHLOCK"

def version : UInt8 := 1

/-- Set in the last byte of the header if the body is sealed. -/
def sealedFlag : UInt8 := 1

def headerSize : Nat := 10

inductive Error where
  | notSnapshot
  | version (v : UInt8)
  | noKey
  | unsealing (e : Sealing.Error)
  | decoding (e : Cbor.Error)
  | digestMismatch
deriving DecidableEq, Repr

def Error.message : Error → Bytes
  | notSnapshot => "not a lock snapshot"
  | version v => "snapshot version " ++ Decimal.ofNat v.toNat ++ " is not supported"
  | noKey => "snapshot is sealed and no key was given"
  | unsealing e => e.message
  | decoding e => "decoding snapshot: " ++ e.message
  | digestMismatch => "snapshot: chunk is corrupt: digest mismatch"

def header (isSealed : Bool) : Bytes := magic ++ [version, if isSealed then sealedFlag else 0]

def body (payload : Bytes) : Cbor.Item :=
  .map [(.nat 1, .bytes (Digest.ofSnapshot payload).toBytes), (.nat 2, .bytes payload)]

def write (nonce : Bytes) (key : Option Bytes) (item : Cbor.Item) :
    Except Sealing.Error Bytes :=
  let b := (body item.encode).encode
  match key with
  | none => .ok (header false ++ b)
  | some key => (Sealing.wrap nonce key (header true) b).map (header true ++ ·)

def writeFailure (e : Sealing.Error) : Bytes := "sealing snapshot: " ++ e.message

def read (key : Option Bytes) (raw : Bytes) : Except Error Cbor.Item := do
  if raw.length < headerSize || !raw.startsWith magic then throw .notSnapshot
  let head := raw.take headerSize
  let v := head.getD 8 0
  if v ≠ version then throw (.version v)
  let b ←
    if head.getD 9 0 &&& sealedFlag ≠ 0 then
      match key with
      | none => throw .noKey
      | some key => (Sealing.unwrap key head (raw.drop headerSize)).mapError .unsealing
    else pure (raw.drop headerSize)
  let r ← (Cbor.decode b >>= Cbor.Item.asRecord).mapError .decoding
  let digest ← ((r.field 1).asBlock 32).mapError .decoding
  let payload ← ((r.field 2).asBytes).mapError .decoding
  if Digest.ofSnapshot (payload.getD []) ≠ .ofBytes digest then throw .digestMismatch
  (Cbor.decode (payload.getD [])).mapError .decoding

end Snapshot
end Locksmith
