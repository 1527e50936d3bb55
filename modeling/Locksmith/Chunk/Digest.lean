import Locksmith.Hash.Blake3
import Locksmith.Text.Decimal
import Locksmith.Text.Hex

namespace Locksmith

structure Digest where
  bytes : Vector UInt8 32
deriving DecidableEq, Repr, Inhabited

namespace Digest

/-- The first 32 bytes of a text, zeros where it is shorter. -/
def ofBytes (s : Bytes) : Digest :=
  let a := s.toArray
  ⟨Vector.ofFn fun i => a.getD i 0⟩

def toBytes (d : Digest) : Bytes := d.bytes.toList

/-- The digest under a key named by a text. -/
def keyed (name data : Bytes) : Digest :=
  ofBytes (Blake3.keyedHash (ofBytes name).toBytes data)

def ofChunk (data : Bytes) : Digest := keyed "mushlock.chunk" data

def ofSnapshot (data : Bytes) : Digest := keyed "mushlock.snapshot" data

def render (d : Digest) : Bytes := Hex.encode d.toBytes

inductive Error where
  | notHex (e : Hex.Error)
  | size (n : Nat)
deriving DecidableEq, Repr

def Error.message : Error → Bytes
  | notHex e => "parsing digest: " ++ e.message
  | size n => "digest is " ++ Decimal.ofNat n ++ " bytes, want 32"

def parse (s : Bytes) : Except Error Digest :=
  match Hex.decode s with
  | .error e => .error (.notHex e)
  | .ok raw => if raw.length = 32 then .ok (ofBytes raw) else .error (.size raw.length)

end Digest
end Locksmith
