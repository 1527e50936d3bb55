import Locksmith.Compression.Lz4
import Locksmith.Compression.Zstd.Encode
import Locksmith.Text.Decimal
import Locksmith.Text.Quoted

namespace Locksmith

/-- A way to compress, by its number. Numbers from three on have no meaning. -/
structure Compression where
  tag : UInt8
deriving DecidableEq, Repr, Inhabited

/-- The largest chunk, and the largest size that decompression accepts. -/
def maxChunkSize : Nat := 1048576

namespace Compression

def none : Compression := ⟨0⟩

def lz4 : Compression := ⟨1⟩

def zstd : Compression := ⟨2⟩

def name (c : Compression) : Bytes :=
  match c.tag with
  | 0 => "none"
  | 1 => "lz4"
  | 2 => "zstd"
  | n => "unknown(" ++ Decimal.ofNat n.toNat ++ ")"

def ofName? (s : Bytes) : Option Compression :=
  if s = [] ∨ s = none.name then some none
  else if s = lz4.name then some lz4
  else if s = zstd.name then some zstd
  else Option.none

/-- The complaint about a name that stands for nothing. -/
def unknownName (s : Bytes) : Bytes := "unknown compression " ++ Quoted.text s

inductive Error where
  | incompressible
  | unsupported (c : Compression)
deriving DecidableEq, Repr

def Error.message : Error → Bytes
  | incompressible => "data is incompressible"
  | unsupported c => "unsupported compression " ++ c.name

/-- The encoding of `data` if it is shorter. -/
def ifSmaller (data encoded : Bytes) : Except Error Bytes :=
  if encoded.length < data.length then .ok encoded else .error .incompressible

def compress (c : Compression) (data : Bytes) : Except Error Bytes :=
  match c.tag with
  | 0 => .ok data
  | 1 => ifSmaller data (Lz4.encode data)
  | 2 => ifSmaller data (Zstd.encode data)
  | _ => .error (.unsupported c)

inductive DecodeError where
  | sizeOutOfRange (size : Int)
  | unsupported (c : Compression)
  | stored (got want : Nat)
  | lz4 (e : Lz4.Error)
  | lz4Size (got want : Nat)
  | zstd (e : Zstd.Error)
  | zstdSize (got want : Nat)
deriving DecidableEq, Repr

def DecodeError.message : DecodeError → Bytes
  | sizeOutOfRange n =>
    "chunk size " ++ Decimal.ofInt n ++ " out of range [0, " ++
      Decimal.ofNat maxChunkSize ++ "]"
  | unsupported c => "unsupported compression " ++ c.name
  | stored got want =>
    "uncompressed chunk is " ++ Decimal.ofNat got ++ " bytes, expected " ++ Decimal.ofNat want
  | lz4 e => "lz4 decompress: " ++ e.message
  | lz4Size got want =>
    "lz4 decompress: got " ++ Decimal.ofNat got ++ " bytes, expected " ++ Decimal.ofNat want
  | zstd e => "zstd decompress: " ++ e.message
  | zstdSize got want =>
    "zstd decompress: got " ++ Decimal.ofNat got ++ " bytes, expected " ++ Decimal.ofNat want

/-- The data if it has the expected size. -/
def ofSize (want : Nat) (wrong : Nat → Nat → DecodeError) (data : Bytes) :
    Except DecodeError Bytes :=
  if data.length = want then .ok data else .error (wrong data.length want)

/-- Decompresses data whose size is known. -/
def decompress (c : Compression) (size : Int) (data : Bytes) : Except DecodeError Bytes :=
  if size < 0 ∨ maxChunkSize < size then .error (.sizeOutOfRange size)
  else
    let n := size.toNat
    match c.tag with
    | 0 => ofSize n .stored data
    | 1 => (Lz4.decode n data).mapError .lz4 >>= ofSize n .lz4Size
    | 2 => (Zstd.decode data).mapError .zstd >>= ofSize n .zstdSize
    | _ => .error (.unsupported c)

end Compression
end Locksmith
