import Locksmith.Compression.Zstd.Huffman
import Locksmith.Compression.Zstd.Sequences
import Locksmith.Data.LittleEndian
import Locksmith.Hash.XxHash64

namespace Locksmith
namespace Zstd

/-- The first `n` bytes and the rest. -/
def takeBytes (n : Nat) (s : Bytes) : Except Error (Bytes × Bytes) :=
  if s.length < n then .error .truncated else .ok (s.take n, s.drop n)

/-- A number of `n` bytes and the rest. -/
def takeNat (n : Nat) (s : Bytes) : Except Error (Nat × Bytes) :=
  (takeBytes n s).map fun (b, r) => (LittleEndian.toNat b, r)

def blockLimit : Nat := 128 * 1024

def minWindow : Nat := 1024

/-- The largest window and the most that is decoded. -/
def sizeLimit : Nat := 1 <<< 36

/-- What later blocks of a frame may refer to. -/
structure History where
  huffman : Option Huffman.Table
  literals : Option Fse.Table
  offsets : Option Fse.Table
  lengths : Option Fse.Table
  recent : Recent

/-- The history at the start of a frame. -/
def History.initial : History := ⟨none, none, none, none, .initial⟩

/-- Decodes `size` bytes from one stream, or from four behind a table of their lengths. -/
def decodeHuffman (t : Huffman.Table) (four : Bool) (size : Nat) (s : Bytes) :
    Except Error Bytes := do
  if !four then return (← Huffman.decodeStream t size s #[]).toList
  if s.length < 10 then throw .truncated
  let (n1, s) ← takeNat 2 s
  let (n2, s) ← takeNat 2 s
  let (n3, s) ← takeNat 2 s
  let (s1, s) ← takeBytes n1 s
  let (s2, s) ← takeBytes n2 s
  let (s3, s4) ← takeBytes n3 s
  let each := (size + 3) / 4
  if size < 3 * each then throw .malformed
  let out ← Huffman.decodeStream t each s1 #[]
  let out ← Huffman.decodeStream t each s2 out
  let out ← Huffman.decodeStream t each s3 out
  return (← Huffman.decodeStream t (size - 3 * each) s4 out).toList

/-- How literals are stored: bytes of the header, bits of each size, whether there are four
streams. -/
structure LiteralsFormat where
  header : Nat
  bits : Nat
  four : Bool

/-- The format of compressed literals with the size format `n`. -/
def LiteralsFormat.ofNat (n : Nat) : LiteralsFormat :=
  match n with
  | 0 => ⟨3, 10, false⟩
  | 1 => ⟨3, 10, true⟩
  | 2 => ⟨4, 14, true⟩
  | _ => ⟨5, 18, true⟩

/-- The literals of a block, the Huffman table then in force, and what follows. -/
def readLiterals (limit : Nat) (last : Option Huffman.Table) (s : Bytes) :
    Except Error (Bytes × Option Huffman.Table × Bytes) := do
  let some head := s.head? | throw .truncated
  let kind := head.toNat % 4
  let format := head.toNat / 4 % 4
  if kind < 2 then
    let (width, shift) := match format with
      | 1 => (2, 16)
      | 3 => (3, 16)
      | _ => (1, 8)
    let (n, s) ← takeNat width s
    let size := n / shift
    if limit < size then throw .tooLarge
    if kind = 0 then
      let (lits, s) ← takeBytes size s
      return (lits, last, s)
    else
      let (b, s) ← takeBytes 1 s
      return (List.replicate size (b.headD 0), last, s)
  else
    let f := LiteralsFormat.ofNat format
    let (n, s) ← takeNat f.header s
    let size := n / 16 % (1 <<< f.bits)
    let (body, s) ← takeBytes (n / 16 / (1 <<< f.bits) % (1 <<< f.bits)) s
    if limit < size then throw .tooLarge
    if kind = 2 then
      let (table, body) ← Huffman.readTable body
      return (← decodeHuffman table f.four size body, some table, s)
    else
      let some table := last | throw .malformed
      return (← decodeHuffman table f.four size body, last, s)

/-- The number of sequences, and what follows. -/
def readSequenceCount (s : Bytes) : Except Error (Nat × Bytes) :=
  match s with
  | [] => .error .truncated
  | b :: r =>
    if b < 128 then .ok (b.toNat, r)
    else if b < 255 then (takeNat 1 r).map fun (n, r) => ((b.toNat - 128) * 256 + n, r)
    else (takeNat 2 r).map fun (n, r) => (n + 0x7F00, r)

/-- Decodes a compressed block onto `out`, whose frame starts at `start`. -/
def decodeBlock (window start : Nat) (h : History) (s : Bytes) (out : Array UInt8) :
    Except Error (History × Array UInt8) := do
  let limit := min blockLimit window
  let (lits, huffman, s) ← readLiterals limit h.huffman s
  let (n, s) ← readSequenceCount s
  if n = 0 then
    if !s.isEmpty then throw .malformed
    return ({ h with huffman }, out ++ lits)
  let (modes, s) ← takeNat 1 s
  if modes % 4 ≠ 0 then throw .malformed
  let (literals, s) ← CodeKind.literals.readTable (modes / 64) h.literals s
  let (offsets, s) ← CodeKind.offsets.readTable (modes / 16 % 4) h.offsets s
  let (lengths, s) ← CodeKind.lengths.readTable (modes / 4 % 4) h.lengths s
  let sequences ← decodeSequences ⟨literals, offsets, lengths⟩ n s
  let (recent, rest, out') ← execute window start (out.size + limit) sequences.toList
    h.recent lits out
  if out.size + limit < out'.size + rest.length then throw .tooLarge
  return (⟨huffman, some literals, some offsets, some lengths, recent⟩, out' ++ rest)

/-- Decodes the blocks of a frame onto `out`, and gives what follows the last. -/
def decodeBlocks (window start : Nat) : (fuel : Nat) → History → Bytes → Array UInt8 →
    Except Error (Bytes × Array UInt8)
  | 0, _, _, _ => .error .truncated
  | fuel + 1, h, s, out => do
    let (head, s) ← takeNat 3 s
    let size := head / 8
    if min blockLimit window < size then throw .tooLarge
    let (h, s, out) ←
      match head / 2 % 4 with
      | 0 => do
        let (b, s) ← takeBytes size s
        pure (h, s, out ++ b)
      | 1 => do
        let (b, s) ← takeBytes 1 s
        pure (h, s, out ++ List.replicate size (b.headD 0))
      | 2 => do
        if size < 2 then throw .malformed
        let (b, s) ← takeBytes size s
        let (h, out) ← decodeBlock window start h b out
        pure (h, s, out)
      | _ => throw .unsupported
    if sizeLimit < out.size then throw .tooLarge
    if head % 2 = 1 then return (s, out)
    decodeBlocks window start fuel h s out

structure Header where
  window : Nat
  content : Option Nat
  checksum : Bool

/-- Reads a frame header, after its magic number. -/
def readHeader (s : Bytes) : Except Error (Header × Bytes) := do
  let (d, s) ← takeNat 1 s
  let single := d / 32 % 2 = 1
  if d / 8 % 2 = 1 then throw .unsupported
  let (window, s) ←
    if single then pure (0, s)
    else do
      let (w, s) ← takeNat 1 s
      let base := 1 <<< (10 + w / 8)
      pure (base + base / 8 * (w % 8), s)
  let (dictionary, s) ← takeNat ([0, 1, 2, 4].getD (d % 4) 0) s
  let width := match d / 64 with
    | 0 => if single then 1 else 0
    | k => 1 <<< k
  let (content, s) ← takeNat width s
  let content := if width = 2 then content + 256 else content
  if dictionary ≠ 0 then throw .unsupported
  let window := if single then max content minWindow else window
  if sizeLimit < window || sizeLimit < content then throw .tooLarge
  return (⟨window, if width = 0 then none else some content, d / 4 % 2 = 1⟩, s)

def magic : Nat := 0xFD2FB528

/-- Decodes frames onto `out` until nothing follows; others may be skipped. -/
def decodeFrames : (fuel : Nat) → Bytes → Array UInt8 → Except Error (Array UInt8)
  | 0, _, _ => .error .truncated
  | fuel + 1, s, out => do
    if s.isEmpty then return out
    let (m, s) ← takeNat 4 s
    if m / 16 = 0x184D2A5 then
      let (n, s) ← takeNat 4 s
      let (_, s) ← takeBytes n s
      decodeFrames fuel s out
    else if m = magic then
      let (header, s) ← readHeader s
      let start := out.size
      let (s, out) ← decodeBlocks header.window start (s.length + 1) .initial s out
      if header.content.any (· ≠ out.size - start) then throw .malformed
      let s ←
        if header.checksum then do
          let (sum, s) ← takeNat 4 s
          if sum ≠ (XxHash64.hash (out.extract start out.size).toList).toNat % (1 <<< 32) then
            throw .checksum
          pure s
        else pure s
      decodeFrames fuel s out
    else throw .malformed

/-- Decodes all frames of `s`. -/
def decode (s : Bytes) : Except Error Bytes :=
  (decodeFrames (s.length + 1) s #[]).map Array.toList

end Zstd
end Locksmith
