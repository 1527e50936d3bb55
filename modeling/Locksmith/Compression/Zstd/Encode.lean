import Locksmith.Compression.Zstd.Frame

namespace Locksmith
namespace Zstd

/-- The last code whose numbers start at or below `n`, with its range. -/
def codeOf (k : CodeKind) (n : Nat) : Nat × Range :=
  let i := (k.ranges.toList.takeWhile (·.base ≤ n)).length - 1
  (i, k.ranges.getD i ⟨0, 0⟩)

/-- The shortest copy that gets a block of its own. -/
def minLength : Nat := 24

/-- The most bytes in one stored block, and in all copies of a run but its first. -/
def pieceLimit : Nat := 32768

/-- The shortest copy that can be written. -/
def leastCopy : Nat := 3

/-- The header of a block of kind `kind`. -/
def blockHeader (last : Bool) (kind size : Nat) : Bytes :=
  LittleEndian.ofNat 3 (size * 8 + kind * 2 + if last then 1 else 0)

def storedBlock (last : Bool) (data : Bytes) : Bytes := blockHeader last 0 data.length ++ data

/-- A block with some literals and one copy. -/
def runBlock (r : Matches.Run) : Bytes :=
  let (ll, lr) := codeOf .literals r.literals.length
  let (of, or) := codeOf .offsets (r.offset + 3)
  let (ml, mr) := codeOf .lengths r.length
  let bits :=
    ((1 <<< or.bits + (r.offset + 3 - or.base)) <<< mr.bits +
      (r.length - mr.base)) <<< lr.bits + (r.literals.length - lr.base)
  let body := LittleEndian.ofNat 3 (r.literals.length * 16 + 12) ++ r.literals ++
    [1, 0x54, ll.toUInt8, of.toUInt8, ml.toUInt8] ++ LittleEndian.ofNat (bits.log2 / 8 + 1) bits
  blockHeader false 2 body.length ++ body

/-- The blocks of a run: stored blocks for far too many literals, and the copy in pieces. The
first piece takes what the others leave, and no less than can be written. -/
def runBlocks (r : Matches.Run) : Bytes :=
  let stored := r.literals.length / pieceLimit * pieceLimit
  let full := (r.length - leastCopy) / pieceLimit
  let copy :=
    (Bytes.pieces (pieceLimit - 1) (r.literals.take stored)).flatMap (storedBlock false)
  let first : Matches.Run := ⟨r.literals.drop stored, r.offset, r.length - full * pieceLimit⟩
  copy ++ runBlock first ++
    (List.replicate full (runBlock ⟨[], r.offset, pieceLimit⟩)).flatten

/-- A frame that decodes to `data`. -/
def encode (data : Bytes) : Bytes :=
  let (runs, rest) := Matches.ofBytes minLength data
  LittleEndian.ofNat 4 magic ++ (0xA0 :: LittleEndian.ofNat 4 data.length) ++
    runs.flatMap runBlocks ++
    (Bytes.pieces (pieceLimit - 1) rest).flatMap (storedBlock false) ++ storedBlock true []

end Zstd
end Locksmith
