import Locksmith.Compression.Zstd.Fse

namespace Locksmith
namespace Zstd
namespace Huffman

/-- A code: the symbol and the length of its word. -/
structure Code where
  symbol : UInt8
  bits : Nat
deriving Inhabited

/-- For every `maxBits` bits the code that starts them. -/
structure Table where
  maxBits : Nat
  codes : Array Code

def bitLimit : Nat := 11

/-- The most weights that are written down. -/
def weightLimit : Nat := 255

/-- The table of the given weights and one more, which completes the code. -/
def Table.ofWeights (weights : List Nat) : Except Error Table := do
  if weights.any (bitLimit < ·) then throw .malformed
  let total := weights.foldl (fun n w => n + (1 <<< w) / 2) 0
  if total = 0 then throw .malformed
  let maxBits := total.log2 + 1
  if bitLimit < maxBits then throw .malformed
  let rest := 1 <<< maxBits - total
  if 1 <<< rest.log2 ≠ rest then throw .malformed
  let weights := weights ++ [rest.log2 + 1]
  let ones := weights.count 1
  if ones < 2 || ones % 2 ≠ 0 then throw .malformed
  let codes := (List.range maxBits).flatMap fun i =>
    weights.zipIdx.flatMap fun (w, s) =>
      if w = i + 1 then List.replicate (1 <<< i) ⟨s.toUInt8, maxBits - i⟩ else []
  return ⟨maxBits, codes.toArray⟩

/-- Reads the weights at the start of `s`, and what follows them. -/
def readTable (s : Bytes) : Except Error (Table × Bytes) := do
  match s with
  | [] => throw .truncated
  | head :: s =>
    if 128 ≤ head then
      let n := head.toNat - 127
      let size := (n + 1) / 2
      if s.length < size then throw .truncated
      let weights := ((s.take size).flatMap fun b => [b.toNat / 16, b.toNat % 16]).take n
      return (← Table.ofWeights weights, s.drop size)
    else
      let size := head.toNat
      if s.length < size then throw .truncated
      let (table, bits) ← Fse.readTable 15 256 (s.take size)
      let some r := BitStream.ofBytes? bits | throw .malformed
      let some (a, r) := r.read? table.log | throw .truncated
      let some (b, r) := r.read? table.log | throw .truncated
      let weights ← Fse.interleaved table (weightLimit + 1) a b r #[]
      if weightLimit < weights.size then throw .malformed
      return (← Table.ofWeights weights.toList, s.drop size)

/-- Decodes `n` bytes onto `out`. -/
def decodeBytes (t : Table) :
    (n : Nat) → BitStream → Array UInt8 → Except Error (BitStream × Array UInt8)
  | 0, r, out => .ok (r, out)
  | n + 1, r, out =>
    let c := t.codes.getD (r.peek t.maxBits) ⟨0, 1⟩
    if c.bits ≤ r.left then
      decodeBytes t n { r with left := r.left - c.bits } (out.push c.symbol)
    else .error .truncated

/-- Decodes a stream of exactly `n` bytes onto `out`. -/
def decodeStream (t : Table) (n : Nat) (s : Bytes) (out : Array UInt8) :
    Except Error (Array UInt8) := do
  let some r := BitStream.ofBytes? s | throw .malformed
  let (r, out) ← decodeBytes t n r out
  if r.left ≠ 0 then throw .malformed
  return out

end Huffman
end Zstd
end Locksmith
