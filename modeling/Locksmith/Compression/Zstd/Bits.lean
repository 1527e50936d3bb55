import Locksmith.Text.Bytes

namespace Locksmith
namespace Zstd

inductive Error where
  | truncated
  | malformed
  | unsupported
  | tooLarge
  | checksum
deriving DecidableEq, Repr

def Error.message : Error → Bytes
  | truncated => "unexpected end of data"
  | malformed => "malformed data"
  | unsupported => "unsupported feature"
  | tooLarge => "size limit exceeded"
  | checksum => "checksum mismatch"

/-- Bit `i` of some bytes, counted from the low bit of the first one. -/
def bitAt (data : Array UInt8) (i : Nat) : Nat :=
  ((data.getD (i / 8) 0) >>> (i % 8).toUInt8 &&& 1).toNat

/-- The number in `n` bits from `pos` on, low bit first. -/
def slice (data : Array UInt8) (pos : Nat) : Nat → Nat
  | 0 => 0
  | n + 1 => bitAt data pos + 2 * slice data (pos + 1) n

/-- A stream of bits read from its end, of which `left` are unread. -/
structure BitStream where
  data : Array UInt8
  left : Nat

namespace BitStream

/-- The stream below the highest set bit of the last byte. -/
def ofBytes? (s : Bytes) : Option BitStream :=
  match s.getLast? with
  | none => none
  | some b => if b = 0 then none else some ⟨s.toArray, 8 * (s.length - 1) + b.toNat.log2⟩

/-- Takes `n` bits. -/
def read? (n : Nat) (r : BitStream) : Option (Nat × BitStream) :=
  if n ≤ r.left then some (slice r.data (r.left - n) n, { r with left := r.left - n }) else none

/-- The next `n` bits, zeros below the end of the stream. -/
def peek (n : Nat) (r : BitStream) : Nat :=
  if n ≤ r.left then slice r.data (r.left - n) n
  else slice r.data 0 r.left <<< (n - r.left)

end BitStream
end Zstd
end Locksmith
