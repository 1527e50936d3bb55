import Locksmith.Text.Bytes

namespace Locksmith
namespace Word

/-- Rotates left by `n` bits, `0 < n < 32`. -/
@[inline] def rotateLeft (x n : UInt32) : UInt32 := x <<< n ||| x >>> (32 - n)

/-- Rotates right by `n` bits, `0 < n < 32`. -/
@[inline] def rotateRight (x n : UInt32) : UInt32 := x >>> n ||| x <<< (32 - n)

/-- Rotates left by `n` bits, `0 < n < 64`. -/
@[inline] def rotateLeft64 (x n : UInt64) : UInt64 := x <<< n ||| x >>> (64 - n)

/-- The bytes read as words, least significant byte first; a last word lacking bytes is filled
with zeros. -/
def ofLittle : Bytes → List UInt32
  | a :: b :: c :: d :: r =>
    (a.toUInt32 ||| b.toUInt32 <<< 8 ||| c.toUInt32 <<< 16 ||| d.toUInt32 <<< 24) :: ofLittle r
  | [a, b, c] => [a.toUInt32 ||| b.toUInt32 <<< 8 ||| c.toUInt32 <<< 16]
  | [a, b] => [a.toUInt32 ||| b.toUInt32 <<< 8]
  | [a] => [a.toUInt32]
  | [] => []

/-- The bytes of a word, least significant first. -/
def toLittle (x : UInt32) : Bytes :=
  [x.toUInt8, (x >>> 8).toUInt8, (x >>> 16).toUInt8, (x >>> 24).toUInt8]

/-- The bytes of a word, most significant first. -/
def toBig (x : UInt32) : Bytes := (toLittle x).reverse

/-- Whole words, most significant byte first; leftover bytes are dropped. -/
def ofBig : Bytes → List UInt32
  | a :: b :: c :: d :: r =>
    (a.toUInt32 <<< 24 ||| b.toUInt32 <<< 16 ||| c.toUInt32 <<< 8 ||| d.toUInt32) :: ofBig r
  | _ => []

/-- The first `n` words of a list, zeros where it is shorter. -/
def vector (n : Nat) (ws : List UInt32) : Vector UInt32 n :=
  let a := ws.toArray
  Vector.ofFn fun i => a.getD i 0

/-- Word `i` of a row; zero past its end. -/
@[inline] def nth {n : Nat} (v : Vector UInt32 n) (i : Nat) : UInt32 := v.toArray.getD i 0

end Word

namespace Bytes

/-- The text cut into pieces of `n + 1` bytes; the last piece may be shorter. -/
def pieces (n : Nat) (s : Bytes) : List Bytes :=
  match s with
  | [] => []
  | b :: r => (b :: r.take n) :: pieces n (r.drop n)
termination_by s.length
decreasing_by simp only [List.length_drop, List.length_cons]; omega

end Bytes
end Locksmith
