import Locksmith.Cbor.Item
import Locksmith.Text.Utf8

namespace Locksmith
namespace Cbor

inductive Error where
  | truncated
  | malformed
  | tooDeep
  | tooMany
  | leftover
  | notUtf8
  | badKey
  | mismatch
deriving DecidableEq, Repr

def Error.message : Error → Bytes
  | truncated => "unexpected end of data"
  | malformed => "malformed item"
  | tooDeep => "items are nested too deep"
  | tooMany => "too many items"
  | leftover => "data after the item"
  | notUtf8 => "text is not UTF-8"
  | badKey => "item cannot be a key"
  | mismatch => "item of another type expected"

def maxDepth : Nat := 32

/-- The most items of an array and the most entries of a map. -/
def maxCount : Nat := 131072

/-- The number that some bytes stand for, most significant first. -/
def ofBigEndian (s : Bytes) : Nat := s.foldl (fun n b => n * 256 + b.toNat) 0

/-- The double equal to a float with `exponent` bits of exponent and `fraction` bits of
fraction. -/
def widen (exponent fraction bits : Nat) : UInt64 :=
  let sign := bits >>> (exponent + fraction) % 2
  let e := bits >>> fraction % (1 <<< exponent)
  let f := bits % (1 <<< fraction)
  let bias := 1 <<< (exponent - 1) - 1
  let magnitude :=
    if e = 1 <<< exponent - 1 then 2047 <<< 52 + f <<< (52 - fraction)
    else if e ≠ 0 then (e + 1023 - bias) <<< 52 + f <<< (52 - fraction)
    else if f = 0 then 0
    else
      let k := f.log2
      (1024 + k - bias - fraction) <<< 52 + (f - 1 <<< k) <<< (52 - k)
  (sign <<< 63 + magnitude).toUInt64

/-- The number in a head, or none for an item of unstated length. -/
abbrev Argument := Option UInt64

/-- The major type, the low five bits and the number of a head, and what follows. -/
def readHead : Bytes → Except Error (Nat × Nat × Argument × Bytes)
  | [] => .error .truncated
  | b :: r =>
    let major := b.toNat / 32
    let info := b.toNat % 32
    if info < 24 then .ok (major, info, some info.toUInt64, r)
    else if info < 28 then
      let width := 1 <<< (info - 24)
      if r.length < width then .error .truncated
      else .ok (major, info, some (ofBigEndian (r.take width)).toUInt64, r.drop width)
    else if info = 31 then .ok (major, info, none, r)
    else .error .malformed

/-- The pieces of a string of unstated length, up to a break. -/
def readPieces (major : Nat) : (fuel : Nat) → Bytes → Bytes → Except Error (Bytes × Bytes)
  | 0, _, _ => .error .truncated
  | fuel + 1, acc, s =>
    match s with
    | 0xff :: r => .ok (acc, r)
    | s => do
      let (m, _, n, r) ← readHead s
      let some n := n | throw .malformed
      if m ≠ major then throw .malformed
      if r.length < n.toNat then throw .truncated
      readPieces major fuel (acc ++ r.take n.toNat) (r.drop n.toNat)

def readString (major : Nat) (n : Argument) (s : Bytes) : Except Error (Bytes × Bytes) :=
  match n with
  | some n =>
    if s.length < n.toNat then .error .truncated else .ok (s.take n.toNat, s.drop n.toNat)
  | none => readPieces major (s.length + 1) [] s

def readSimple (info : Nat) (n : Argument) (s : Bytes) : Except Error (Item × Bytes) :=
  match n with
  | none => .error .malformed
  | some n =>
    match info with
    | 24 => if n < 32 then .error .malformed else .ok (.simple n.toUInt8, s)
    | 25 => .ok (.float (widen 5 10 n.toNat), s)
    | 26 => .ok (.float (widen 8 23 n.toNat), s)
    | 27 => .ok (.float n, s)
    | _ => .ok (.simple n.toUInt8, s)

/-- Whether a tag with a fixed meaning may stand before an item. -/
def tagAllows (number : UInt64) (content : Item) : Bool :=
  match number.toNat, content with
  | 0, .text _ => true
  | 0, _ => false
  | 1, .nat _ => true
  | 1, .negative _ => true
  | 1, .float _ => true
  | 1, _ => false
  | 2, .bytes _ => true
  | 2, _ => false
  | 3, .bytes _ => true
  | 3, _ => false
  | _, _ => true

def pairs : List Item → List (Item × Item)
  | k :: v :: r => (k, v) :: pairs r
  | _ => []

mutual

/-- The item at the start of `s`, with at most `depth` levels, and what follows it. -/
def readItem : (fuel depth : Nat) → Bytes → Except Error (Item × Bytes)
  | 0, _, _ => .error .truncated
  | fuel + 1, depth, s => do
    let (major, info, n, r) ← readHead s
    match major, n with
    | 0, some n => return (.nat n, r)
    | 1, some n => return (.negative n, r)
    | 2, n => return (← readString 2 n r).map .bytes id
    | 3, n => return (← readString 3 n r).map .text id
    | 4, n =>
      if depth = 0 then throw .tooDeep
      let (l, r) ← readCounted fuel (depth - 1) maxCount (n.map (·.toNat)) r
      return (.array l, r)
    | 5, n =>
      if depth = 0 then throw .tooDeep
      let (l, r) ← readCounted fuel (depth - 1) (2 * maxCount) (n.map (2 * ·.toNat)) r
      if l.length % 2 ≠ 0 then throw .malformed
      return (.map (pairs l), r)
    | 6, some n =>
      let again := r.head?.any fun b => b.toNat / 32 = 6
      if again && depth = 0 then throw .tooDeep
      let (i, r) ← readItem fuel (if again then depth - 1 else depth) r
      if !tagAllows n i then throw .malformed
      return (.tag n i, r)
    | 7, n => readSimple info n r
    | _, _ => throw .malformed

/-- That many items, or all up to a break, but no more than `limit`. -/
def readCounted :
    (fuel depth limit : Nat) → (count : Option Nat) → Bytes → Except Error (List Item × Bytes)
  | 0, _, _, _, _ => .error .truncated
  | _ + 1, _, _, some 0, s => .ok ([], s)
  | _ + 1, _, _, none, 0xff :: r => .ok ([], r)
  | fuel + 1, depth, limit, count, s => do
    if limit = 0 || count.any (limit < ·) then throw .tooMany
    let (i, r) ← readItem fuel depth s
    let (l, r) ← readCounted fuel depth (limit - 1) (count.map (· - 1)) r
    return (i :: l, r)

end

/-- The one item that `s` holds. -/
def decode (s : Bytes) : Except Error Item := do
  let (i, r) ← readItem (2 * s.length + 2) maxDepth s
  if r.isEmpty then return i else throw .leftover

end Cbor
end Locksmith
