import Locksmith.Text.Bytes

namespace Locksmith
namespace Cbor

/-- Data items of the Concise Binary Object Representation. -/
inductive Item where
  | nat (n : UInt64)
  | negative (n : UInt64)
  | bytes (s : Bytes)
  | text (s : Bytes)
  | array (items : List Item)
  | map (entries : List (Item × Item))
  | tag (number : UInt64) (content : Item)
  | simple (n : UInt8)
  | float (bits : UInt64)
deriving Repr, Inhabited

namespace Item

def falsity : Item := simple 20

def truth : Item := simple 21

def null : Item := simple 22

def ofBool (b : Bool) : Item := if b then truth else falsity

/-- An integer of 64 bits; a negative number `n` is kept as `-1 - n`. -/
def ofInt64 (n : Int64) : Item := if n < 0 then negative (~~~n.toUInt64) else nat n.toUInt64

end Item

/-- A number of `width` bytes, most significant first. -/
def bigEndian (width n : Nat) : Bytes :=
  ((List.range width).map fun i => (n >>> (8 * i)).toUInt8).reverse

/-- The head of an item: its major type and the shortest form of a number. -/
def head (major n : Nat) : Bytes :=
  let first (info : Nat) : UInt8 := (major * 32 + info).toUInt8
  if n < 24 then [first n]
  else if n < 0x100 then first 24 :: bigEndian 1 n
  else if n < 0x10000 then first 25 :: bigEndian 2 n
  else if n < 0x100000000 then first 26 :: bigEndian 4 n
  else first 27 :: bigEndian 8 n

/-- Sorts the entries of a map by their keys. -/
def sortEntries (l : List (Bytes × Bytes)) : List (Bytes × Bytes) :=
  l.mergeSort fun a b => Bytes.le a.1 b.1

mutual

def Item.encode : Item → Bytes
  | .nat n => head 0 n.toNat
  | .negative n => head 1 n.toNat
  | .bytes s => head 2 s.length ++ s
  | .text s => head 3 s.length ++ s
  | .array items => head 4 items.length ++ encodeAll items
  | .map entries =>
    head 5 entries.length ++ (sortEntries (encodeEntries entries)).flatMap fun e => e.1 ++ e.2
  | .tag n content => head 6 n.toNat ++ content.encode
  | .simple n => if n < 24 then [0xe0 + n] else [0xf8, n]
  | .float bits => 0xfb :: bigEndian 8 bits.toNat

/-- The encodings of some items, one after the other. -/
def encodeAll : List Item → Bytes
  | [] => []
  | i :: r => i.encode ++ encodeAll r

def encodeEntries : List (Item × Item) → List (Bytes × Bytes)
  | [] => []
  | (k, v) :: r => (k.encode, v.encode) :: encodeEntries r

end

end Cbor
end Locksmith
