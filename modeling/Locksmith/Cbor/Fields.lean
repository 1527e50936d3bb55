import Locksmith.Cbor.Decode

namespace Locksmith
namespace Cbor
namespace Item

/-- Whether an item says that there is no value. -/
def isNull : Item → Bool
  | simple n => n = 22 || n = 23
  | _ => false

def untagged : Item → Item
  | tag _ i => i.untagged
  | i => i

/-- The integer that an item stands for. -/
def toInt? : Item → Option Int
  | nat n => some n.toNat
  | negative n => some (-1 - n.toNat)
  | tag 2 (bytes s) => some (ofBigEndian s)
  | tag 3 (bytes s) => some (-1 - (ofBigEndian s : Int))
  | tag _ i => i.toInt?
  | i => if i.isNull then some 0 else none

/-- An integer from `lo` to `hi`. -/
def asInt (lo hi : Int) (i : Item) : Except Error Int :=
  match i.toInt? with
  | some n => if lo ≤ n ∧ n ≤ hi then .ok n else .error .mismatch
  | none => .error .mismatch

def asInt64 (i : Item) : Except Error Int64 :=
  (i.asInt (-0x8000000000000000) 0x7fffffffffffffff).map Int64.ofInt

def asByte (i : Item) : Except Error UInt8 := (i.asInt 0 255).map fun n => n.toNat.toUInt8

def asText (i : Item) : Except Error Bytes :=
  match i.untagged with
  | text s => if Utf8.isValid s then .ok s else .error .notUtf8
  | i => if i.isNull then .ok [] else .error .mismatch

/-- Some bytes, which may also be an array of numbers; null is no bytes at all. -/
def asBytes (i : Item) : Except Error (Option Bytes) :=
  match i.untagged with
  | bytes s => .ok (some s)
  | array l => (l.mapM asByte).map some
  | i => if i.isNull then .ok none else .error .mismatch

/-- Exactly `n` bytes: zeros are added to fewer, and those beyond are dropped. -/
def asBlock (n : Nat) (i : Item) : Except Error Bytes :=
  match i.untagged with
  | bytes s => .ok (s.take n ++ List.replicate (n - s.length) 0)
  | array l => do
    let s ← (l.take n).mapM asByte
    return s ++ List.replicate (n - s.length) 0
  | i => if i.isNull then .ok (List.replicate n 0) else .error .mismatch

def asList {α : Type} (f : Item → Except Error α) (i : Item) : Except Error (List α) :=
  match i.untagged with
  | array l => l.mapM f
  | i => if i.isNull then .ok [] else .error .mismatch

end Item

abbrev Record := List (Int × Item)

/-- The numbered fields among the entries of a map; of two with one number the first counts. -/
def numbered : List (Item × Item) → Except Error Record
  | [] => .ok []
  | (k, v) :: r => do
    match k with
    | .text s => if Utf8.isValid s then numbered r else throw .notUtf8
    | .nat n => return (n.toNat, v) :: (← numbered r)
    | .negative n => return (-1 - n.toNat, v) :: (← numbered r)
    | _ => throw .mismatch

/-- The fields of an item that is a record. -/
def Item.asRecord (i : Item) : Except Error Record :=
  match i.untagged with
  | .map l => numbered l
  | i => if i.isNull then .ok [] else .error .mismatch

/-- Field number `n`, null if absent. -/
def Record.field (r : Record) (n : Int) : Item := (r.lookup n).getD .null

end Cbor
end Locksmith
