import Locksmith.Text.Bytes
import Locksmith.Text.Quoted

namespace Locksmith
namespace Decimal

def ofNat (n : Nat) : Bytes :=
  if n < 10 then [(48 + n).toUInt8] else ofNat (n / 10) ++ [(48 + n % 10).toUInt8]
termination_by n

def ofInt : Int → Bytes
  | .ofNat n => ofNat n
  | .negSucc n => 45 :: ofNat (n + 1)

/-- The decimal form, with zeros in front up to the given width; the sign counts. -/
def padded (width : Nat) (i : Int) : Bytes :=
  let digits := ofNat i.natAbs
  if i < 0 then 45 :: (List.replicate (width - 1 - digits.length) 48 ++ digits)
  else List.replicate (width - digits.length) 48 ++ digits

inductive Error where
  | malformed
  | outOfRange
deriving DecidableEq, Repr

def Error.message : Error → Bytes
  | malformed => "invalid syntax"
  | outOfRange => "value out of range"

/-- The bound for signed numbers of 64 bits. -/
def signedLimit : Nat := 0x8000000000000000

/-- The bound for unsigned numbers of 64 bits. -/
def unsignedLimit : Nat := 0x10000000000000000

/-- Reads digits, most significant first; a value past 64 bits is refused before the rest is
read. -/
def readDigits (acc : Nat) : Bytes → Except Error Nat
  | [] => .ok acc
  | b :: r =>
    if !Bytes.isDigit b then .error .malformed
    else
      let n := acc * 10 + (b.toNat - 48)
      if n < unsignedLimit then readDigits n r else .error .outOfRange

/-- Reads a natural number of at most 64 bits; at least one digit is needed. -/
def readNat (s : Bytes) : Except Error Nat :=
  if s.isEmpty then .error .malformed else readDigits 0 s

def readInt64 (s : Bytes) : Except Error Int64 :=
  match s with
  | 45 :: r => do
    let n ← readNat r
    if n ≤ signedLimit then .ok (Int64.ofInt (-n)) else .error .outOfRange
  | 43 :: r => do
    let n ← readNat r
    if n < signedLimit then .ok (Int64.ofNat n) else .error .outOfRange
  | _ => do
    let n ← readNat s
    if n < signedLimit then .ok (Int64.ofNat n) else .error .outOfRange

/-- How a failed reading by the named routine is reported. -/
def report (routine : String) (s : Bytes) (e : Error) : Bytes :=
  "strconv." ++ Bytes.ofString routine ++ ": parsing " ++ Quoted.text s ++ ": " ++ e.message

end Decimal
end Locksmith
