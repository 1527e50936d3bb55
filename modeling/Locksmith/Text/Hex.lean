import Locksmith.Text.Quoted

namespace Locksmith
namespace Hex

def encode (s : Bytes) : Bytes := s.flatMap fun b => Quoted.hexDigits 2 b.toNat

def digit? (b : UInt8) : Option UInt8 :=
  if 48 ≤ b && b ≤ 57 then some (b - 48)
  else if 97 ≤ b && b ≤ 102 then some (b - 87)
  else if 65 ≤ b && b ≤ 70 then some (b - 55)
  else none

inductive Error where
  | badDigit (b : UInt8)
  | oddLength
deriving DecidableEq, Repr

/-- A code point as `U+` and digits, followed by the character itself if it is printable. -/
def describe (n : Nat) : Bytes :=
  let digits := (Quoted.hexDigits 4 n).map fun b => if 97 ≤ b then b - 32 else b
  let c := Char.ofNat n
  "U+" ++ digits ++ if isPrintable c then " '" ++ String.utf8EncodeChar c ++ "'" else []

def Error.message : Error → Bytes
  | badDigit b => "encoding/hex: invalid byte: " ++ describe b.toNat
  | oddLength => "encoding/hex: odd length hex string"

/-- Reads hexadecimal text; the first bad digit is reported before an odd length. -/
def decode : Bytes → Except Error Bytes
  | [] => .ok []
  | [a] =>
    match digit? a with
    | none => .error (.badDigit a)
    | some _ => .error .oddLength
  | a :: b :: r =>
    match digit? a, digit? b with
    | none, _ => .error (.badDigit a)
    | some _, none => .error (.badDigit b)
    | some x, some y => (decode r).map ((x * 16 + y) :: ·)

end Hex
end Locksmith
