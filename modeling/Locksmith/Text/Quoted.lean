import Locksmith.Text.Printable
import Locksmith.Text.Utf8

namespace Locksmith
namespace Quoted

/-- The lower-case hexadecimal digit of a value below 16. -/
def hexDigit (n : Nat) : UInt8 := if n < 10 then (48 + n).toUInt8 else (87 + n).toUInt8

/-- The last `width` hexadecimal digits of a number. -/
def hexDigits : (width : Nat) → Nat → Bytes
  | 0, _ => []
  | w + 1, n => hexDigits w (n / 16) ++ [hexDigit (n % 16)]

/-- A character inside quotes of the given kind. One that is not printable is written as a short
escape, as `\x` and two digits, or as `\u` and four or `\U` and eight digits. -/
def escapeChar (quote : Char) (c : Char) : Bytes :=
  if c == quote || c == '\\' then "\\" ++ String.utf8EncodeChar c
  else if isPrintable c then String.utf8EncodeChar c
  else
    match c.toNat with
    | 7 => "\\a"
    | 8 => "\\b"
    | 12 => "\\f"
    | 10 => "\\n"
    | 13 => "\\r"
    | 9 => "\\t"
    | 11 => "\\v"
    | n =>
      if n < 32 || n == 127 then "\\x" ++ hexDigits 2 n
      else if n < 0x10000 then "\\u" ++ hexDigits 4 n
      else "\\U" ++ hexDigits 8 n

/-- A symbol inside quotes of the given kind. -/
def escape (quote : Char) : Symbol → Bytes
  | .char c => escapeChar quote c
  | .stray b => "\\x" ++ hexDigits 2 b.toNat

def text (s : Bytes) : Bytes := "\"" ++ (Utf8.decode s).flatMap (escape '"') ++ "\""

/-- The character between single quotes. -/
def char (c : Char) : Bytes := "'" ++ escapeChar '\'' c ++ "'"

end Quoted
end Locksmith
