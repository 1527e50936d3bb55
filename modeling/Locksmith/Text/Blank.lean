import Locksmith.Text.Utf8

namespace Locksmith

def isBlank (c : Char) : Bool :=
  let n := c.toNat
  (9 ≤ n && n ≤ 13) || n == 0x20 || n == 0x85 || n == 0xA0 || n == 0x1680 ||
    (0x2000 ≤ n && n ≤ 0x200A) || n == 0x2028 || n == 0x2029 || n == 0x202F || n == 0x205F ||
    n == 0x3000

namespace Symbol

/-- Whether a symbol is white space; a stray byte is not. -/
def isBlank : Symbol → Bool
  | char c => Locksmith.isBlank c
  | stray _ => false

end Symbol

namespace Bytes

/-- The text without leading and trailing white space. -/
def trimBlanks (s : Bytes) : Bytes :=
  Utf8.encode
    (((Utf8.decode s).dropWhile Symbol.isBlank).reverse.dropWhile Symbol.isBlank).reverse

/-- The groups of symbols between runs of white space; `word` is the current group, reversed. -/
def fieldsFrom (word : List Symbol) : List Symbol → List Bytes
  | [] => if word.isEmpty then [] else [Utf8.encode word.reverse]
  | x :: r =>
    if x.isBlank then
      if word.isEmpty then fieldsFrom [] r else Utf8.encode word.reverse :: fieldsFrom [] r
    else fieldsFrom (x :: word) r

def fields (s : Bytes) : List Bytes := fieldsFrom [] (Utf8.decode s)

end Bytes
end Locksmith
