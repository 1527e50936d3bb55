import Locksmith.Text.Bytes

namespace Locksmith
namespace Escape

def backslash : UInt8 := 92

/-- White space between the parts of a lock. -/
def isSpace (b : UInt8) : Bool := b == 32 || b == 9 || b == 10 || b == 13

/-- Whether a byte ends the text of a key: `&`, `|` or `)`. -/
def endsKey (b : UInt8) : Bool := b == 38 || b == 124 || b == 41

/-- Whether a byte divides a key into name and pattern: `:`, `/` or `^`. -/
def dividesKey (b : UInt8) : Bool := b == 58 || b == 47 || b == 94

/-- Splits a text before the first unescaped byte that satisfies `p`. A backslash at the end of
the text is an ordinary byte. -/
def span (p : UInt8 → Bool) : Bytes → Bytes × Bytes
  | [] => ([], [])
  | [b] => if b != backslash && p b then ([], [b]) else ([b], [])
  | b :: c :: r =>
    if b == backslash then let (s, t) := span p r; (b :: c :: s, t)
    else if p b then ([], b :: c :: r)
    else let (s, t) := span p (c :: r); (b :: s, t)

/-- Splits a text around the first unescaped byte that satisfies `p`, giving also that byte. -/
def cut (p : UInt8 → Bool) (s : Bytes) : Option (Bytes × UInt8 × Bytes) :=
  match span p s with
  | (_, []) => none
  | (before, b :: after) => some (before, b, after)

/-- Drops the backslash of every pair. A backslash takes away the special meaning of the byte
after it. -/
def unescape : Bytes → Bytes
  | [] => []
  | [b] => [b]
  | b :: c :: r => if b == backslash then c :: unescape r else b :: unescape (c :: r)

/-- Drops white space from the front of a reversed text, up to the first that is escaped, which
is told by an odd number of backslashes before it. -/
def dropSpaces : (reversed : Bytes) → Bytes
  | [] => []
  | b :: r =>
    if isSpace b && (r.takeWhile (· == backslash)).length % 2 == 0 then dropSpaces r else b :: r

/-- Drops white space around a text, but not escaped white space at its end. -/
def trim (s : Bytes) : Bytes := (dropSpaces (s.dropWhile isSpace).reverse).reverse

end Escape
end Locksmith
