import Locksmith.Text.Utf8
import Locksmith.Yaml.Node

namespace Locksmith
namespace Yaml

/-- What is left of a document, and where that stands. -/
structure Cursor where
  rest : List Char
  line : Nat
  col : Nat

/-- A character that ends a line, after all usual line ends became line feeds. -/
def isBreak (c : Char) : Bool := c == '\n' || c == '\u2028' || c == '\u2029'

def isSpace (c : Char) : Bool := c == ' ' || c == '\t'

def endsWord : List Char → Bool
  | [] => true
  | c :: _ => isSpace c || isBreak c

/-- Whether a character may stand in a document. -/
def isAllowed (c : Char) : Bool :=
  let n := c.toNat
  n == 9 || n == 10 || n == 13 || (0x20 ≤ n && n ≤ 0x7E) || n == 0x85 ||
    (0xA0 ≤ n && n ≤ 0xD7FF) ||
    (0xE000 ≤ n && n ≤ 0xFFFD) || 0x10000 ≤ n

/-- Turns the usual line ends into line feeds. -/
def unifyBreaks : List Char → List Char
  | '\r' :: '\n' :: r => '\n' :: unifyBreaks r
  | '\r' :: r => '\n' :: unifyBreaks r
  | '\u0085' :: r => '\n' :: unifyBreaks r
  | c :: r => c :: unifyBreaks r
  | [] => []

def characters (s : Bytes) : Except Error (List Char) := do
  let chars ← (Utf8.decode s).mapM fun
    | .char c => if isAllowed c then .ok c else .error .badCharacter
    | .stray _ => .error .badCharacter
  return unifyBreaks (match chars with
    | '\ufeff' :: r => r
    | r => r)

namespace Cursor

def next (c : Cursor) : Cursor :=
  match c.rest with
  | [] => c
  | ch :: r => if isBreak ch then ⟨r, c.line + 1, 0⟩ else ⟨r, c.line, c.col + 1⟩

/-- Passes over `n` characters of a line. -/
def drop (c : Cursor) (n : Nat) : Cursor := ⟨c.rest.drop n, c.line, c.col + n⟩

/-- Whether `s` stands here. -/
def startsWith (c : Cursor) (s : List Char) : Bool := s.isPrefixOf c.rest

/-- Whether a line that separates documents starts here. -/
def atMarker (c : Cursor) : Bool :=
  c.col == 0 && (c.startsWith ['-', '-', '-'] || c.startsWith ['.', '.', '.']) &&
    endsWord (c.rest.drop 3)

def atEnd (c : Cursor) : Bool := c.rest.isEmpty || c.atMarker

/-- Whether a character stands here with the end of a word behind it. -/
def atSign (c : Cursor) (sign : Char) : Bool :=
  match c.rest with
  | ch :: r => ch == sign && endsWord r
  | [] => false

/-- Passes over spaces, comments and line ends. Outside of brackets no tab may indent a line. -/
def skipFrom (flow : Bool) : (comment tabs : Bool) → List Char → (line col : Nat) → Cursor
  | _, _, [], l, k => ⟨[], l, k⟩
  | comment, tabs, ch :: r, l, k =>
    if isBreak ch then skipFrom flow false flow r (l + 1) 0
    else if comment then skipFrom flow true tabs r l (k + 1)
    else if ch == ' ' || (tabs && ch == '\t') then skipFrom flow false tabs r l (k + 1)
    else if ch == '#' then skipFrom flow true tabs r l (k + 1)
    else ⟨ch :: r, l, k⟩

def skip (flow tabs : Bool) (c : Cursor) : Cursor :=
  skipFrom flow false tabs c.rest c.line c.col

def skipSpaces (c : Cursor) : Cursor := c.drop (c.rest.takeWhile isSpace).length

end Cursor

/-- Spaces and line ends inside a scalar, and what follows. -/
structure Gap where
  spaces : List Char
  breaks : List Char
  /-- A tab that indents a line: its column. -/
  tab : Option Nat
  after : Cursor

namespace Gap

/-- Collects spaces and line ends; both lists are reversed. -/
def collect : List Char → (line col : Nat) → (spaces breaks : List Char) → Option Nat → Gap
  | [], l, k, s, b, t => ⟨s.reverse, b.reverse, t, ⟨[], l, k⟩⟩
  | ch :: r, l, k, s, b, t =>
    if isBreak ch then collect r (l + 1) 0 s (ch :: b) t
    else if isSpace ch then
      collect r l (k + 1) (ch :: s) b
        (if ch == '\t' && !b.isEmpty && t.isNone then some k else t)
    else ⟨s.reverse, b.reverse, t, ⟨ch :: r, l, k⟩⟩

def ofCursor (c : Cursor) : Gap := collect c.rest c.line c.col [] [] none

/-- What a gap stands for: the spaces in a line; a space for one line end; all but the first of
several. -/
def text (g : Gap) : List Char :=
  match g.breaks with
  | [] => g.spaces
  | ['\n'] => [' ']
  | '\n' :: r => r
  | r => r

end Gap
end Yaml
end Locksmith
