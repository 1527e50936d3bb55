import Locksmith.Yaml.Cursor

namespace Locksmith
namespace Yaml

/-- A scalar or a bracketed collection that was read, and what follows. -/
structure Scanned (α : Type) where
  value : α
  after : Cursor

/-- The bytes of some characters given in reverse. -/
def textOfReversed (acc : List Char) : Bytes := acc.reverse.flatMap String.utf8EncodeChar

/-- Reads a scalar in single quotes, after the first quote. -/
def readSingle : (fuel : Nat) → Cursor → List Char → Except Error (Scanned Bytes)
  | 0, _, _ => .error .unfinished
  | fuel + 1, c, acc =>
    if c.atMarker then .error .unexpected
    else
      match c.rest with
      | [] => .error .unfinished
      | '\'' :: '\'' :: _ => readSingle fuel (c.drop 2) ('\'' :: acc)
      | '\'' :: _ => .ok ⟨textOfReversed acc, c.drop 1⟩
      | ch :: _ =>
        if isSpace ch || isBreak ch then
          let g := Gap.ofCursor c
          readSingle fuel g.after (g.text.reverse ++ acc)
        else readSingle fuel (c.drop 1) (ch :: acc)

def simpleEscape? (c : Char) : Option Char :=
  match c with
  | '0' => some '\x00'
  | 'a' => some '\x07'
  | 'b' => some '\x08'
  | 't' => some '\t'
  | '\t' => some '\t'
  | 'n' => some '\n'
  | 'v' => some '\x0b'
  | 'f' => some '\x0c'
  | 'r' => some '\r'
  | 'e' => some '\x1b'
  | ' ' => some ' '
  | '"' => some '"'
  | '\'' => some '\''
  | '/' => some '/'
  | '\\' => some '\\'
  | 'N' => some '\u0085'
  | '_' => some '\u00a0'
  | 'L' => some '\u2028'
  | 'P' => some '\u2029'
  | _ => none

/-- How many digits follow an escape by number. -/
def escapeWidth? (c : Char) : Option Nat :=
  match c with
  | 'x' => some 2
  | 'u' => some 4
  | 'U' => some 8
  | _ => none

def hexValue? (c : Char) : Option Nat :=
  if '0' ≤ c && c ≤ '9' then some (c.toNat - 48)
  else if 'a' ≤ c && c ≤ 'f' then some (c.toNat - 87)
  else if 'A' ≤ c && c ≤ 'F' then some (c.toNat - 55)
  else none

/-- The character with the number that some digits spell. -/
def charOfHex? (digits : List Char) : Option Char := do
  let n ← digits.foldlM (fun n d => (hexValue? d).map (n * 16 + ·)) 0
  if n.isValidChar then some (Char.ofNat n) else none

/-- Reads a scalar in double quotes, after the first quote. -/
def readDouble : (fuel : Nat) → Cursor → List Char → Except Error (Scanned Bytes)
  | 0, _, _ => .error .unfinished
  | fuel + 1, c, acc =>
    if c.atMarker then .error .unexpected
    else
      match c.rest with
      | [] => .error .unfinished
      | '"' :: _ => .ok ⟨textOfReversed acc, c.drop 1⟩
      | '\\' :: e :: r =>
        if isBreak e then
          let g := Gap.ofCursor (c.drop 1).next
          readDouble fuel g.after (g.breaks.reverse ++ acc)
        else
          match simpleEscape? e, escapeWidth? e with
          | some ch, _ => readDouble fuel (c.drop 2) (ch :: acc)
          | none, some w =>
            if r.length < w then .error .unfinished
            else
              match charOfHex? (r.take w) with
              | some ch => readDouble fuel (c.drop (2 + w)) (ch :: acc)
              | none => .error .badCharacter
          | none, none => .error .unexpected
      | ['\\'] => .error .unfinished
      | ch :: _ =>
        if isSpace ch || isBreak ch then
          let g := Gap.ofCursor c
          readDouble fuel g.after (g.text.reverse ++ acc)
        else readDouble fuel (c.drop 1) (ch :: acc)

/-- Characters that mean something at the start of a token. -/
def isIndicator (c : Char) : Bool := ",[]\x7b\x7d#&*!|>'\"%@`".toList.contains c

/-- Whether a plain scalar may start here. -/
def startsPlain (flow : Bool) (s : List Char) : Bool :=
  match s with
  | [] => false
  | c :: r =>
    if c == '-' then !endsWord r
    else if c == '?' || c == ':' then !flow && !endsWord r
    else !(isSpace c || isBreak c || isIndicator c)

/-- Whether a plain scalar ends before this character. -/
def endsPlain (flow : Bool) (c : Char) (r : List Char) : Bool :=
  (c == ':' && endsWord r) ||
    (flow && (c == ',' || c == '[' || c == ']' || c == '{' || c == '}' ||
      (c == '?' && endsWord r)))

/-- Reads a plain scalar. Outside of brackets, a line below the column `indent` does not belong
to it. -/
def readPlain (flow : Bool) (indent : Nat) :
    (fuel : Nat) → Cursor → List Char → Except Error (Scanned Bytes)
  | 0, _, _ => .error .unfinished
  | fuel + 1, c, acc =>
    let done : Except Error (Scanned Bytes) := .ok ⟨textOfReversed acc, c⟩
    match c.rest with
    | [] => done
    | ch :: r =>
      if isSpace ch || isBreak ch then
        let g := Gap.ofCursor c
        let outside := !flow && !g.breaks.isEmpty && g.after.col < indent
        if !flow && g.tab.any (· < indent) then .error .unexpected
        else if g.after.atEnd || outside then done
        else
          match g.after.rest with
          | '#' :: _ => done
          | n :: r =>
            if endsPlain flow n r then done
            else readPlain flow indent fuel g.after (g.text.reverse ++ acc)
          | [] => done
      else if endsPlain flow ch r then done
      else readPlain flow indent fuel (c.drop 1) (ch :: acc)

end Yaml
end Locksmith
