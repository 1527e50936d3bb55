import Locksmith.Text.Calendar
import Locksmith.Text.Utf8
import Locksmith.Toml.Node

namespace Locksmith
namespace Toml

abbrev Read (α : Type) := Except Error (α × Bytes)

def Read.cons (b : UInt8) (r : Read Bytes) : Read Bytes := r.map fun (s, rest) => (b :: s, rest)

def Read.prepend (t : Bytes) (r : Read Bytes) : Read Bytes :=
  r.map fun (s, rest) => (t ++ s, rest)

def quote : UInt8 := 34

def apostrophe : UInt8 := 39

def backslash : UInt8 := 92

def newline : UInt8 := 10

def isBlankByte (b : UInt8) : Bool := b = 32 || b = 9

/-- A byte that may stand in a line end. -/
def isBreakByte (b : UInt8) : Bool := b = 10 || b = 13

def skipBlanks (s : Bytes) : Bytes := s.dropWhile isBlankByte

/-- Passes over spaces, tabs, line ends and comments. -/
def skipLines : (fuel : Nat) → Bytes → Bytes
  | 0, s => s
  | fuel + 1, s =>
    match s.dropWhile fun b => isBlankByte b || isBreakByte b with
    | 35 :: r => skipLines fuel (r.dropWhile (· ≠ newline))
    | r => r

def hexDigit? (b : UInt8) : Option Nat :=
  if Bytes.isDigit b then some (b.toNat - 48)
  else if 97 ≤ b && b ≤ 102 then some (b.toNat - 87)
  else if 65 ≤ b && b ≤ 70 then some (b.toNat - 55)
  else none

/-- The character with a number of `n` hexadecimal digits. -/
def hexChar (n : Nat) (s : Bytes) : Read Bytes :=
  let digits := s.take n
  match digits.mapM hexDigit? with
  | none => .error .badEscape
  | some l =>
    let code := l.foldl (fun v d => v * 16 + d) 0
    if digits.length < n || 0x110000 ≤ code ||
      (0xD800 ≤ code && code < 0xE000) then .error .badEscape
    else .ok (Bytes.ofString (Char.ofNat code).toString, s.drop n)

/-- What stands for an escape sequence, after its backslash. -/
def escape (s : Bytes) : Read Bytes :=
  match s with
  | [] => .error .unfinished
  | b :: r =>
    let one (c : UInt8) : Read Bytes := .ok ([c], r)
    if b = 98 then one 8
    else if b = 116 then one 9
    else if b = 110 then one 10
    else if b = 102 then one 12
    else if b = 114 then one 13
    else if b = 101 then one 27
    else if b = quote then one quote
    else if b = backslash then one backslash
    else if b = 120 then hexChar 2 r
    else if b = 117 then hexChar 4 r
    else if b = 85 then hexChar 8 r
    else .error .badEscape

def quoted : (fuel : Nat) → Bytes → Read Bytes
  | 0, _ | _, [] => .error .unfinished
  | fuel + 1, b :: r =>
    if b = quote then .ok ([], r)
    else if isBreakByte b then .error .unexpected
    else if b = backslash then
      match escape r with
      | .error e => .error e
      | .ok (t, rest) => (quoted fuel rest).prepend t
    else (quoted fuel r).cons b

/-- The rest of a text between apostrophes. -/
def literal : Bytes → Read Bytes
  | [] => .error .unfinished
  | b :: r =>
    if b = apostrophe then .ok ([], r)
    else if isBreakByte b then .error .unexpected
    else (literal r).cons b

/-- How many times a byte stands at the start of a text. -/
def runLength (b : UInt8) (s : Bytes) : Nat := (s.takeWhile (· = b)).length

/-- Passes over the line end at the start of a long text. -/
def dropFirstBreak : Bytes → Bytes
  | 13 :: 10 :: r => r
  | 10 :: r => r
  | s => s

/-- The rest of a long text, which three quotes end. A backslash at the end of a line hides the
line end and what is blank after it. -/
def longQuoted : (fuel : Nat) → Bytes → Read Bytes
  | 0, _ | _, [] => .error .unfinished
  | fuel + 1, b :: r =>
    if b = quote then
      let n := runLength quote (b :: r)
      if n < 3 then (longQuoted fuel r).cons b
      else if n ≤ 5 then .ok (List.replicate (n - 3) quote, (b :: r).drop n)
      else .error .unexpected
    else if b = backslash then
      let blank := r.takeWhile fun c => isBlankByte c || isBreakByte c
      if blank.contains newline then longQuoted fuel (r.drop blank.length)
      else
        match escape r with
        | .error e => .error e
        | .ok (t, rest) => (longQuoted fuel rest).prepend t
    else (longQuoted fuel r).cons b

/-- The rest of a long text, which three apostrophes end. -/
def longLiteral : Bytes → Read Bytes
  | [] => .error .unfinished
  | b :: r =>
    if b = apostrophe then
      let n := runLength apostrophe (b :: r)
      if n < 3 then (longLiteral r).cons b
      else if n ≤ 5 then .ok (List.replicate (n - 3) apostrophe, (b :: r).drop n)
      else .error .unexpected
    else (longLiteral r).cons b

def text? (s : Bytes) : Option (Read Bytes) :=
  if s.startsWith [quote, quote, quote] then
    some (longQuoted s.length (dropFirstBreak (s.drop 3)))
  else if s.startsWith [apostrophe, apostrophe, apostrophe] then
    some (longLiteral (dropFirstBreak (s.drop 3)))
  else
    match s with
    | 34 :: r => some (quoted s.length r)
    | 39 :: r => some (literal r)
    | _ => none

/-- A letter, digit, underscore or hyphen. -/
def isBare (b : UInt8) : Bool := Bytes.isLetter b || Bytes.isDigit b || b = 95 || b = 45

def name (s : Bytes) : Read Bytes :=
  match s with
  | 34 :: r => quoted s.length r
  | 39 :: r => literal r
  | s =>
    let bare := s.takeWhile isBare
    if bare.isEmpty then .error .unexpected else .ok (bare, s.drop bare.length)

def path : (fuel : Nat) → Bytes → Except Error (Path × Bytes)
  | 0, _ => .error .unfinished
  | fuel + 1, s => do
    let (first, s) ← name (skipBlanks s)
    match skipBlanks s with
    | 46 :: r =>
      let (more, s) ← path fuel r
      return (first :: more, s)
    | s => return ([first], s)

/-- Digits with single underscores between them, after a digit or after something else. -/
def digitsAfter (isDigit : UInt8 → Bool) (digit : Bool) : Bytes → Option Bytes
  | [] => if digit then some [] else none
  | b :: r =>
    if b = 95 then if digit then digitsAfter isDigit false r else none
    else if isDigit b then (digitsAfter isDigit true r).map (b :: ·)
    else none

/-- Digits with single underscores between them. -/
def digits? (isDigit : UInt8 → Bool) (s : Bytes) : Option Bytes := digitsAfter isDigit false s

def valueOf (base : Nat) (s : Bytes) : Nat :=
  s.foldl (fun n b => n * base + (hexDigit? b).getD 0) 0

/-- Whether a number starts with a zero that does not belong there. -/
def hasLeadingZero (s : Bytes) : Bool := s.length ≥ 2 && s.head? = some 48

def based? (s : Bytes) : Option Nat :=
  let below (base : Nat) (b : UInt8) : Bool := (hexDigit? b).any (· < base)
  match s with
  | 48 :: 120 :: r => (digits? (below 16) r).map (valueOf 16)
  | 48 :: 111 :: r => (digits? (below 8) r).map (valueOf 8)
  | 48 :: 98 :: r => (digits? (below 2) r).map (valueOf 2)
  | _ => none

def signed (s : Bytes) : Bool × Bytes :=
  match s with
  | 45 :: r => (true, r)
  | 43 :: r => (false, r)
  | s => (false, s)

def integer? (s : Bytes) : Option Int :=
  match based? s with
  | some n => some n
  | none =>
    let (negative, r) := signed s
    match digits? Bytes.isDigit r with
    | none => none
    | some d => if hasLeadingZero d then none
      else some (if negative then -(valueOf 10 d : Int) else valueOf 10 d)

/-- Whether a text is a number with a fraction or an exponent that is not too large. -/
def isFloat (s : Bytes) : Bool :=
  let (_, r) := signed s
  if [("inf" : Bytes), "nan"].contains r then true
  else
    let isMark (b : UInt8) : Bool := b = 101 || b = 69
    let mantissa := r.takeWhile (!isMark ·)
    let whole := mantissa.takeWhile (· ≠ 46)
    let fraction := mantissa.drop whole.length
    let exponent := r.drop mantissa.length
    match digits? Bytes.isDigit whole with
    | none => false
    | some w =>
      let f := if fraction.isEmpty then some [] else digits? Bytes.isDigit (fraction.drop 1)
      let x := signed (exponent.drop 1)
      let e := if exponent.isEmpty then some [] else digits? Bytes.isDigit x.2
      match f, e with
      | some f, some e =>
        let scale : Int := (if x.1 then -(valueOf 10 e : Int) else valueOf 10 e) - f.length
        !hasLeadingZero w && (scale ≤ 0 ||
          (scale ≤ 400 && valueOf 10 (w ++ f) * Nat.pow 10 scale.toNat < 1 <<< 1024))
      | _, _ => false

/-- Whether a text is a date, a time of day, or both with or without a zone. -/
def isTime (s : Bytes) : Bool :=
  let s := s.map fun b => if b = 116 || b = 32 then 84 else if b = 122 then 90 else b
  let ends (r : Bytes) : Bool := r.isEmpty
  let endsZoned (r : Bytes) : Bool := r.isEmpty || Calendar.isZone r
  match Calendar.skipDate 2 s with
  | none => (Calendar.skipTime 2 s).any ends || (Calendar.skipShortTime s).any ends
  | some [] => true
  | some (84 :: r) =>
    (Calendar.skipTime 2 r).any endsZoned || (Calendar.skipShortTime r).any endsZoned
  | some _ => false

/-- Whether a byte may stand in a number or a time. -/
def isNumeric (b : UInt8) : Bool := isBare b || b = 43 || b = 46 || b = 58

/-- The word at the start of a text; a date may be followed by a blank and a time. -/
def word (s : Bytes) : Bytes :=
  let first := s.takeWhile isNumeric
  match (Calendar.skipDate 2 first), s.drop first.length with
  | some [], 32 :: d :: r =>
    if Bytes.isDigit d then first ++ 32 :: (d :: r).takeWhile isNumeric else first
  | _, _ => first

def wordNode (w : Bytes) : Except Error Node :=
  if w = "true" then .ok (.bool true)
  else if w = "false" then .ok (.bool false)
  else
    match integer? w with
    | some n =>
      if -0x8000000000000000 ≤ n && n < 0x8000000000000000 then .ok (.integer (Int64.ofInt n))
      else .error .badNumber
    | none =>
      if isTime w then .ok .time else if isFloat w then .ok .float else .error .badNumber

end Toml
end Locksmith
