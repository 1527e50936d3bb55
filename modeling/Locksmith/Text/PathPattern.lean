import Locksmith.Text.Utf8

namespace Locksmith
namespace PathPattern

/-- The byte that divides the parts of a path. -/
def separator : UInt8 := 47

/-- Splits off the text before the next star that stands outside of a set. -/
def chunk (inSet : Bool) : Bytes → Bytes × Bytes
  | [] => ([], [])
  | 42 :: r => if inSet then let (c, rest) := chunk inSet r; (42 :: c, rest) else ([], 42 :: r)
  | 92 :: b :: r => let (c, rest) := chunk inSet r; (92 :: b :: c, rest)
  | b :: r =>
    let (c, rest) := chunk (if b == 91 then true else if b == 93 then false else inSet) r
    (b :: c, rest)

/-- The first symbol of a text and the rest. -/
def nextSymbol (s : Bytes) : Option (Symbol × Bytes) :=
  match s with
  | [] => none
  | a :: r => some ((Utf8.lead a r).1, r.drop (Utf8.lead a r).2)

/-- Takes one well-formed character that is not the last of the text. -/
def innerChar (s : Bytes) : Option (Char × Bytes) :=
  match nextSymbol s with
  | some (.char _, []) => none
  | some (.char c, rest) => some (c, rest)
  | _ => none

/-- One end of a range in a set: a character that is neither a dash nor a closing bracket,
unless escaped; something must follow it. -/
def setMember : Bytes → Option (Char × Bytes)
  | 45 :: _ => none
  | 93 :: _ => none
  | 92 :: r => innerChar r
  | r => innerChar r

/-- Reads the ranges of a set up to its closing bracket; tells whether `c` lies in one of them
and what follows the set. `seen` says whether there was a range already. -/
def readSet (fuel : Nat) (c : Option Char) (seen found : Bool) (s : Bytes) :
    Option (Bool × Bytes) :=
  match fuel with
  | 0 => none
  | fuel + 1 =>
    match s, seen with
    | 93 :: r, true => some (found, r)
    | _, _ => do
      let (lo, r) ← setMember s
      let (hi, r) ← match r with
        | 45 :: r' => setMember r'
        | _ => some (lo, r)
      let hit := match c with
        | some x => lo ≤ x && x ≤ hi
        | none => false
      readSet fuel c true (found || hit) r

/-- What is left of a text after a star-free pattern, if it matches. Once the text has failed to
match, `text` is `none` and only the form of the pattern is checked. -/
def matchChunk (fuel : Nat) (pattern : Bytes) (text : Option Bytes) : Option Bytes :=
  match fuel with
  | 0 => none
  | fuel + 1 =>
    let text := text.filter fun t => pattern.isEmpty || !t.isEmpty
    match pattern with
    | [] => text
    | 91 :: r =>
      let symbol := text.bind nextSymbol
      let (negated, r) := match r with
        | 94 :: r' => (true, r')
        | _ => (false, r)
      match readSet (r.length + 1) (symbol.map (·.1.toChar)) false false r with
      | none => none
      | some (found, r) =>
        matchChunk fuel r (if found == negated then none else symbol.map (·.2))
    | 63 :: r =>
      matchChunk fuel r <| text.bind fun t =>
        if t.head? == some separator then none else (nextSymbol t).map (·.2)
    | 92 :: [] => none
    | 92 :: b :: r => matchChunk fuel r (text.bind fun t => t.stripPrefix? [b])
    | b :: r => matchChunk fuel r (text.bind fun t => t.stripPrefix? [b])

/-- The places after a star where the rest of a text may begin: past any number of bytes before
the next separator. -/
def starts : Bytes → List Bytes
  | [] => []
  | b :: r => if b == separator then [] else r :: starts r

def matchFrom (fuel : Nat) (pattern text : Bytes) : Bool :=
  match fuel with
  | 0 => false
  | fuel + 1 =>
    if pattern.isEmpty then text.isEmpty
    else
      let star := pattern.head? == some 42
      let (piece, rest) := chunk false (pattern.dropWhile (· == 42))
      if star && piece.isEmpty then !text.contains separator
      else
        let attempt (t : Bytes) : Option Bytes :=
          (matchChunk (piece.length + 1) piece (some t)).filter fun left =>
            left.isEmpty || !rest.isEmpty
        match (text :: if star then starts text else []).findSome? attempt with
        | some left => matchFrom fuel rest left
        | none => false

/-- Whether a text matches a file name pattern: `*` stands for any run of bytes without a slash,
`?` for any one character but a slash, `[a-z]` and `[^a-z]` for a character in or out of a set,
and a backslash takes the next byte as it is. A malformed pattern matches nothing. -/
def isMatch (pattern text : Bytes) : Bool := matchFrom (pattern.length + 1) pattern text

end PathPattern
end Locksmith
