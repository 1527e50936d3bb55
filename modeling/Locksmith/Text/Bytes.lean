namespace Locksmith

/-- Text is a list of bytes. Lock sources, names and messages may hold bytes that are not
well-formed UTF-8, so nothing in the library works on `String`. -/
abbrev Bytes := List UInt8

namespace Bytes

def ofString (s : String) : Bytes := s.toUTF8.data.toList

instance : Coe String Bytes := ⟨ofString⟩

abbrev ofChar (c : Char) : UInt8 := c.toNat.toUInt8

def startsWith (s p : Bytes) : Bool := p.isPrefixOf s

/-- Whether `p` stands somewhere in the text. -/
def holds (s p : Bytes) : Bool :=
  match s with
  | [] => p.isEmpty
  | b :: r => startsWith (b :: r) p || holds r p

/-- What follows `p` at the start of the text. -/
def stripPrefix? (s p : Bytes) : Option Bytes :=
  if s.startsWith p then some (s.drop p.length) else none

/-- Splits around the first byte that satisfies `p`, dropping that byte. -/
def cutAt (p : UInt8 → Bool) (s : Bytes) : Option (Bytes × Bytes) :=
  match s.dropWhile (fun b => !p b) with
  | [] => none
  | _ :: after => some (s.takeWhile (fun b => !p b), after)

def repeated (s : Bytes) (n : Nat) : Bytes := (List.replicate n s).flatten

def join (sep : Bytes) (parts : List Bytes) : Bytes := (parts.intersperse sep).flatten

def le (s t : Bytes) : Bool := compare s t != .gt

def sort (l : List Bytes) : List Bytes := l.mergeSort le

def isDigit (b : UInt8) : Bool := 48 ≤ b && b ≤ 57

def isLetter (b : UInt8) : Bool := (65 ≤ b && b ≤ 90) || (97 ≤ b && b ≤ 122)

end Bytes
end Locksmith
