import Locksmith.Text.Bytes

namespace Locksmith

inductive Symbol where
  | char (c : Char)
  | stray (b : UInt8)
deriving DecidableEq, Repr

namespace Symbol

/-- The mark that stands for a byte that is no character. -/
def replacement : Char := Char.ofNat 0xFFFD

/-- The character, with the replacement mark for a stray byte. -/
def toChar : Symbol → Char
  | char c => c
  | stray _ => replacement

/-- The bytes that the symbol was read from. -/
def bytes : Symbol → Bytes
  | char c => String.utf8EncodeChar c
  | stray b => [b]

end Symbol

namespace Utf8

def isTail (b : UInt8) : Bool := 0x80 ≤ b && b ≤ 0xBF

/-- The two-byte sequences. -/
def isPair (a b : UInt8) : Bool := 0xC2 ≤ a && a ≤ 0xDF && isTail b

/-- The three-byte sequences, without overlong forms and surrogates. -/
def isTriple (a b c : UInt8) : Bool :=
  0xE0 ≤ a && a ≤ 0xEF && isTail b && isTail c && !(a == 0xE0 && b < 0xA0) &&
    !(a == 0xED && b > 0x9F)

/-- The four-byte sequences, without overlong forms and values past the last code point. -/
def isQuad (a b c d : UInt8) : Bool :=
  0xF0 ≤ a && a ≤ 0xF4 && isTail b && isTail c && isTail d && !(a == 0xF0 && b < 0x90) &&
    !(a == 0xF4 && b > 0x8F)

def tail (b : UInt8) : Nat := b.toNat % 64

/-- The symbol that starts with byte `a`, and how many of the following bytes belong to it. -/
def lead (a : UInt8) (r : Bytes) : Symbol × Nat :=
  if a < 0x80 then (.char (Char.ofNat a.toNat), 0)
  else
    match r with
    | b :: c :: d :: _ =>
      if isPair a b then (.char (Char.ofNat (a.toNat % 32 * 64 + tail b)), 1)
      else if isTriple a b c then
        (.char (Char.ofNat ((a.toNat % 16 * 64 + tail b) * 64 + tail c)), 2)
      else if isQuad a b c d then
        (.char (Char.ofNat (((a.toNat % 8 * 64 + tail b) * 64 + tail c) * 64 + tail d)), 3)
      else (.stray a, 0)
    | [b, c] =>
      if isPair a b then (.char (Char.ofNat (a.toNat % 32 * 64 + tail b)), 1)
      else if isTriple a b c then
        (.char (Char.ofNat ((a.toNat % 16 * 64 + tail b) * 64 + tail c)), 2)
      else (.stray a, 0)
    | [b] =>
      if isPair a b then (.char (Char.ofNat (a.toNat % 32 * 64 + tail b)), 1) else (.stray a, 0)
    | [] => (.stray a, 0)

/-- Splits a text into symbols after passing over `skip` bytes. -/
def decodeAfter : (skip : Nat) → Bytes → List Symbol
  | _, [] => []
  | k + 1, _ :: r => decodeAfter k r
  | 0, a :: r => (lead a r).1 :: decodeAfter (lead a r).2 r

/-- A text as symbols, each a character or a stray byte that is part of no well-formed sequence.
Every byte belongs to exactly one symbol. -/
def decode (s : Bytes) : List Symbol := decodeAfter 0 s

def encode (s : List Symbol) : Bytes := s.flatMap Symbol.bytes

def isValid (s : Bytes) : Bool := (decode s).all fun
  | .char _ => true
  | .stray _ => false

/-- The text as a string, if it is well-formed UTF-8. -/
def toString? (s : Bytes) : Option String :=
  (decode s).foldr
    (fun x acc => match x, acc with
      | .char c, some r => some (c :: r)
      | _, _ => none)
    (some []) |>.map String.ofList

/-- Applies `f` to each character; a stray byte becomes the replacement mark first. -/
def mapChars (f : Char → Char) (s : Bytes) : Bytes :=
  (decode s).flatMap fun x => String.utf8EncodeChar (f x.toChar)

end Utf8
end Locksmith
