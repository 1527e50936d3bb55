import Locksmith.Text.Blank
import Locksmith.Text.Decimal

namespace Locksmith

/-- The number of an object, written `#N`. Negative numbers name no object: `#-1` is nothing,
`#-2` an ambiguous match and `#-3` a failed one. -/
structure Dbref where
  num : Int64
deriving DecidableEq, Repr, Inhabited

namespace Dbref

instance : Ord Dbref := ⟨compareOn num⟩
instance : Std.TransOrd Dbref := inferInstanceAs (Std.TransCmp (compareOn num))
instance : Std.LawfulEqOrd Dbref where
  compare_self {a} := (Std.ReflCmp.compare_self : compareOn num a a = .eq)
  eq_of_compare {a b} h := by
    cases a; cases b
    exact congrArg _ (Std.LawfulEqOrd.eq_of_compare (α := Int64) h)

instance (n : Nat) : OfNat Dbref n := ⟨⟨OfNat.ofNat n⟩⟩

def nothing : Dbref := ⟨-1⟩

/-- The answer of a match that fits several objects. -/
def ambiguous : Dbref := ⟨-2⟩

/-- The answer of a match that fits no object. -/
def failedMatch : Dbref := ⟨-3⟩

/-- Whether the number is negative, and so no object's. -/
def isSentinel (d : Dbref) : Bool := d.num < 0

/-- The written form, `#N`. -/
def render (d : Dbref) : Bytes := "#" ++ Decimal.ofInt d.num.toInt

/-- Whether the number can be an operand of an instruction. -/
def fitsOperand (d : Dbref) : Bool := -0x80000000 ≤ d.num.toInt && d.num.toInt < 0x80000000

/-- Why a text is no reference. The text is given trimmed. -/
inductive Error where
  | noMark (text : Bytes)
  | badNumber (text : Bytes) (cause : Decimal.Error)
deriving DecidableEq, Repr

def Error.message : Error → Bytes
  | noMark text => "invalid dbref " ++ Quoted.text text ++ ": missing '#'"
  | badNumber text cause =>
    "invalid dbref " ++ Quoted.text text ++ ": " ++
      Decimal.report "ParseInt" (text.drop 1) cause

/-- Reads `#N`, with white space around it. -/
def parse (s : Bytes) : Except Error Dbref :=
  let text := s.trimBlanks
  match text with
  | 35 :: digits =>
    match Decimal.readInt64 digits with
    | .ok n => .ok ⟨n⟩
    | .error e => .error (.badNumber text e)
  | _ => .error (.noMark text)

end Dbref
end Locksmith
