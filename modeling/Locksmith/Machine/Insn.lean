import Locksmith.Text.Bytes

namespace Locksmith

inductive Opcode where
  /-- Ends with the result. -/
  | ret
  /-- Jumps if the result is true. -/
  | jumpTrue
  /-- Jumps if the result is false. -/
  | jumpFalse
  /-- Loads the text register. -/
  | loadText
  /-- Sets the result to a constant. -/
  | loadResult
  /-- Negates the result. -/
  | negate
  /-- Marks where a group opens (0) or closes; it has no effect. -/
  | paren
  /-- Marks the target of jumps; it stands in assembly only. -/
  | label
  /-- The subject is or carries an object. -/
  | testConst
  /-- The subject is an object. -/
  | testIs
  /-- The subject carries an object. -/
  | testCarry
  /-- The subject and an object have one owner. -/
  | testOwner
  /-- The subject passes a lock on an object. -/
  | testIndirect
  /-- An attribute of the subject matches. -/
  | testAttr
  /-- An evaluated attribute of the target matches. -/
  | testEval
  /-- The subject is in a flag class. -/
  | testClass
  /-- One of the 240 codes without a meaning, counted from 16. -/
  | unassigned (n : Fin 240)
deriving DecidableEq, Repr

namespace Opcode

def toByte : Opcode → UInt8
  | ret => 0
  | jumpTrue => 1
  | jumpFalse => 2
  | loadText => 3
  | loadResult => 4
  | negate => 5
  | paren => 6
  | label => 7
  | testConst => 8
  | testIs => 9
  | testCarry => 10
  | testOwner => 11
  | testIndirect => 12
  | testAttr => 13
  | testEval => 14
  | testClass => 15
  | unassigned n => (16 + n.val).toUInt8

/-- The opcodes with a meaning, in the order of their codes. -/
def assigned : List Opcode := [
  ret, jumpTrue, jumpFalse, loadText, loadResult, negate, paren, label, testConst, testIs,
  testCarry, testOwner, testIndirect, testAttr, testEval, testClass]

def ofByte (b : UInt8) : Opcode :=
  match assigned[b.toNat]? with
  | some op => op
  | none => unassigned ⟨(b.toNat - 16) % 240, Nat.mod_lt _ (by decide)⟩

def name : Opcode → Bytes
  | ret => "RET"
  | jumpTrue => "JMPT"
  | jumpFalse => "JMPF"
  | loadText => "LOADS"
  | loadResult => "LOADR"
  | negate => "NEGR"
  | paren => "PAREN"
  | label => "LABEL"
  | testConst => "TCONST"
  | testIs => "TIS"
  | testCarry => "TCARRY"
  | testOwner => "TOWNER"
  | testIndirect => "TIND"
  | testAttr => "TATR"
  | testEval => "TEVAL"
  | testClass => "TCLASS"
  | unassigned _ => "UNKNOWN"

/-- What the operand of an instruction means. -/
inductive Operand where
  | unused
  | number
  | object
  /-- A label in assembly, an offset in code. -/
  | target
  /-- A place in the pool in assembly, an offset in code. -/
  | text
deriving DecidableEq, Repr

/-- What the operand of an opcode means. -/
def operand : Opcode → Operand
  | jumpTrue | jumpFalse | label => .target
  | loadText | testAttr | testEval | testClass => .text
  | loadResult | paren => .number
  | testConst | testIs | testCarry | testOwner | testIndirect => .object
  | ret | negate | unassigned _ => .unused

def isJump : Opcode → Bool
  | jumpTrue | jumpFalse => true
  | _ => false

/-- Whether the opcode sets the result from a key. -/
def isTest : Opcode → Bool
  | testConst | testIs | testCarry | testOwner | testIndirect | testAttr | testEval | testClass
  | loadResult => true
  | _ => false

/-- Whether the opcode may stand in code. -/
def isExecutable : Opcode → Bool
  | label | unassigned _ => false
  | _ => true

end Opcode

/-- An instruction. The machine has a result register, which tests set and jumps read, and a
text register, which names the lock, attribute or class of the next test. In assembly, label and
text operands are symbolic. -/
structure Insn where
  op : Opcode
  arg : Int32
deriving DecidableEq, Repr

namespace Insn

/-- Whether the instruction places this label. -/
def places (l : Int32) (i : Insn) : Bool := i.op == .label && i.arg == l

/-- Whether the instruction takes part in a run: labels and group marks do not. -/
def isEffective (i : Insn) : Bool := i.op != .label && i.op != .paren

end Insn
end Locksmith
