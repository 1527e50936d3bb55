import Locksmith.Data.LittleEndian
import Locksmith.Machine.Assembly

namespace Locksmith

/-- The code of a lock: instructions of five bytes, the opcode and a signed operand with its
least significant byte first, followed by texts that each end in a zero byte. Jumps name the
offset of an instruction and never lead backwards; texts are named by the offset of their first
byte. A lock without code is open to everyone. -/
abbrev LockCode := Option Bytes

inductive Fault.Reason where
  | outOfRange
  | unknownOpcode (b : UInt8)
  | badTextOffset
  | unterminatedText
  | badTarget (target : Int32)
  | unknownClass (name : Bytes)
deriving DecidableEq, Repr

/-- What is wrong with some code, and at which offset. -/
structure Fault where
  pc : Int
  reason : Fault.Reason
deriving DecidableEq, Repr

def Fault.message (f : Fault) : Bytes :=
  "bad lock bytecode at " ++ Decimal.ofInt f.pc ++ ": " ++
    match f.reason with
    | .outOfRange => ("instruction out of range" : Bytes)
    | .unknownOpcode b => "unknown opcode " ++ Decimal.ofNat b.toNat
    | .badTextOffset => "string offset out of range"
    | .unterminatedText => "unterminated string"
    | .badTarget target => "bad jump target " ++ Decimal.ofInt target.toInt
    | .unknownClass name => "unknown flag class " ++ name

namespace Bytecode

def insnWidth : Nat := 5

def encodeInsn (i : Insn) : Bytes := i.op.toByte :: LittleEndian.ofNat 4 i.arg.toUInt32.toNat

def fetch (code : Bytes) (pc : Nat) : Except Fault Insn :=
  if pc % insnWidth ≠ 0 ∨ code.length < pc + insnWidth then .error ⟨pc, .outOfRange⟩
  else
    match code.drop pc with
    | b :: arg =>
      let op := Opcode.ofByte b
      if op.isExecutable then .ok ⟨op, Int32.ofNat (LittleEndian.toNat (arg.take 4))⟩
      else .error ⟨pc, .unknownOpcode b⟩
    | [] => .error ⟨pc, .outOfRange⟩

theorem fetch_length {code : Bytes} {pc : Nat} {i : Insn} (h : fetch code pc = .ok i) :
    pc + insnWidth ≤ code.length := by
  unfold fetch at h
  split at h
  · simp at h
  · omega

/-- The instruction at an offset that may be negative. -/
def insnAt (code : Bytes) (pc : Int) : Except Fault Insn :=
  if pc < 0 then .error ⟨pc, .outOfRange⟩ else fetch code pc.toNat

/-- The text at an offset, up to the next zero byte. -/
def textAt (code : Bytes) (offset : Int32) : Except Fault Bytes :=
  if offset < 0 ∨ code.length ≤ offset.toInt.toNat then .error ⟨offset.toInt, .badTextOffset⟩
  else
    let tail := code.drop offset.toInt.toNat
    if tail.contains 0 then .ok (tail.takeWhile (· != 0))
    else .error ⟨offset.toInt, .unterminatedText⟩

/-- The offset after a jump to `target` by the instruction before offset `pc`. -/
def jump (pc : Nat) (target : Int32) : Except Fault Nat :=
  if target.toInt < pc ∨ target.toInt % insnWidth ≠ 0 then
    .error ⟨(pc : Int) - insnWidth, .badTarget target⟩
  else .ok target.toInt.toNat

theorem le_of_jump {pc pc' : Nat} {target : Int32} (h : jump pc target = .ok pc') :
    pc ≤ pc' := by
  unfold jump at h
  split at h
  · simp at h
  · cases h; omega

/-- The instructions from an offset up to the first `ret`. -/
def instructionsFrom (code : Bytes) (pc : Nat) : Except Fault (List Insn) :=
  match h : fetch code pc with
  | .error e => .error e
  | .ok i =>
    have := fetch_length h
    if i.op == .ret then .ok [i]
    else (instructionsFrom code (pc + insnWidth)).map (i :: ·)
termination_by code.length - pc
decreasing_by
  simp only [insnWidth] at *
  omega

/-- The instructions up to the first `ret`. -/
def instructions (code : Bytes) : Except Fault (List Insn) := instructionsFrom code 0

def renderOperand (code : Bytes) (i : Insn) : Bytes :=
  match i.op.operand with
  | .text =>
    " @" ++ Decimal.ofInt i.arg.toInt ++
      match textAt code i.arg with
      | .ok s => " " ++ Quoted.text s
      | .error _ => " ??"
  | .target => " -> " ++ Decimal.padded 4 i.arg.toInt
  | .object => " #" ++ Decimal.ofInt i.arg.toInt
  | .number => " " ++ Decimal.ofInt i.arg.toInt
  | .unused => []

/-- The lines of the instructions from an offset up to the first `ret` or fault. -/
def disassembleFrom (code : Bytes) (pc : Nat) : Bytes :=
  match h : fetch code pc with
  | .error e => Decimal.padded 4 pc ++ " ?? " ++ e.message ++ "\n"
  | .ok i =>
    have := fetch_length h
    let line : Bytes := Decimal.padded 4 pc ++ " " ++ i.op.name ++
      (List.replicate (6 - i.op.name.length) 32 : Bytes) ++ renderOperand code i ++ "\n"
    if i.op == .ret then line else line ++ disassembleFrom code (pc + insnWidth)
termination_by code.length - pc
decreasing_by
  simp only [insnWidth] at *
  omega

end Bytecode

namespace LockCode

def openText : Bytes := "*UNLOCKED*"

def size (code : LockCode) : Nat := (code.getD []).length

/-- The instructions of a lock; an open one has none. -/
def instructions : LockCode → Except Fault (List Insn)
  | none => .ok []
  | some code => Bytecode.instructions code

/-- The instructions of a lock as text, one a line. -/
def disassemble : LockCode → Bytes
  | none => openText ++ "\n"
  | some code => Bytecode.disassembleFrom code 0

end LockCode

namespace Assembly

/-- How many instructions of a program become code. -/
def insnCount (code : List Insn) : Nat := code.countP (·.op != .label)

/-- The offset of the instruction after the last placement of a label, or 0 without one. -/
def labelOffset (code : List Insn) (l : Int32) : Int32 :=
  match code.zipIdx.findRev? (·.1.places l) with
  | some (_, place) => Int32.ofNat (insnCount (code.take place) * Bytecode.insnWidth)
  | none => 0

def textOffset (a : Assembly) (i : Int32) : Int32 :=
  Int32.ofNat (insnCount a.code * Bytecode.insnWidth +
    ((a.pool.take i.toInt.toNat).flatMap (· ++ [0])).length)

/-- An instruction with its operand as it stands in code. -/
def resolve (a : Assembly) (i : Insn) : Insn :=
  match i.op.operand with
  | .target => { i with arg := labelOffset a.code i.arg }
  | .text => { i with arg := a.textOffset i.arg }
  | _ => i

/-- The code of a program. A program without instructions is an open lock. -/
def emit (a : Assembly) : LockCode :=
  if insnCount a.code = 0 then none
  else some <|
    -- Texts are not escaped: one with a zero byte in it ends there when it is read.
    (a.code.filter (·.op != .label)).flatMap (fun i => Bytecode.encodeInsn (a.resolve i)) ++
      a.pool.flatMap (· ++ [0])

end Assembly
end Locksmith
