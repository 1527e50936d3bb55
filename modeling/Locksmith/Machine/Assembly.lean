import Locksmith.Lock.Key
import Locksmith.Machine.Insn
import Locksmith.Text.Quoted

namespace Locksmith

/-- Instructions whose jumps name labels and whose texts stand in a pool without duplicates. An
operand of `&` that is an `|`, and an operand of `!` that is either, is put between group marks,
so that the text of the lock can be read back. -/
structure Assembly where
  code : List Insn
  /-- The texts, each once. -/
  pool : List Bytes
  /-- How many labels are in use; the next is named by this number. -/
  labels : Nat
deriving DecidableEq, Repr

namespace Assembly

def empty : Assembly := ⟨[], [], 0⟩

/-- Adds a text to a pool, unless it is there; gives the pool and the place of the text. -/
def addText (pool : List Bytes) (s : Bytes) : List Bytes × Int32 :=
  match pool.findIdx? (· == s) with
  | some i => (pool, Int32.ofNat i)
  | none => (pool ++ [s], Int32.ofNat pool.length)

def objectArg (d : Dbref) : Int32 := d.num.toInt32

/-- Puts instructions between group marks. -/
def grouped (mark : Bool) (code : List Insn) : List Insn :=
  if mark then ⟨.paren, 0⟩ :: code ++ [⟨.paren, 1⟩] else code

/-- The instructions of a key that loads a name and tests a pattern. -/
def textTest (op : Opcode) (name pattern : Bytes) (pool : List Bytes) :
    List Insn × List Bytes :=
  let (pool, i) := addText pool name
  let (pool, j) := addText pool pattern
  ([⟨.loadText, i⟩, ⟨op, j⟩], pool)

/-- Writes a key after the given texts and labels; gives its instructions, the pool and the
number of labels after it. -/
def write : Key → List Bytes → Nat → List Insn × List Bytes × Nat
  | .and _ left right, pool, labels =>
    let (l, pool, labels') := write left pool (labels + 1)
    let (r, pool, labels') := write right pool labels'
    (grouped left.isOr l ++ ⟨.jumpFalse, Int32.ofNat labels⟩ :: grouped right.isOr r ++
      [⟨.label, Int32.ofNat labels⟩], pool, labels')
  | .or _ left right, pool, labels =>
    let (l, pool, labels') := write left pool (labels + 1)
    let (r, pool, labels') := write right pool labels'
    -- No marks: nothing binds less than `|`.
    (l ++ ⟨.jumpTrue, Int32.ofNat labels⟩ :: r ++ [⟨.label, Int32.ofNat labels⟩], pool, labels')
  | .not _ operand, pool, labels =>
    let (o, pool, labels) := write operand pool labels
    (grouped (operand.isOr || operand.isAnd) o ++ [⟨.negate, 0⟩], pool, labels)
  | .const _ d, pool, labels => ([⟨.testConst, objectArg d⟩], pool, labels)
  | .is _ d, pool, labels => ([⟨.testIs, objectArg d⟩], pool, labels)
  | .carry _ d, pool, labels => ([⟨.testCarry, objectArg d⟩], pool, labels)
  | .owner _ d, pool, labels => ([⟨.testOwner, objectArg d⟩], pool, labels)
  | .indirect _ d lock, pool, labels =>
    let (pool, i) := addText pool lock
    ([⟨.loadText, i⟩, ⟨.testIndirect, objectArg d⟩], pool, labels)
  | .attr _ name pattern, pool, labels =>
    let (code, pool) := textTest .testAttr name pattern pool
    (code, pool, labels)
  | .eval _ name pattern, pool, labels =>
    let (code, pool) := textTest .testEval name pattern pool
    (code, pool, labels)
  | .flagClass _ name pattern, pool, labels =>
    let (code, pool) := textTest .testClass name pattern pool
    (code, pool, labels)
  | .bool _ value, pool, labels => ([⟨.loadResult, if value then 1 else 0⟩], pool, labels)

/-- The objects of a key, from left to right. -/
def objects : Key → List Dbref
  | .and _ left right | .or _ left right => objects left ++ objects right
  | .not _ operand => objects operand
  | .const _ d | .is _ d | .carry _ d | .owner _ d | .indirect _ d _ => [d]
  | .attr .. | .eval .. | .flagClass .. | .bool .. => []

/-- The program of a lock; no lock has no instructions. Fails with the first object whose number
is too large for an operand. -/
def ofKey : Option Key → Except Dbref Assembly
  | none => .ok empty
  | some key =>
    match (objects key).find? (!·.fitsOperand) with
    | some d => .error d
    | none =>
      let (code, pool, labels) := write key [] 0
      .ok ⟨code ++ [⟨.ret, 0⟩], pool, labels⟩

/-- How an object that is too large for an operand is reported. -/
def wideObject (d : Dbref) : Bytes := "object " ++ d.render ++ " does not fit in an instruction"

def renderInsn (pool : List Bytes) (i : Insn) : Bytes :=
  i.op.name ++
    (match i.op.operand with
    | .text => " " ++ Quoted.text (pool[i.arg.toInt.toNat]?.getD [])
    | .target => " L" ++ Decimal.ofInt i.arg.toInt
    | .number | .object => " " ++ Decimal.ofInt i.arg.toInt
    | .unused => []) ++ "\n"

/-- The text of a program, one instruction a line. -/
def render (a : Assembly) : Bytes := a.code.flatMap (renderInsn a.pool)

end Assembly
end Locksmith
