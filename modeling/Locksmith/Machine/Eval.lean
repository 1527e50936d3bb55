import Locksmith.Lock.FlagClass
import Locksmith.Machine.World
import Locksmith.ObjId
import Locksmith.Text.Wildcard

namespace Locksmith

structure Machine (m : Type → Type) where
  world : World m
  classes : ClassTable
  /-- How deep indirect locks and evaluations may nest. -/
  maxDepth : Nat

/-- The nesting allowed unless said otherwise. -/
def defaultMaxDepth : Nat := 10

/-- What the subject of a lock that nests too deeply is told. -/
def recursionMessage : Bytes := "Sorry, that lock is nested too deeply."

/-- How deep a run is nested, and whether its subject was told that it is too deep. -/
structure EvalState where
  depth : Nat
  notified : Bool
deriving DecidableEq, Repr

namespace Machine

variable {m : Type → Type} [Monad m] (v : Machine m)

def operandObject (arg : Int32) : Dbref := ⟨arg.toInt64⟩

/-- Goes one level deeper, if allowed; otherwise the subject is told, the first time. -/
def enter (subject : Dbref) (st : EvalState) : m (Bool × EvalState) :=
  if st.depth < v.maxDepth then pure (true, { st with depth := st.depth + 1 })
  else if st.notified then pure (false, st)
  else do
    v.world.notify subject recursionMessage
    pure (false, { st with notified := true })

def leave (st : EvalState) : EvalState := { st with depth := st.depth - 1 }

/-- Reports bad code; the run ends without passing. -/
def fault (f : Fault) (subject target : Dbref) (st : EvalState) : m (Bool × EvalState) := do
  v.world.log ⟨.error, "lock evaluation fault",
    [("subject", .object subject), ("target", .object target), ("error", .text f.message)]⟩
  pure (false, st)

/-- Whether the subject is, or carries, an object. -/
def testConst (subject object : Dbref) : m Bool := do
  if ← v.world.isValid object then
    if object == subject then pure true else v.world.carries subject object
  else pure false

def testCarry (subject object : Dbref) : m Bool := do
  if ← v.world.isValid object then v.world.carries subject object else pure false

/-- Whether the subject and an object have one owner. -/
def testOwner (subject object : Dbref) : m Bool := do
  if ← v.world.isValid object then
    let theirs ← v.world.owner object
    let own ← v.world.owner subject
    pure (theirs == own)
  else pure false

/-- Whether the subject passes a lock on an object, which becomes the target. `nested` runs it.
-/
def testIndirect (nested : Dbref → LockCode → EvalState → m (Bool × EvalState))
    (subject target object : Dbref) (name : Bytes) (st : EvalState) : m (Bool × EvalState) := do
  if !(← v.world.isValid object) then pure (false, st)
  else if !(← v.world.canReadLock target object name) then pure (false, st)
  else
    let (entered, st) ← v.enter subject st
    -- A refusal clears the result like a failed test does; the lock around goes on from there.
    if !entered then pure (false, st)
    else
      match ← v.world.lock object name with
      | .error e =>
        v.world.log ⟨.error, "fetching indirect lock",
          [("object", .object object), ("lock", .text name), ("error", .text e)]⟩
        pure (false, leave st)
      | .ok code =>
        let (passed, st) ← nested object code st
        pure (passed, leave st)

/-- Whether an attribute of the subject matches a pattern. -/
def testAttr (subject target : Dbref) (name pattern : Bytes) : m Bool := do
  if !(← v.world.canReadAttribute target subject name) then pure false
  else
    match ← v.world.attr subject name with
    | none => pure false
    | some value => pure (Wildcard.isMatch pattern value)

/-- Whether an attribute of the target, evaluated for the subject, matches a pattern. -/
def testEval (subject target : Dbref) (name pattern : Bytes) (st : EvalState) :
    m (Bool × EvalState) := do
  if !(← v.world.canReadAttribute target target name) then pure (false, st)
  else
    let (entered, st) ← v.enter subject st
    if !entered then pure (false, st)
    else
      match ← v.world.evalAttribute target name subject with
      | .error e =>
        v.world.log ⟨.debug, "eval lock attribute failed",
          [("object", .object target), ("attribute", .text name), ("error", .text e)]⟩
        pure (false, leave st)
      | .ok value => pure (Wildcard.isMatch pattern value, leave st)

/-- Whether one of the references in a list means the subject. -/
def isListed (subject target : Dbref) : List Bytes → m Bool
  | [] => pure false
  | field :: rest =>
    match ObjId.parse field with
    | .error _ => isListed subject target rest
    | .ok id =>
      if id.ref ≠ subject then isListed subject target rest
      else if id.created < 0 then pure true
      else do
        if ← v.world.hasFlagClass ClassTable.objIdName subject target field then pure true
        else isListed subject target rest

/-- Whether the subject is in a flag class. -/
def testClass (kind : ClassKind) (name pattern : Bytes) (subject target : Dbref) : m Bool :=
  match kind with
  | .flag | .power | .type | .objId => v.world.hasFlagClass name subject target pattern
  | .ip | .hostname => do
    if !(← v.world.canSeeConnection target subject) then pure false
    else
      match ← v.world.leastIdle subject with
      | none => pure false
      | some (ip, host) => pure (Wildcard.isMatch pattern (if kind = .ip then ip else host))
  | .channel => do
    if ← v.world.canSeeChannel target pattern then v.world.onChannel subject pattern
    else pure false
  | .dbrefList => do
    if !(← v.world.canReadAttribute target target pattern) then pure false
    else
      match ← v.world.attr target pattern with
      | none => pure false
      | some list => v.isListed subject target list.fields
  | .unassigned _ => pure false

inductive Action where
  /-- The next instruction, with these registers. -/
  | next (result : Bool) (text : Bytes) (st : EvalState)
  /-- The instruction that the operand names. -/
  | jump
  /-- The end of the run, by itself or for bad code. -/
  | done (verdict : Except Fault Bool) (st : EvalState)

/-- Executes the instruction at offset `pc`, with the given result and text registers. `texts`
gives the text that an operand names, and `nested` runs the locks that indirect keys lead to. -/
def execute (nested : Dbref → LockCode → EvalState → m (Bool × EvalState))
    (texts : Int32 → Except Fault Bytes) (subject target : Dbref) (pc : Nat) (insn : Insn)
    (result : Bool) (text : Bytes) (st : EvalState) : m Action :=
  let object := operandObject insn.arg
  match insn.op with
  | .ret => pure (.done (.ok result) st)
  | .jumpTrue => pure (if result then .jump else .next result text st)
  | .jumpFalse => pure (if result then .next result text st else .jump)
  | .loadText =>
    match texts insn.arg with
    | .error f => pure (.done (.error f) st)
    | .ok text => pure (.next result text st)
  | .loadResult => pure (.next (insn.arg != 0) text st)
  | .negate => pure (.next (!result) text st)
  | .paren => pure (.next result text st)
  | .testConst => do return .next (← v.testConst subject object) text st
  | .testIs => pure (.next (object == subject) text st)
  | .testCarry => do return .next (← v.testCarry subject object) text st
  | .testOwner => do return .next (← v.testOwner subject object) text st
  | .testIndirect => do
    let (result, st) ← v.testIndirect nested subject target object text st
    return .next result text st
  | .testAttr =>
    match texts insn.arg with
    | .error f => pure (.done (.error f) st)
    | .ok pattern => do return .next (← v.testAttr subject target text pattern) text st
  | .testEval =>
    match texts insn.arg with
    | .error f => pure (.done (.error f) st)
    | .ok pattern => do
      let (result, st) ← v.testEval subject target text pattern st
      return .next result text st
  | .testClass =>
    match texts insn.arg with
    | .error f => pure (.done (.error f) st)
    | .ok pattern =>
      match v.classes.get? text with
      | none => pure (.done (.error ⟨pc, .unknownClass text⟩) st)
      | some kind => do return .next (← v.testClass kind text pattern subject target) text st
  | .label | .unassigned _ => pure (.done (.error ⟨pc, .unknownOpcode insn.op.toByte⟩) st)

/-- The verdict of code from offset `pc` on, or what is wrong with it. -/
def verdictFrom (nested : Dbref → LockCode → EvalState → m (Bool × EvalState)) (code : Bytes)
    (subject target : Dbref) (pc : Nat) (result : Bool) (text : Bytes) (st : EvalState) :
    m (Except Fault Bool × EvalState) :=
  match h : Bytecode.fetch code pc with
  | .error f => pure (.error f, st)
  | .ok insn => do
    have := Bytecode.fetch_length h
    match ← v.execute nested (Bytecode.textAt code) subject target pc insn result text st with
    | .next result text st =>
      verdictFrom nested code subject target (pc + Bytecode.insnWidth) result text st
    | .jump =>
      match hj : Bytecode.jump (pc + Bytecode.insnWidth) insn.arg with
      | .error f => pure (.error f, st)
      | .ok pc' =>
        have : pc + Bytecode.insnWidth ≤ pc' := Bytecode.le_of_jump hj
        verdictFrom nested code subject target pc' result text st
    | .done verdict st => pure (verdict, st)
termination_by code.length - pc
decreasing_by
  all_goals
    simp only [Bytecode.insnWidth] at *
    omega

/-- Runs code from its start; bad code is reported and does not pass. -/
def runCode (nested : Dbref → LockCode → EvalState → m (Bool × EvalState)) (code : Bytes)
    (subject target : Dbref) (st : EvalState) : m (Bool × EvalState) := do
  match ← v.verdictFrom nested code subject target 0 false [] st with
  | (.ok passed, st) => pure (passed, st)
  | (.error f, st) => v.fault f subject target st

/-- Runs a lock, with at most `levels` locks inside each other, this one included. -/
def runLevels (subject : Dbref) : (levels : Nat) → (target : Dbref) → LockCode → EvalState →
    m (Bool × EvalState)
  | _, _, none, st => pure (true, st)
  | 0, _, some _, st => pure (false, st)
  | levels + 1, target, some code, st =>
    v.runCode (runLevels subject levels) code subject target st

/-- Runs a lock in the midst of an evaluation. A lock inside others lies at a depth of at most
`maxDepth`, so the levels do not run out. -/
def run (code : LockCode) (subject target : Dbref) (st : EvalState) : m (Bool × EvalState) :=
  v.runLevels subject (v.maxDepth - st.depth + 1) target code st

/-- Whether the subject passes a lock on the target. Bad code denies, and so does asking for
more nested locks and evaluations than the machine allows; the subject is told of the latter
once. -/
def evaluate (code : LockCode) (subject target : Dbref) : m Bool := do
  let (passed, _) ← v.run code subject target ⟨0, false⟩
  pure passed

end Machine
end Locksmith
