import Locksmith.Machine.World

namespace Locksmith

inductive Warning.Cause where
  | corrupt (f : Fault)
  | invalidObject (d : Dbref)
  | unreadableAttribute (name : Bytes)
  | invalidIndirect (d : Dbref)
  | unreadableLock (name : Bytes) (d : Dbref)
deriving DecidableEq, Repr

structure Warning where
  /-- Who should be told. -/
  owner : Dbref
  /-- The locked object. -/
  object : Dbref
  lock : Bytes
  cause : Warning.Cause
deriving DecidableEq, Repr

def Warning.message (w : Warning) : Bytes :=
  w.object.render ++ "/" ++ w.lock ++ ": " ++
    match w.cause with
    | .corrupt f => "lock bytecode is corrupt: " ++ f.message
    | .invalidObject d => "lock key refers to invalid object " ++ d.render ++ "."
    | .unreadableAttribute name =>
      "eval-lock uses attribute " ++ name ++ ", which the locked object cannot read."
    | .invalidIndirect d => "indirect lock refers to invalid object " ++ d.render ++ "."
    | .unreadableLock name d =>
      "indirect lock refers to " ++ name ++ " lock on " ++ d.render ++
        ", which the locked object cannot read."

namespace Lint

variable {m : Type → Type} [Monad m] (w : World m)

/-- What is wrong with the test of one instruction, given the text register. -/
def checkInsn (target : Dbref) (text : Bytes) (i : Insn) : m (List Warning.Cause) :=
  let object : Dbref := ⟨i.arg.toInt64⟩
  match i.op with
  | .testConst | .testIs | .testCarry | .testOwner => do
    if ← w.isValid object then pure [] else pure [.invalidObject object]
  | .testEval => do
    if ← w.canReadAttribute target target text then pure []
    else pure [.unreadableAttribute text]
  | .testIndirect => do
    if !(← w.isValid object) then pure [.invalidIndirect object]
    else if ← w.canReadLock target object text then pure []
    else pure [.unreadableLock text object]
  | _ => pure []

/-- What is wrong with the keys from an offset on. -/
def checkFrom (code : Bytes) (target : Dbref) (pc : Nat) (text : Bytes) :
    m (List Warning.Cause) :=
  match h : Bytecode.fetch code pc with
  | .error f => pure [.corrupt f]
  | .ok i =>
    have := Bytecode.fetch_length h
    match i.op with
    | .ret => pure []
    | .loadText =>
      match Bytecode.textAt code i.arg with
      | .error f => pure [.corrupt f]
      | .ok text => checkFrom code target (pc + Bytecode.insnWidth) text
    | _ => do
      let found ← checkInsn w target text i
      let later ← checkFrom code target (pc + Bytecode.insnWidth) text
      pure (found ++ later)
termination_by code.length - pc
decreasing_by
  all_goals
    simp only [Bytecode.insnWidth] at *
    omega

/-- The warnings about a lock on the target, for its owner. -/
def check (code : LockCode) (owner target : Dbref) (lock : Bytes) : m (List Warning) :=
  match code with
  | none => pure []
  | some bytes => do
    let causes ← checkFrom w bytes target 0 []
    pure (causes.map fun cause => ⟨owner, target, lock, cause⟩)

end Lint

/-- What is known of the outcome of a lock. -/
inductive LockClass where
  | unlocked
  | locked
  | conditional
deriving DecidableEq, Repr

def LockClass.name : LockClass → Bytes
  | unlocked => "unlocked"
  | locked => "locked"
  | conditional => "conditional"

/-- Tells constant locks from others. Only open locks and those that set a constant and end are
constant. -/
def LockCode.classify : LockCode → LockClass
  | none => .unlocked
  | some code =>
    match code with
    | 4 :: a :: b :: c :: d :: 0 :: _ :: _ :: _ :: _ :: _ =>
      if LittleEndian.toNat [a, b, c, d] = 0 then .locked else .unlocked
    | _ => .conditional

end Locksmith
