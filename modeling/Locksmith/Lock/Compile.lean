import Locksmith.Lock.FlagClass
import Locksmith.Lock.Parser
import Locksmith.Log.Record
import Locksmith.Machine.Bytecode
import Locksmith.Machine.Threading

namespace Locksmith

inductive CompileError where
  | badText (e : ParseError)
  | wideObject (d : Dbref)
deriving DecidableEq, Repr

/-- The wording of a compile error for a lock of some type. -/
def CompileError.message (lockType : Bytes) (e : CompileError) : Bytes :=
  "compiling " ++ lockType ++ " lock: " ++
    match e with
    | .badText e => e.message
    | .wideObject d => Assembly.wideObject d

namespace Lock

def ofKey (key : Option Key) : Except Dbref LockCode :=
  (Assembly.ofKey key).map fun a => a.threadJumps.emit

/-- The code of the lock that a text describes. -/
def compileWith (ctx : ParseContext) (source : Bytes) : Except CompileError LockCode :=
  match Key.parse ctx source with
  | .error e => .error (.badText e)
  | .ok key =>
    match ofKey key with
    | .error d => .error (.wideObject d)
    | .ok code => .ok code

structure Compiler where
  classes : ClassTable
  /-- Finds the object that a name means to a player. -/
  matcher : Option (Dbref → Bytes → Dbref)

namespace Compiler

/-- Compiles a lock of a type for a player. -/
def compile (c : Compiler) (source : Bytes) (subject : Dbref) (lockType : Bytes) :
    Except CompileError LockCode :=
  compileWith ⟨c.matcher, some c.classes.contains, subject, lockType, false⟩ source

/-- Compiles a lock of a type while a database is loaded: objects are always `#N`. -/
def compileLoad (c : Compiler) (source lockType : Bytes) : Except CompileError LockCode :=
  compileWith ⟨none, some c.classes.contains, .nothing, lockType, true⟩ source

def loadFailure (source lockType : Bytes) (e : CompileError) : Log.Record :=
  ⟨.warn, "unparsable lock in database",
    [("lock", .text lockType), ("source", .text source), ("error", .text (e.message lockType))]⟩

end Compiler
end Lock
end Locksmith
