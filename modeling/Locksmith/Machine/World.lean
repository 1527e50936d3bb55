import Locksmith.Log.Record
import Locksmith.Machine.Bytecode

namespace Locksmith

/-- What the lock machine asks of the world around it. Every question is an action of some
monad, so a world may keep a journal, answer from a fixed state, or be recorded call by call.
Questions about permission take the viewer first. -/
structure World (m : Type → Type) where
  /-- Whether an object exists. -/
  isValid : Dbref → m Bool
  /-- The owner of an object. -/
  owner : Dbref → m Dbref
  /-- Whether the first object carries the second. -/
  carries : Dbref → Dbref → m Bool
  /-- A lock on an object. A missing lock is open; a failure comes with its wording. -/
  lock : Dbref → Bytes → m (Except Bytes LockCode)
  /-- Whether a viewer may see a lock on an object. -/
  canReadLock : Dbref → Dbref → Bytes → m Bool
  /-- Whether a viewer may see an attribute of an object. -/
  canReadAttribute : Dbref → Dbref → Bytes → m Bool
  /-- An attribute of an object. -/
  attr : Dbref → Bytes → m (Option Bytes)
  /-- An attribute of an object, evaluated for the enactor given last. -/
  evalAttribute : Dbref → Bytes → Dbref → m (Except Bytes Bytes)
  /-- Whether, of a class, a subject is what a pattern says, as far as a viewer may know. -/
  hasFlagClass : Bytes → Dbref → Dbref → Bytes → m Bool
  /-- Whether a viewer may see where a subject connects from. -/
  canSeeConnection : Dbref → Dbref → m Bool
  /-- The address and host of a subject's least idle connection. -/
  leastIdle : Dbref → m (Option (Bytes × Bytes))
  /-- Whether a viewer may see a channel. -/
  canSeeChannel : Dbref → Bytes → m Bool
  /-- Whether a subject is on a channel. -/
  onChannel : Dbref → Bytes → m Bool
  /-- Sends an object a message. -/
  notify : Dbref → Bytes → m Unit
  /-- Writes a log record. -/
  log : Log.Record → m Unit

end Locksmith
