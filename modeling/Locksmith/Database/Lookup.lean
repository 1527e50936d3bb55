import Locksmith.Database.Journal
import Locksmith.Database.Permission
import Locksmith.Database.Substitute
import Locksmith.Machine.Eval

namespace Locksmith
namespace Database

/-- The lock that is meant when no name is given. -/
def defaultLock : Bytes := "Basic"

/-- The name of a lock, or the default one. -/
def lockName (name : Bytes) : Bytes := if name.isEmpty then defaultLock else name

/-- A lock as it was found: its record, if there is one, and its code or why it cannot be read.
-/
structure FoundLock where
  record : Option LockRecord
  code : Except Error LockCode

namespace Store

def codeOf (s : Store) (d : Dbref) (name : Bytes) (l : LockRecord) : Except Error LockCode :=
  if l.ref.isZero then .ok none else (s.chunks.fetch l.ref).mapError (.fetching name d)

/-- Looks up a lock. One that is not set is open. -/
def findLock (s : Store) (d : Dbref) (name : Bytes) : FoundLock :=
  let name := lockName name
  match s.get? d with
  | none => ⟨none, .error (.noObject d)⟩
  | some o =>
    match o.lock? name with
    | none => ⟨none, .ok none⟩
    | some l => ⟨some l, s.codeOf d name l⟩

/-- The locks of an object in the order of their names. -/
def locks (s : Store) (d : Dbref) : List LockRecord := ((s.get? d).map (·.lockRecords)).getD []

/-- Sends an object a message; if nobody listens it is logged. -/
def notify (s : Store) (d : Dbref) (message : Bytes) : Journaled Unit := do
  Journaled.trace (s.settings.tracer.notified d message)
  if s.settings.listening then Journaled.record (.note d message)
  else Journaled.log ⟨.info, "notify", [("object", .object d), ("message", .text message)]⟩

def world (s : Store) : World Journaled where
  isValid d := pure (s.isValid d)
  owner d := pure (s.owner d)
  carries holder item := pure (s.carries holder item)
  lock d name := pure ((s.findLock d name).code.mapError (·.message))
  canReadLock viewer d name := pure (s.canReadLock viewer d name)
  canReadAttribute viewer d name := pure (s.canReadAttribute viewer d name)
  attr d name := pure (s.attribute? d name)
  evalAttribute d name enactor := pure ((s.evalAttribute d name enactor).mapError (·.message))
  hasFlagClass className subject viewer pattern :=
    pure (s.hasFlagClass className subject viewer pattern)
  canSeeConnection viewer subject := pure (s.canSeeConnection viewer subject)
  leastIdle d := pure (s.leastIdle d)
  canSeeChannel viewer name := pure (s.canSeeChannel viewer name)
  onChannel subject name := pure (s.onChannel subject name)
  notify d message := s.notify d message
  log r := Journaled.log r

def machine (s : Store) : Machine Journaled :=
  ⟨s.world, s.settings.classes, s.settings.maxDepth⟩

end Store
end Database
end Locksmith
