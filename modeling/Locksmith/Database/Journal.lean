import Locksmith.Database.Store

namespace Locksmith
namespace Database

/-- Something that happens while a database works. -/
inductive Event where
  | log (r : Log.Record)
  | note (receiver : Dbref) (message : Bytes)
  | trace (line : Bytes)
deriving DecidableEq, Repr

abbrev Journaled := StateM (List Event)

namespace Journaled

def record (e : Event) : Journaled Unit := modify (· ++ [e])

def log (r : Log.Record) : Journaled Unit := record (.log r)

/-- Adds a line of the trace, if there is one. -/
def trace (line : Bytes) : Journaled Unit :=
  if line.isEmpty then pure () else record (.trace line)

end Journaled

structure Session where
  store : Store
  journal : List Event

abbrev Db (ε : Type) := ExceptT ε (StateM Session)

namespace Db

variable {ε α : Type}

def store : Db ε Store := return (← get).store

def putStore (s : Store) : Db ε Unit := modify ({ · with store := s })

/-- Work that only looks at the database. -/
def look (f : Store → Journaled α) : Db ε α := do
  let st ← get
  let (a, journal) := f st.store st.journal
  set { st with journal }
  return a

def log (r : Log.Record) : Db ε Unit := look fun _ => Journaled.log r

def ofExcept (x : Except ε α) : Db ε α :=
  match x with
  | .ok a => pure a
  | .error e => throw e

/-- Changes the database, unless that fails. -/
def change (f : Store → Except ε Store) : Db ε Unit := do putStore (← ofExcept (f (← store)))

end Db
end Database
end Locksmith
