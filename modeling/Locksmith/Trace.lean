import Locksmith.Dbref
import Locksmith.Text.Case
import Locksmith.Text.PathPattern

namespace Locksmith

structure Tracer where
  enabled : Bool
  /-- Patterns for lock names, in lower case. -/
  filters : List Bytes
deriving DecidableEq, Repr

namespace Tracer

def off : Tracer := ⟨false, []⟩

/-- A tracer for locks whose names match one of the patterns without regard to case. -/
def ofFilters (enabled : Bool) (filters : List Bytes) : Tracer :=
  ⟨enabled, filters.map Bytes.toLower⟩

/-- Whether events of this lock are traced. -/
def traces (t : Tracer) (lock : Bytes) : Bool :=
  t.enabled && (t.filters.isEmpty || t.filters.any fun p => PathPattern.isMatch p lock.toLower)

def shorten (s : Bytes) : Bytes := if s.length > 60 then s.take 57 ++ "..." else s

def checked (t : Tracer) (object : Dbref) (lock : Bytes) (subject : Dbref)
    (passed : Bool) : Bytes :=
  if t.traces lock then
    "[TRACE] LOCK " ++ object.render ++ "/" ++ lock ++ " subject=" ++
      subject.render ++ " => " ++
      (if passed then "pass" else "fail") ++ "\n"
  else []

/-- The line for a lock that gets a new text. -/
def changed (t : Tracer) (object : Dbref) (lock source : Bytes) : Bytes :=
  if t.traces lock then
    "[TRACE] SET " ++ object.render ++ "/" ++ lock ++ " " ++
      Quoted.text (shorten source) ++ "\n"
  else []

/-- The line for a message sent to an object. -/
def notified (t : Tracer) (object : Dbref) (message : Bytes) : Bytes :=
  if t.enabled then
    "[TRACE]   NOTIFY " ++ object.render ++ " " ++ Quoted.text (shorten message) ++ "\n"
  else []

end Tracer
end Locksmith
