import Locksmith.Data.SortedMap
import Locksmith.Text.Case

namespace Locksmith

inductive ClassKind where
  /-- The subject has a flag. -/
  | flag
  /-- The subject has a power. -/
  | power
  /-- The subject is of a type. -/
  | type
  /-- The subject is a certain object. -/
  | objId
  /-- The subject is on a channel. -/
  | channel
  /-- The address of the subject's least idle connection. -/
  | ip
  /-- The host name of the subject's least idle connection. -/
  | hostname
  /-- The subject is in a list kept in an attribute of the locked object. -/
  | dbrefList
  /-- A number that stands for no kind; such a class never matches. -/
  | unassigned (number : Int)
deriving DecidableEq, Repr

namespace ClassKind

def number : ClassKind → Int
  | flag => 0
  | power => 1
  | type => 2
  | objId => 3
  | channel => 4
  | ip => 5
  | hostname => 6
  | dbrefList => 7
  | unassigned n => n

def ofNumber (n : Int) : ClassKind :=
  if n = 0 then flag
  else if n = 1 then power
  else if n = 2 then type
  else if n = 3 then objId
  else if n = 4 then channel
  else if n = 5 then ip
  else if n = 6 then hostname
  else if n = 7 then dbrefList
  else unassigned n

end ClassKind

/-- The known classes, under their upper-case names. -/
structure ClassTable where
  byName : SortedMap Bytes ClassKind
deriving DecidableEq

namespace ClassTable

def ofList (l : List (Bytes × ClassKind)) : ClassTable :=
  ⟨SortedMap.ofList (l.map fun (name, kind) => (name.toUpper, kind))⟩

def flagName : Bytes := "FLAG"

def powerName : Bytes := "POWER"

def typeName : Bytes := "TYPE"

def objIdName : Bytes := "OBJID"

def standard : ClassTable := ofList [
  (flagName, .flag), (powerName, .power), (typeName, .type), (objIdName, .objId),
  ("CHANNEL", .channel),
  ("IP", .ip), ("HOSTNAME", .hostname), ("DBREFLIST", .dbrefList)]

def get? (t : ClassTable) (name : Bytes) : Option ClassKind := t.byName.get? name.toUpper

def contains (t : ClassTable) (name : Bytes) : Bool := (t.get? name).isSome

def names (t : ClassTable) : List Bytes := t.byName.keys

end ClassTable
end Locksmith
