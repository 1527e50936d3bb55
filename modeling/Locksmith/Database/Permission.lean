import Locksmith.Database.Store

namespace Locksmith
namespace Database
namespace Store

def isWizard (s : Store) (d : Dbref) : Bool := (s.get? d).any (·.flags.has .wizard)

def seesAll (s : Store) (d : Dbref) : Bool :=
  (s.get? d).any fun o => o.flags.has .wizard || o.flags.has .royalty || o.hasPower "SEE_ALL"

/-- Whether one object may change another. Everything controls itself, wizards control
everything, and otherwise objects with one owner control each other unless the other one is a
wizard. -/
def controls (s : Store) (who what : Dbref) : Bool :=
  match s.get? who, s.get? what with
  | some w, some t =>
    who = what || w.flags.has .wizard || (!t.flags.has .wizard && w.owner = t.owner)
  | _, _ => false

/-- Whether one object may change another, or look at everything. -/
def oversees (s : Store) (who what : Dbref) : Bool := s.controls who what || s.seesAll who

/-- Whether a viewer may see an object's details. -/
def canExamine (s : Store) (viewer d : Dbref) : Bool :=
  (s.get? d).any fun o => o.flags.has .visual || s.oversees viewer d

/-- Whether a viewer may read an attribute; one that is missing has nothing to hide. -/
def canReadAttribute (s : Store) (viewer d : Dbref) (name : Bytes) : Bool :=
  (s.get? d).any fun o =>
    match o.attribute? name with
    | none => true
    | some a =>
      if a.flags.has .hidden then s.seesAll viewer
      else if a.flags.has .privately then s.oversees viewer d
      else true

def canReadLock (s : Store) (viewer d : Dbref) (name : Bytes) : Bool :=
  -- Here and below the name is taken as it is: none does not stand for the default lock.
  (s.get? d).any fun o =>
    match o.lock? name with
    | none => true
    | some l => !l.flags.has .privately || s.oversees viewer d

def canShowLock (s : Store) (viewer : Dbref) (o : Object) (l : LockRecord) : Bool :=
  l.flags.has .visual || (o.flags.has .visual && !l.flags.has .privately) ||
    s.oversees viewer o.id

def canSetLock (s : Store) (who d : Dbref) (name : Bytes) : Bool :=
  s.controls who d &&
    match (s.get? d).bind (·.lock? name) with
    | some l => !l.flags.has .locked || s.isWizard who
    | none => true

/-- Whether a viewer may see where a subject connects from. -/
def canSeeConnection (s : Store) (viewer subject : Dbref) : Bool := s.oversees viewer subject

/-- Whether a viewer knows that a channel exists. -/
def canSeeChannel (s : Store) (viewer : Dbref) (name : Bytes) : Bool :=
  (s.channel? name).any fun c => !c.isPrivate || c.members.contains viewer || s.seesAll viewer

def onChannel (s : Store) (subject : Dbref) (name : Bytes) : Bool :=
  (s.channel? name).any (·.members.contains subject)

/-- Whether a viewer may see an object's flags and powers. -/
def canSeeFlags (s : Store) (viewer : Dbref) (o : Object) : Bool :=
  !o.flags.has .dark || s.oversees viewer o.id

/-- Whether, of a class, a subject is what a pattern says, as far as a viewer may know. -/
def hasFlagClass (s : Store) (className : Bytes) (subject viewer : Dbref)
    (pattern : Bytes) : Bool :=
  (s.get? subject).any fun o =>
    let pattern := pattern.trimBlanks
    let c := className.toUpper
    if c = ClassTable.flagName then
      s.canSeeFlags viewer o && (ObjectFlags.ofName? pattern).any o.flags.has
    else if c = ClassTable.powerName then s.canSeeFlags viewer o && o.hasPower pattern.toUpper
    else if c = ClassTable.typeName then o.type.name.equalsFold pattern
    else if c = ClassTable.objIdName then
      match ObjId.parse pattern with
      | .ok id => id.isFor o.id o.created
      | .error _ => false
    else false

end Store
end Database
end Locksmith
