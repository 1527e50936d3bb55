import Locksmith.Data.SortedMap
import Locksmith.Log.Record
import Locksmith.ObjId
import Locksmith.Text.Case
import Locksmith.Text.Duration

namespace Locksmith

inductive ObjectType where
  | thing
  | room
  | exit
  | player
  | garbage
  | unassigned (number : Int)
deriving DecidableEq, Repr

namespace ObjectType

def ofNumber (n : Int) : ObjectType :=
  if n = 0 then thing
  else if n = 1 then room
  else if n = 2 then exit
  else if n = 3 then player
  else if n = 4 then garbage
  else unassigned n

def name : ObjectType → Bytes
  | thing => "THING"
  | room => "ROOM"
  | exit => "EXIT"
  | player => "PLAYER"
  | garbage => "GARBAGE"
  | unassigned n => "TYPE(" ++ Decimal.ofInt n ++ ")"

/-- The type with a name, without regard to case. -/
def ofName? (s : Bytes) : Option ObjectType :=
  [thing, room, exit, player, garbage].find? fun t => t.name.equalsFold s

end ObjectType

structure ObjectFlags where
  bits : UInt32
deriving DecidableEq, Repr, Inhabited

namespace ObjectFlags

def none : ObjectFlags := ⟨0⟩

/-- Controls everything. -/
def wizard : ObjectFlags := ⟨1⟩

/-- Sees everything. -/
def royalty : ObjectFlags := ⟨2⟩

/-- Anyone may look at it. -/
def visual : ObjectFlags := ⟨4⟩

/-- Hides its flags and powers. -/
def dark : ObjectFlags := ⟨8⟩

/-- Does nothing by itself. -/
def halt : ObjectFlags := ⟨16⟩

def covered : ObjectFlags := ⟨32⟩

/-- Is about to be destroyed. -/
def going : ObjectFlags := ⟨64⟩

/-- The flags with their names, in the order of the names. -/
def named : List (Bytes × ObjectFlags) :=
  [("DARK", dark), ("GOING", going), ("HALT", halt), ("OPAQUE", covered), ("ROYALTY", royalty),
    ("VISUAL", visual), ("WIZARD", wizard)]

/-- The flag with a name, without regard to case. -/
def ofName? (s : Bytes) : Option ObjectFlags := named.lookup s.toUpper

def has (f flag : ObjectFlags) : Bool := f.bits &&& flag.bits != 0

def set (f flag : ObjectFlags) : ObjectFlags := ⟨f.bits ||| flag.bits⟩

def clear (f flag : ObjectFlags) : ObjectFlags := ⟨f.bits &&& ~~~flag.bits⟩

/-- The names of the flags that are set. -/
def render (f : ObjectFlags) : Bytes :=
  Bytes.join " " ((named.filter fun e => f.has e.2).map (·.1))

/-- The object flags with some names; the first unknown name is an error. -/
def ofNames : List Bytes → Except Bytes ObjectFlags :=
  List.foldlM (fun (f : ObjectFlags) name =>
    match ofName? name with
    | some flag => .ok (f.set flag)
    | .none => .error name) .none

end ObjectFlags

structure AttrFlags where
  bits : UInt8
deriving DecidableEq, Repr, Inhabited

namespace AttrFlags

/-- Those who control the object, and those who see all. -/
def privately : AttrFlags := ⟨1⟩

/-- Only those who see all. -/
def hidden : AttrFlags := ⟨2⟩

def has (f flag : AttrFlags) : Bool := f.bits &&& flag.bits != 0

def set (f flag : AttrFlags) : AttrFlags := ⟨f.bits ||| flag.bits⟩

/-- The attribute flags with some names; the first unknown name is an error. -/
def ofNames : List Bytes → Except Bytes AttrFlags :=
  List.foldlM (fun (f : AttrFlags) name =>
    let lower := name.toLower
    if lower = "private" then .ok (f.set .privately)
    else if lower = "hidden" then .ok (f.set .hidden)
    else .error name) ⟨0⟩

end AttrFlags

structure LockFlags where
  bits : UInt8
deriving DecidableEq, Repr, Inhabited

namespace LockFlags

/-- Only those who control the object may read it. -/
def privately : LockFlags := ⟨1⟩

/-- Anyone may see its text. -/
def visual : LockFlags := ⟨2⟩

/-- Only a wizard may change it. -/
def locked : LockFlags := ⟨4⟩

def has (f flag : LockFlags) : Bool := f.bits &&& flag.bits != 0

def set (f flag : LockFlags) : LockFlags := ⟨f.bits ||| flag.bits⟩

def render (f : LockFlags) : Bytes :=
  (if f.has privately then [112] else []) ++ (if f.has visual then [118] else []) ++
    (if f.has locked then [43] else [])

/-- The lock flags with some names; the first unknown name is an error. -/
def ofNames : List Bytes → Except Bytes LockFlags :=
  List.foldlM (fun (f : LockFlags) name =>
    let lower := name.toLower
    if lower = "private" then .ok (f.set .privately)
    else if lower = "visual" then .ok (f.set .visual)
    else if lower = "locked" then .ok (f.set .locked)
    else .error name) ⟨0⟩

end LockFlags

structure Attribute where
  name : Bytes
  value : Bytes
  owner : Dbref
  flags : AttrFlags
deriving DecidableEq, Repr

/-- A lock on an object. Its code is the chunk `ref`; a zero reference stands for an open lock.
-/
structure LockRecord where
  name : Bytes
  creator : Dbref
  flags : LockFlags
  ref : ChunkRef
deriving DecidableEq, Repr

structure Connection where
  ip : Bytes
  host : Bytes
  idle : Duration
deriving DecidableEq, Repr

structure Channel where
  name : Bytes
  /-- Known to members and to those who see all. -/
  isPrivate : Bool
  members : List Dbref
deriving DecidableEq, Repr

structure Object where
  id : Dbref
  name : Bytes
  type : ObjectType
  owner : Dbref
  location : Dbref
  contents : List Dbref
  flags : ObjectFlags
  /-- Names of powers in upper case. -/
  powers : SortedMap Bytes Unit
  aliases : List Bytes
  created : Int64
  /-- By name in upper case. -/
  attributes : SortedMap Bytes Attribute
  /-- By name in lower case. -/
  locks : SortedMap Bytes LockRecord
  connections : List Connection

namespace Object

def new (id owner : Dbref) : Object where
  id
  name := []
  type := .thing
  owner
  location := .nothing
  contents := []
  flags := .none
  powers := .empty
  aliases := []
  created := 0
  attributes := .empty
  locks := .empty
  connections := []

/-- The number of an object with its time of creation. -/
def objId (o : Object) : ObjId := ⟨o.id, o.created⟩

def attribute? (o : Object) (name : Bytes) : Option Attribute := o.attributes.get? name.toUpper

/-- Sets an attribute, which belongs to the owner of the object. -/
def setAttribute (o : Object) (name value : Bytes) (flags : AttrFlags) : Object :=
  { o with
    attributes := o.attributes.insert name.toUpper ⟨name.toUpper, value, o.owner, flags⟩ }

def lock? (o : Object) (name : Bytes) : Option LockRecord := o.locks.get? name.toLower

/-- Puts a lock record in place of one with the same name. -/
def putLock (o : Object) (l : LockRecord) : Object :=
  { o with locks := o.locks.insert l.name.toLower l }

def dropLock (o : Object) (name : Bytes) : Object :=
  { o with locks := o.locks.erase name.toLower }

/-- The lock records in the order of their names. -/
def lockRecords (o : Object) : List LockRecord :=
  o.locks.values.mergeSort fun a b => Bytes.le a.name b.name

def hasPower (o : Object) (name : Bytes) : Bool := o.powers.contains name

/-- Gives an object a power, or takes it away. -/
def setPower (o : Object) (name : Bytes) (on : Bool) : Object :=
  { o with powers := if on then o.powers.insert name () else o.powers.erase name }

def dropItem (o : Object) (item : Dbref) : Object :=
  { o with contents := o.contents.filter (· ≠ item) }

def addItem (o : Object) (item : Dbref) : Object := { o with contents := o.contents ++ [item] }

end Object
end Locksmith
