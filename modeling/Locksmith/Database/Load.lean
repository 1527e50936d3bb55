import Locksmith.Database.Locks
import Locksmith.Database.WorldFile
import Locksmith.Files.System

namespace Locksmith
namespace Database

inductive LoadError where
  | badDocument (e : Yaml.Error)
  | badNumber (name : Bytes) (d : Dbref)
  | unknownType (d : Dbref) (type : Bytes)
  | unknownFlag (d : Dbref) (flag : Bytes)
  | unknownAttributeFlag (d : Dbref) (name flag : Bytes)
  | adding (e : Error)
  | placing (d : Dbref) (e : Error)
  | unknownLockFlag (lock : Bytes) (d : Dbref) (flag : Bytes)
  | badLock (lock : Bytes) (d : Dbref) (e : CompileError)
  | locking (e : Error)
  | namelessChannel
  | unreadable (e : FileError)
  | inFile (path : Bytes) (e : LoadError)
deriving Repr

def LoadError.message : LoadError → Bytes
  | badDocument e => "parsing world: " ++ e.message
  | badNumber name d => "object " ++ Quoted.text name ++ " has invalid id " ++ d.render
  | unknownType d type => "object " ++ d.render ++ ": unknown object type " ++ Quoted.text type
  | unknownFlag d flag => "object " ++ d.render ++ ": unknown flag " ++ Quoted.text flag
  | unknownAttributeFlag d name flag =>
    "object " ++ d.render ++ " attribute " ++ name ++ ": unknown attribute flag " ++
      Quoted.text flag
  | adding e | locking e => e.message
  | placing d e => "placing " ++ d.render ++ ": " ++ e.message
  | unknownLockFlag lock d flag =>
    lock ++ " lock on " ++ d.render ++ ": unknown lock flag " ++ Quoted.text flag
  | badLock lock d e => lock ++ " lock on " ++ d.render ++ ": " ++ e.message lock
  | namelessChannel => "channel without a name"
  | unreadable e => "reading world: " ++ e.message
  | inFile path e => path ++ ": " ++ e.message

/-- The type of an object as it is written; no type is a thing. -/
def ObjectSpec.readType (spec : ObjectSpec) : Except LoadError ObjectType :=
  if spec.type.isEmpty then .ok .thing
  else
    match ObjectType.ofName? spec.type with
    | some t => .ok t
    | none => .error (.unknownType spec.id spec.type)

/-- Gives an object an attribute as it is written. -/
def addAttribute (o : Object) (name : Bytes) (a : AttributeSpec) : Except LoadError Object :=
  match AttrFlags.ofNames a.flags with
  | .ok flags => .ok (o.setAttribute name a.value flags)
  | .error flag => .error (.unknownAttributeFlag o.id name flag)

/-- The object that a specification describes, as yet nowhere and without locks. -/
def ObjectSpec.build (spec : ObjectSpec) : Except LoadError Object := do
  if spec.id.isSentinel then throw (.badNumber spec.name spec.id)
  let type ← spec.readType
  let flags ← (ObjectFlags.ofNames spec.flags).mapError (.unknownFlag spec.id)
  let o : Object :=
    { Object.new spec.id (spec.owner.getD spec.id) with
      name := spec.name
      created := spec.created
      aliases := spec.aliases
      type
      flags
      powers := SortedMap.ofList (spec.powers.map fun p => (p.toUpper, ()))
      connections := spec.connections.map fun c => ⟨c.ip, c.host, c.idle⟩ }
  -- Names are kept in upper case: of two that differ in case only, the later one stays.
  spec.attributes.foldlM (fun o e => addAttribute o e.1 e.2) o

namespace Db

/-- Adds the object that a specification describes. -/
def loadObject (spec : ObjectSpec) : Db LoadError Unit := do
  match spec.build with
  | .error e => throw e
  | .ok o => change fun s => (s.add o).mapError .adding

/-- Puts an object where its specification says. -/
def placeObject (spec : ObjectSpec) : Db LoadError Unit := do
  let location := spec.location.getD .nothing
  if location = .nothing then return
  change fun s => (s.move spec.id location).mapError (.placing spec.id)

def loadLock (spec : ObjectSpec) (name : Bytes) (l : LockSpec) : Db LoadError Unit := do
  match LockFlags.ofNames l.flags with
  | .error flag => throw (.unknownLockFlag name spec.id flag)
  | .ok flags =>
    let s ← store
    let creator := l.creator.getD (s.owner spec.id)
    match s.compiler.compileLoad l.source name with
    | .error e =>
      log (Lock.Compiler.loadFailure l.source name e)
      throw (.badLock name spec.id e)
    | .ok none => return
    | .ok (some code) => (setLock spec.id name (some code) creator flags).adapt .locking

/-- Sets all locks of an object in the order of their names. -/
def loadLocks (spec : ObjectSpec) : Db LoadError Unit := do
  for (name, l) in spec.locks.mergeSort (fun a b => Bytes.le a.1 b.1) do loadLock spec name l

def loadChannel (c : ChannelSpec) : Db LoadError Unit := do
  if c.name.isEmpty then throw .namelessChannel
  change fun s => .ok (s.addChannel ⟨c.name, c.isPrivate, c.members⟩)

/-- Fills a database from a world file. All objects are made first, then placed, then locked, so
that locations and locks may name objects that come later in the file. Placing and locking go by
number. -/
def loadWorld (w : WorldFile) : Db LoadError Unit := do
  -- Locations and locks may name objects that come later in the file.
  for spec in w.objects do loadObject spec
  let placed := w.objects.mergeSort fun a b => a.id.num ≤ b.id.num
  for spec in placed do placeObject spec
  for spec in placed do loadLocks spec
  for c in w.channels do loadChannel c
  log ⟨.info, "world loaded",
    [("objects", .number w.objects.length), ("channels", .number w.channels.length)]⟩

def loadText (source : Bytes) : Db LoadError Unit := do
  match WorldFile.parse source with
  | .error e => throw (.badDocument e)
  | .ok w => loadWorld w

/-- Fills a database from what reading a file gave. -/
def loadContent (path : Bytes) (content : Except FileError Bytes) : Db LoadError Unit := do
  match content with
  | .error e => throw (.unreadable e)
  | .ok source => (loadText source).adapt (.inFile path)

end Db
end Database
end Locksmith
