import Locksmith.Database.Error
import Locksmith.Database.Object
import Locksmith.Trace

namespace Locksmith
namespace Database

/-- What a number stands for: an object, or one that is gone. -/
inductive Slot where
  | live (o : Object)
  | retired

structure Settings where
  classes : ClassTable
  /-- How deep indirect locks and evaluations may nest. -/
  maxDepth : Nat
  tracer : Tracer
  /-- Whether someone takes the messages sent to objects; if not they are logged. -/
  listening : Bool

def Settings.standard : Settings := ⟨.standard, 10, .off, false⟩

/-- Objects by number, channels by name, and the chunks that hold the code of locks. A number
stays taken after its object is gone. -/
structure Store where
  settings : Settings
  slots : SortedMap Dbref Slot
  /-- By name in lower case. -/
  channels : SortedMap Bytes Channel
  chunks : Chunk.Store

namespace Store

def empty (settings : Settings) (chunks : Chunk.Store) : Store :=
  ⟨settings, .empty, .empty, chunks⟩

def get? (s : Store) (d : Dbref) : Option Object :=
  match s.slots.get? d with
  | some (.live o) => some o
  | _ => none

/-- Whether a number stands for an object. -/
def isValid (s : Store) (d : Dbref) : Bool := !d.isSentinel && (s.get? d).isSome

def modify (s : Store) (d : Dbref) (f : Object → Object) : Store :=
  match s.get? d with
  | some o => { s with slots := s.slots.insert d (.live (f o)) }
  | none => s

/-- The objects in the order of their numbers. -/
def objects (s : Store) : List Object :=
  s.slots.values.filterMap fun
    | .live o => some o
    | .retired => none

/-- The highest number that was ever taken. -/
def highest (s : Store) : Dbref := s.slots.keys.getLast?.getD .nothing

/-- The number after the highest one taken. -/
def nextNumber (s : Store) : Dbref := ⟨s.highest.num + 1⟩

def add (s : Store) (o : Object) : Except Error Store :=
  if o.id.isSentinel then .error (.badNumber o.id)
  else if s.slots.contains o.id then .error (.taken o.id)
  else .ok { s with slots := s.slots.insert o.id (.live o) }

/-- Whether `d` is met on the way from `loc` outwards, within `fuel` steps. -/
def meets (s : Store) (d : Dbref) : (fuel : Nat) → (loc : Dbref) → Bool
  | 0, _ => false
  | fuel + 1, loc =>
    if loc = .nothing then false
    else if loc = d then true
    else
      match s.get? loc with
      | none => false
      | some o => s.meets d fuel o.location

def move (s : Store) (d dest : Dbref) : Except Error Store :=
  match s.get? d with
  | none => .error (.nothingToMove d)
  | some o =>
    if dest ≠ .nothing ∧ (s.get? dest).isNone then .error (.noDestination dest)
    -- The way outwards never comes to one object twice, so that it has no more steps than there
    -- are numbers.
    else if s.meets d (s.slots.size + 1) dest then .error (.intoItself d)
    else
      .ok (((s.modify o.location (·.dropItem d)).modify d
        ({ · with location := dest })).modify dest (·.addItem d))

/-- Takes an object out of its location and its contents out of it, and retires its number. -/
def retire (s : Store) (o : Object) : Store :=
  let s := s.modify o.location (·.dropItem o.id)
  let s := o.contents.foldl (fun s c => s.modify c ({ · with location := .nothing })) s
  { s with slots := s.slots.insert o.id .retired }

/-- The players in the order of their numbers. -/
def players (s : Store) : List Dbref := (s.objects.filter (·.type = .player)).map (·.id)

/-- The first player with a name, without regard to case. -/
def player (s : Store) (name : Bytes) : Dbref :=
  ((s.objects.find? fun o =>
    o.type = .player && o.name.equalsFold name).map (·.id)).getD .failedMatch

/-- Adds a channel, in place of one with the same name. -/
def addChannel (s : Store) (c : Channel) : Store :=
  { s with channels := s.channels.insert c.name.toLower c }

def channel? (s : Store) (name : Bytes) : Option Channel := s.channels.get? name.toLower

def name (s : Store) (d : Dbref) : Bytes := ((s.get? d).map (·.name)).getD "Garbage"

def owner (s : Store) (d : Dbref) : Dbref := ((s.get? d).map (·.owner)).getD .nothing

/-- Whether an item lies directly in a holder. -/
def carries (s : Store) (holder item : Dbref) : Bool :=
  match s.get? item with
  | none => false
  | some o => !holder.isSentinel && o.location = holder

def attribute? (s : Store) (d : Dbref) (name : Bytes) : Option Bytes :=
  ((s.get? d).bind (·.attribute? name)).map (·.value)

/-- The address and host of the connection that was idle for the shortest time, the first of
several. -/
def leastIdle (s : Store) (d : Dbref) : Option (Bytes × Bytes) :=
  match (s.get? d).map (·.connections) with
  | some (c :: r) =>
    let best := r.foldl (fun best c => if c.idle.nanos < best.idle.nanos then c else best) c
    some (best.ip, best.host)
  | _ => none

end Store
end Database
end Locksmith
