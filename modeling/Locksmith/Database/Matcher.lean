import Locksmith.Database.Permission

namespace Locksmith
namespace Database

/-- How well a name fits an object, the best first. -/
inductive Tier where
  | name
  | aliasName
  | namePrefix
  | aliasPrefix
deriving DecidableEq, Repr

def Tier.all : List Tier := [name, aliasName, namePrefix, aliasPrefix]

/-- Whether an object fits a search text in lower case. -/
def Tier.fits (t : Tier) (search : Bytes) (o : Object) : Bool :=
  match t with
  | name => o.name.toLower == search
  | aliasName => o.aliases.any fun a => a.toLower == search
  | namePrefix => o.name.toLower.startsWith search
  | aliasPrefix => o.aliases.any fun a => a.toLower.startsWith search

namespace Store

/-- Those of some objects that fit a name at one tier. -/
def fitting (s : Store) (t : Tier) (search : Bytes) (l : List Dbref) : List Dbref :=
  l.filter fun d => (s.get? d).any (t.fits search)

/-- Those of some objects that fit a name best. -/
def bestFits (s : Store) (search : Bytes) (l : List Dbref) : List Dbref :=
  ((Tier.all.map fun t => s.fitting t search l).find? (!·.isEmpty)).getD []

/-- The object with a number and a time of creation. -/
def matchObjId (s : Store) (text : Bytes) : Dbref :=
  match ObjId.parse text with
  | .error _ => .failedMatch
  | .ok id =>
    match s.get? id.ref with
    | some o => if id.isFor o.id o.created then o.id else .failedMatch
    | none => .failedMatch

def matchNumber (s : Store) (text : Bytes) : Dbref :=
  match Dbref.parse text with
  | .ok d => if s.isValid d then d else .failedMatch
  | .error _ => .failedMatch

/-- The only one of some objects; none if there are none. -/
def only? : List Dbref → Option Dbref
  | [] => none
  | [d] => some d
  | _ => some .ambiguous

/-- The object that a name means among what a player carries and what is around. -/
def matchNearby (s : Store) (player : Dbref) (o : Object) (name : Bytes) : Dbref :=
  let search := name.toLower
  match only? (s.bestFits search o.contents) with
  | some d => d
  | none =>
    match s.get? o.location with
    | none => .failedMatch
    | some room =>
      (only? (s.bestFits search (room.contents.filter (· ≠ player)))).getD .failedMatch

/-- The object that a name means to a player: by number, as a player after a star, `me`, `here`,
then what the player carries and what is in the room. Names go before aliases and whole ones
before beginnings. -/
def matchObject (s : Store) (player : Dbref) (text : Bytes) : Dbref :=
  let name := text.trimBlanks
  match name with
  | [] => .nothing
  | first :: rest =>
    if first = Bytes.ofChar '#' then
      if name.contains (Bytes.ofChar ':') then s.matchObjId name else s.matchNumber name
    else if first = Bytes.ofChar '*' then s.player (Bytes.trimBlanks rest)
    else
      match s.get? player with
      | none => .failedMatch
      | some o =>
        let lower := name.toLower
        if lower = "me" then player
        else if lower = "here" then if s.isValid o.location then o.location else .failedMatch
        else s.matchNearby player o name

end Store
end Database
end Locksmith
