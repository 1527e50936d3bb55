import Locksmith.Dbref

namespace Locksmith

/-- An object number with a creation time, which does not follow the number to a new object. A
negative time stands for any. -/
structure ObjId where
  ref : Dbref
  created : Int64
deriving DecidableEq, Repr, Inhabited

namespace ObjId

/-- The written form, `#N:ctime`. -/
def render (o : ObjId) : Bytes := o.ref.render ++ ":" ++ Decimal.ofInt o.created.toInt

/-- Why a text is no qualified reference. -/
inductive Error where
  | badRef (cause : Dbref.Error)
  | badTime (text time : Bytes) (cause : Decimal.Error)
deriving DecidableEq, Repr

def Error.message : Error → Bytes
  | badRef cause => cause.message
  | badTime text time cause =>
    "invalid objid " ++ Quoted.text text ++ ": " ++ Decimal.report "ParseInt" time cause

/-- Reads `#N:ctime`; a bare `#N` stands for any creation time. -/
def parse (s : Bytes) : Except Error ObjId :=
  let text := s.trimBlanks
  let (refText, time?) := match text.cutAt (· == 58) with
    | some (before, after) => (before, some after)
    | none => (text, none)
  match Dbref.parse refText with
  | .error e => .error (.badRef e)
  | .ok ref =>
    match time? with
    | none => .ok ⟨ref, -1⟩
    | some time =>
      match Decimal.readInt64 time with
      | .ok created => .ok ⟨ref, created⟩
      | .error e => .error (.badTime text time e)

/-- Whether the reference means the object with this number and creation time. -/
def isFor (o : ObjId) (ref : Dbref) (created : Int64) : Bool :=
  o.ref == ref && (o.created < 0 || o.created == created)

end ObjId
end Locksmith
