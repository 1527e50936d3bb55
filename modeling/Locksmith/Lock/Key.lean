import Locksmith.Dbref

namespace Locksmith

/-- A lock: what a subject must be, carry, own or show to pass. A node keeps the offset of the
source byte that it came from: the operator's for operators, the first byte of the key for the
rest. -/
inductive Key where
  /-- Both keys pass. -/
  | and (pos : Nat) (left right : Key)
  /-- One of the keys passes. -/
  | or (pos : Nat) (left right : Key)
  /-- The key does not pass. -/
  | not (pos : Nat) (operand : Key)
  /-- The subject is or carries the object. -/
  | const (pos : Nat) (object : Dbref)
  /-- The subject is the object. -/
  | is (pos : Nat) (object : Dbref)
  /-- The subject carries the object. -/
  | carry (pos : Nat) (object : Dbref)
  /-- The subject and the object have one owner. -/
  | owner (pos : Nat) (object : Dbref)
  /-- The subject passes the named lock on the object. -/
  | indirect (pos : Nat) (object : Dbref) (lock : Bytes)
  /-- The subject's attribute matches the pattern. -/
  | attr (pos : Nat) (name pattern : Bytes)
  /-- The locked object's attribute, evaluated for the subject, matches the pattern. -/
  | eval (pos : Nat) (name pattern : Bytes)
  /-- The subject is in the class that the pattern describes. -/
  | flagClass (pos : Nat) (name pattern : Bytes)
  /-- A constant. -/
  | bool (pos : Nat) (value : Bool)
deriving DecidableEq, Repr

namespace Key

def isOr : Key → Bool
  | or .. => true
  | _ => false

def isAnd : Key → Bool
  | and .. => true
  | _ => false

end Key
end Locksmith
