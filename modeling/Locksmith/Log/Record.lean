import Locksmith.Dbref

namespace Locksmith

structure ChunkRef where
  num : UInt64
deriving DecidableEq, Repr, Inhabited

namespace ChunkRef

instance : Ord ChunkRef := ⟨compareOn num⟩
instance : Std.TransOrd ChunkRef := inferInstanceAs (Std.TransCmp (compareOn num))
instance : Std.LawfulEqOrd ChunkRef where
  compare_self {a} := (Std.ReflCmp.compare_self : compareOn num a a = .eq)
  eq_of_compare {a b} h := by
    cases a; cases b
    exact congrArg _ (Std.LawfulEqOrd.eq_of_compare (α := UInt64) h)

/-- The written form, `chunk:N`. -/
def render (r : ChunkRef) : Bytes := "chunk:" ++ Decimal.ofNat r.num.toNat

/-- Whether the reference points at nothing. -/
def isZero (r : ChunkRef) : Bool := r.num == 0

end ChunkRef

namespace Log

/-- How grave a record is; the named levels are four apart. -/
structure Level where
  value : Int
deriving DecidableEq, Repr

namespace Level

def debug : Level := ⟨-4⟩

/-- The normal course of things. -/
def info : Level := ⟨0⟩

/-- Something unusual. -/
def warn : Level := ⟨4⟩

/-- Something failed. -/
def error : Level := ⟨8⟩

/-- A named level and the distance to it. -/
def offset (name : Bytes) (d : Int) : Bytes :=
  if d = 0 then name else name ++ (if 0 ≤ d then ("+" : Bytes) else []) ++ Decimal.ofInt d

/-- The nearest named level below, and the distance to it. -/
def render (l : Level) : Bytes :=
  if l.value < 0 then offset "DEBUG" (l.value + 4)
  else if l.value < 4 then offset "INFO" l.value
  else if l.value < 8 then offset "WARN" (l.value - 4)
  else offset "ERROR" (l.value - 8)

end Level

inductive Value where
  | text (s : Bytes)
  | number (n : Int)
  | object (d : Dbref)
  | chunk (r : ChunkRef)
deriving DecidableEq, Repr

def Value.render : Value → Bytes
  | text s => s
  | number n => Decimal.ofInt n
  | object d => d.render
  | chunk r => r.render

structure Record where
  level : Level
  message : Bytes
  fields : List (Bytes × Value)
deriving DecidableEq, Repr

end Log
end Locksmith
