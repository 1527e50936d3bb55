import Locksmith.Text.Calendar
import Locksmith.Text.Duration
import Locksmith.Yaml.Reader

namespace Locksmith
namespace Yaml

inductive Meaning where
  | null
  | bool (b : Bool)
  | int (n : Int)
  | float (x : Float)
  | time
  | text (s : Bytes)

namespace Meaning

/-- A digit of a number with base at most sixteen. -/
def digit? (base : Nat) (b : UInt8) : Option Nat :=
  let n :=
    if 48 ≤ b && b ≤ 57 then b.toNat - 48
    else if 97 ≤ b && b ≤ 102 then b.toNat - 87
    else if 65 ≤ b && b ≤ 70 then b.toNat - 55
    else 99
  if n < base then some n else none

def digits? (base : Nat) (s : Bytes) : Option Nat :=
  if s.isEmpty then none else s.foldlM (fun n b => (digit? base b).map (n * base + ·)) 0

/-- A number without sign; its first characters tell the base. -/
def natural? (s : Bytes) : Option Nat :=
  match s with
  | 48 :: x :: r =>
    if x = 120 || x = 88 then digits? 16 r
    else if x = 98 || x = 66 then digits? 2 r
    else if x = 111 || x = 79 then digits? 8 r
    else digits? 8 (x :: r)
  | s => digits? 10 s

/-- An integer of 64 bits; without a sign it may take all of them. -/
def integer? (s : Bytes) : Option Int :=
  match s with
  | 45 :: r => do
    let n ← natural? r
    if n ≤ Decimal.signedLimit then some (-(n : Int)) else none
  | 43 :: r => do
    let n ← natural? r
    if n < Decimal.signedLimit then some n else none
  | s => do
    let n ← natural? s
    if n < Decimal.unsignedLimit then some n else none

/-- An exponent: a letter, an optional sign and digits. -/
def exponent? (s : Bytes) : Option Int :=
  match s with
  | [] => some 0
  | e :: r =>
    if e = 101 || e = 69 then
      match r with
      | 45 :: r => (digits? 10 r).map fun n => -(n : Int)
      | 43 :: r => (digits? 10 r).map fun n => (n : Int)
      | r => (digits? 10 r).map fun n => (n : Int)
    else none

/-- A number with a point or an exponent. -/
def decimal? (s : Bytes) : Option Float := do
  let (negative, s) := match s with
    | 45 :: r => (true, r)
    | 43 :: r => (false, r)
    | s => (false, s)
  let whole := s.takeWhile Bytes.isDigit
  let s := s.dropWhile Bytes.isDigit
  let (fraction, s, pointed) := match s with
    | 46 :: r => (r.takeWhile Bytes.isDigit, r.dropWhile Bytes.isDigit, true)
    | s => ([], s, false)
  if whole.isEmpty && fraction.isEmpty then none
  if whole.isEmpty && !pointed then none
  let e ← exponent? s
  let mantissa := (digits? 10 (whole ++ fraction)).getD 0
  let scale := e - fraction.length
  let x := if scale < 0 then Float.ofScientific mantissa true scale.natAbs
    else Float.ofScientific mantissa false scale.natAbs
  if x.isInf then none else some (if negative then -x else x)

/-- Whether a text is a date, or a date and a time with a zone after a letter or without one
after a blank. -/
def isTime (s : Bytes) : Bool :=
  match Calendar.skipDate 1 s with
  | none => false
  | some [] => true
  | some (b :: r) =>
    match Calendar.skipTime 1 r with
    | none => false
    | some zone => if b = 84 || b = 116 then Calendar.isZone zone else b = 32 && zone.isEmpty

/-- Whether the first character announces a number. -/
def looksNumeric (s : Bytes) : Bool :=
  match s with
  | b :: _ => Bytes.isDigit b || b = 43 || b = 45 || b = 46
  | [] => false

/-- What the text of a plain scalar means. -/
def ofPlain (s : Bytes) : Meaning :=
  if s.isEmpty || [("~" : Bytes), "null", "Null", "NULL"].contains s then .null
  else if [("true" : Bytes), "True", "TRUE"].contains s then .bool true
  else if [("false" : Bytes), "False", "FALSE"].contains s then .bool false
  else if isTime s then .time
  else if looksNumeric s then
    let plain := s.filter (· != 95)
    match (if s.startsWith "." then none else integer? plain), decimal? plain with
    | some n, _ => .int n
    | none, some x => .float x
    | none, none => .text s
  else .text s

/-- What a scalar means; quoted ones are texts. -/
def ofScalar (plain : Bool) (s : Bytes) : Meaning := if plain then ofPlain s else .text s

end Meaning

/-- Reads a node as a value; `none` is a node without a value. -/
abbrev Decoder (α : Type) := Node → Except Error (Option α)

namespace Node

def isNull : Node → Bool
  | scalar plain s => match Meaning.ofScalar plain s with
    | .null => true
    | _ => false
  | _ => false

/-- A text; every scalar has one. -/
def asText : Decoder Bytes := fun n =>
  match n with
  | scalar _ s => .ok (if n.isNull then none else some s)
  | _ => .error .mismatch

def maxInt : Int := 0x7fffffffffffffff

/-- An integer of 64 bits; a number with a fraction loses it. -/
def asInt64 : Decoder Int64 := fun n =>
  match n with
  | scalar plain s =>
    match Meaning.ofScalar plain s with
    | .null => .ok none
    | .int i => if i ≤ maxInt then .ok (some (Int64.ofInt i)) else .error .mismatch
    | .float x => if x < 9223372036854775808.0 then .ok (some x.toInt64) else .error .mismatch
    | _ => .error .mismatch
  | _ => .error .mismatch

/-- Words for true and false that are accepted where a truth value is expected. -/
def boolWord? (s : Bytes) : Option Bool :=
  if [("y" : Bytes), "Y", "yes", "Yes", "YES", "on", "On", "ON"].contains s then some true
  else if [("n" : Bytes), "N", "no", "No", "NO", "off", "Off", "OFF"].contains s then some false
  else none

def asBool : Decoder Bool := fun n =>
  match n with
  | scalar plain s =>
    match Meaning.ofScalar plain s with
    | .null => .ok none
    | .bool b => .ok (some b)
    | .text t =>
      match boolWord? t with
      | some b => .ok (some b)
      | none => .error .mismatch
    | _ => .error .mismatch
  | _ => .error .mismatch

/-- A length of time, which is a text with units. -/
def asDuration : Decoder Duration := fun n =>
  match n with
  | scalar plain s =>
    match Meaning.ofScalar plain s with
    | .null => .ok none
    | .text t =>
      match Duration.parse? t with
      | some d => .ok (some d)
      | none => .error .mismatch
    | _ => .error .mismatch
  | _ => .error .mismatch

/-- The items that have a value. -/
def asList {α : Type} (item : Decoder α) : Decoder (List α) := fun n =>
  match n with
  | sequence l => do return some ((← l.mapM item).filterMap id)
  | n => if n.isNull then .ok none else .error .mismatch

/-- A key as it is compared with others: its kind and its text. -/
def keyText : Node → Nat × Bytes
  | scalar _ s => (0, s)
  | sequence _ => (1, [])
  | mapping _ => (2, [])

/-- The entries of a mapping whose keys are texts; no key may come twice. -/
def asEntries : Decoder (List (Bytes × Node)) := fun n =>
  match n with
  | mapping l => do
    if ¬ (l.map fun e => e.1.keyText).Nodup then throw .duplicateKey
    let entries ← l.mapM fun (k, v) => do return (← k.asText).map fun k => (k, v)
    return some (entries.filterMap id)
  | n => if n.isNull then .ok none else .error .mismatch

/-- A mapping from texts to values; an entry without a value gets the default. -/
def asMap {α : Type} (value : Decoder α) (default : α) : Decoder (List (Bytes × α)) :=
  fun n => do
  let some l ← n.asEntries | return none
  return some (← l.mapM fun (k, v) => do return (k, (← value v).getD default))

end Node

abbrev Fields := List (Bytes × Node)

/-- The value of a field, if there is one. -/
def Fields.get? {α : Type} (f : Fields) (name : Bytes) (d : Decoder α) :
    Except Error (Option α) :=
  match f.lookup name with
  | none => .ok none
  | some n => d n

def Fields.getD {α : Type} (f : Fields) (name : Bytes) (d : Decoder α) (default : α) :
    Except Error α :=
  (f.get? name d).map (·.getD default)

def record {α : Type} (read : Fields → Except Error α) : Decoder α := fun n => do
  let some f ← n.asEntries | return none
  return some (← read f)

end Yaml
end Locksmith
