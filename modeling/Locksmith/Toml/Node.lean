import Locksmith.Text.Bytes

namespace Locksmith
namespace Toml

/-- A value. Numbers with a fraction and points in time are only told apart from others. -/
inductive Node where
  | text (s : Bytes)
  | integer (n : Int64)
  | float
  | time
  | bool (b : Bool)
  | array (items : List Node)
  | table (implicit : Bool) (entries : List (Bytes × Node))
  | tables (items : List (List (Bytes × Node)))
deriving Inhabited

abbrev Path := List Bytes

/-- The entries of a table in the order in which they came. -/
abbrev Entries := List (Bytes × Node)

inductive Error where
  | badCharacter
  | unfinished
  | unexpected
  | badNumber
  | badEscape
  | redefined
  | mismatch
deriving DecidableEq, Repr

def Error.message : Error → Bytes
  | badCharacter => "character that is not allowed"
  | unfinished => "unexpected end of the document"
  | unexpected => "unexpected character"
  | badNumber => "number that is not valid"
  | badEscape => "escape sequence that is not valid"
  | redefined => "key that has already been defined"
  | mismatch => "value of another type expected"

/-- Puts a value in place of the one with the same name, or at the end. -/
def Entries.put (name : Bytes) (n : Node) : Entries → Entries
  | [] => [(name, n)]
  | e :: r => if e.1 = name then (name, n) :: r else e :: put name n r

/-- How a name on the way to a value is used: to pass through, or as a part of a dotted key. -/
inductive Passage where
  | pass
  | dotted
deriving DecidableEq, Repr

/-- Opens the table of a name on the way. -/
def Passage.enter :
    Passage → Option Node → Except Error (Bool × Entries ⊕ List Entries × Entries)
  | _, none => .ok (.inl (true, []))
  | .pass, some (.table implicit e) => .ok (.inl (implicit, e))
  | .dotted, some (.table _ e) => .ok (.inl (false, e))
  | .dotted, some (.array _) => .ok (.inl (false, []))
  | _, some (.tables l) =>
    match l.getLast? with
    | some e => .ok (.inr (l.dropLast, e))
    | none => .error .redefined
  | _, some _ => .error .redefined

/-- Changes the value of a name in the table at the end of a way. -/
def Entries.change (final : Bytes) (f : Option Node → Except Error Node) :
    List (Passage × Bytes) → Entries → Except Error Entries
  | [], e => do return e.put final (← f (e.lookup final))
  | (how, name) :: way, e => do
    match ← how.enter (e.lookup name) with
    | .inl (implicit, inner) => return e.put name (.table implicit (← change final f way inner))
    | .inr (before, inner) =>
      return e.put name (.tables (before ++ [← change final f way inner]))

/-- Sets a value. An array may be set again, and a plain value does not touch a table that was
only named on the way. -/
def assigned (n : Node) (old : Option Node) : Except Error Node :=
  match old, n with
  | none, _ | some (.array _), _ | some _, .array _ => .ok n
  | some (.table true _), .table _ _ => .error .redefined
  | some (.table true e), _ => .ok (.table false e)
  | some _, _ => .error .redefined

def opened : Option Node → Except Error Node
  | none => .ok (.table false [])
  | some (.table true e) => .ok (.table false e)
  | some (.array _) => .ok (.table false [])
  | some _ => .error .redefined

/-- Opens a further table of a list of tables. -/
def extended : Option Node → Except Error Node
  | none => .ok (.tables [[]])
  | some (.tables l) => .ok (.tables (l ++ [[]]))
  | some _ => .error .redefined

def Path.way (how : Passage) (p : Path) : List (Passage × Bytes) := p.dropLast.map (how, ·)

def Path.last (p : Path) : Bytes := p.getLast?.getD []

/-- Sets the value of a dotted key in the table at a path. -/
def Entries.assign (place key : Path) (n : Node) (e : Entries) : Except Error Entries :=
  e.change key.last (assigned n) (place.map (.pass, ·) ++ key.way .dotted)

def Entries.openTable (p : Path) (e : Entries) : Except Error Entries :=
  e.change p.last opened (p.way .pass)

/-- Opens a further table of the list of tables at a path. -/
def Entries.extendTables (p : Path) (e : Entries) : Except Error Entries :=
  e.change p.last extended (p.way .pass)

end Toml
end Locksmith
