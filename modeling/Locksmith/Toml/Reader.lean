import Locksmith.Text.Hex
import Locksmith.Toml.Scalar

namespace Locksmith
namespace Toml

/-- A value with the paths of what was defined inside it. -/
structure Found where
  node : Node
  paths : List Path

mutual

def value : (fuel : Nat) → Bytes → Except Error (Found × Bytes)
  | 0, _ => .error .unfinished
  | fuel + 1, s =>
    match text? s with
    | some r => do
      let (t, rest) ← r
      return (⟨.text t, []⟩, rest)
    | none =>
      match s with
      | 91 :: r => do
        let (items, rest) ← arrayItems fuel r
        return (⟨.array (items.map (·.node)), items.flatMap (·.paths)⟩, rest)
      | 123 :: r => do
        let ((entries, paths), rest) ← inlineEntries fuel [] [] r
        return (⟨.table false entries, paths⟩, rest)
      | s => do
        let w := word s
        return (⟨← wordNode w, []⟩, s.drop w.length)

def arrayItems : (fuel : Nat) → Bytes → Except Error (List Found × Bytes)
  | 0, _ => .error .unfinished
  | fuel + 1, s =>
    match skipLines s.length s with
    | 93 :: r => .ok ([], r)
    | s => do
      let (first, s) ← value fuel s
      match skipLines s.length s with
      | 44 :: r =>
        let (more, rest) ← arrayItems fuel r
        return (first :: more, rest)
      | 93 :: r => return ([first], r)
      | _ => throw .unexpected

def inlineEntries :
    (fuel : Nat) → Entries → List Path → Bytes → Except Error ((Entries × List Path) × Bytes)
  | 0, _, _, _ => .error .unfinished
  | fuel + 1, entries, paths, s =>
    match skipLines s.length s with
    | 125 :: r => .ok ((entries, paths), r)
    | s => do
      let (key, s) ← path (s.length + 1) s
      match s with
      | 61 :: r =>
        let (found, s) ← value fuel (skipBlanks r)
        let entries ← entries.assign [] key found.node
        let paths := paths ++ key :: found.paths.map (key ++ ·)
        match skipLines s.length s with
        | 44 :: r => inlineEntries fuel entries paths r
        | 125 :: r => return ((entries, paths), r)
        | _ => throw .unexpected
      | _ => throw .unexpected

end

/-- A document: its tables, and the paths of all that was defined, in order. -/
structure Document where
  entries : Entries
  paths : List Path

/-- Passes over the rest of a line, which may hold a comment only. -/
def endLine (s : Bytes) : Except Error Bytes :=
  match skipBlanks s with
  | [] => .ok []
  | b :: r =>
    if b = 35 then .ok (r.dropWhile (· ≠ newline))
    else if isBreakByte b then .ok r
    else .error .unexpected

/-- A line that opens a table, after its brackets. -/
def header (closing : Bytes) (s : Bytes) : Except Error (Path × Bytes) := do
  let (p, s) ← path (s.length + 1) s
  match s.stripPrefix? closing with
  | some rest => return (p, ← endLine rest)
  | none => throw .unexpected

/-- Reads one line after another; keys belong to the table at `place`. -/
def lines : (fuel : Nat) → (place : Path) → Document → Bytes → Except Error Document
  | 0, _, _, _ => .error .unfinished
  | fuel + 1, place, d, s =>
    match skipLines s.length s with
    | [] => .ok d
    | 91 :: 91 :: r => do
      let (p, rest) ← header "]]" r
      lines fuel p ⟨← d.entries.extendTables p, d.paths ++ [p]⟩ rest
    | 91 :: r => do
      let (p, rest) ← header "]" r
      lines fuel p ⟨← d.entries.openTable p, d.paths ++ [p]⟩ rest
    | s => do
      let (key, s) ← path (s.length + 1) s
      match s with
      | 61 :: r =>
        let r := skipBlanks r
        let (found, rest) ← value r.length r
        let full := place ++ key
        let d : Document :=
          ⟨← d.entries.assign place key found.node,
            d.paths ++ full :: found.paths.map (full ++ ·)⟩
        lines fuel place d (← endLine rest)
      | _ => throw .unexpected

/-- Whether a control character stands somewhere, or a carriage return without a line feed. -/
def hasControl : Bytes → Bool
  | [] => false
  | 13 :: 10 :: r => hasControl r
  | b :: r => (b < 32 && b ≠ 9 && b ≠ 10) || b = 127 || hasControl r

/-- Passes over a mark at the start of a document that tells its encoding. -/
def dropMark (s : Bytes) : Bytes :=
  match s with
  | 0xFF :: 0xFE :: r | 0xFE :: 0xFF :: r | 0xEF :: 0xBB :: 0xBF :: r => r
  | s => s

def parse (source : Bytes) : Except Error Document :=
  let s := dropMark source
  if hasControl s || (Utf8.toString? s).isNone then .error .badCharacter
  else lines (s.length + 1) [] ⟨[], []⟩ s

/-- How control characters are written in a name between quotes. -/
def escapeInName (b : UInt8) : Bytes :=
  if b = quote || b = backslash then [backslash, b]
  else if b = 8 then "\\b"
  else if b = 9 then "\\t"
  else if b = 10 then "\\n"
  else if b = 12 then "\\f"
  else if b = 13 then "\\r"
  else if b < 32 || b = 127 then "\\u00" ++ Hex.encode [b]
  else [b]

/-- A name as it is written: between quotes unless it is bare. -/
def renderName (s : Bytes) : Bytes :=
  if !s.isEmpty && s.all isBare then s else [quote] ++ s.flatMap escapeInName ++ [quote]

def Path.render (p : Path) : Bytes := Bytes.join "." (p.map renderName)

end Toml
end Locksmith
