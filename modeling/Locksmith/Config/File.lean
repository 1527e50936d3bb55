import Locksmith.Config.Basic
import Locksmith.Toml.Reader

namespace Locksmith
namespace Config

/-- Why there is no configuration in a file. -/
inductive FileProblem where
  | unreadable (path : Bytes) (e : FileError)
  | malformed (e : Toml.Error)
  | unknownKeys (l : List Toml.Path)
  | invalid (e : Error)
  | inFile (path : Bytes) (p : FileProblem)
deriving Repr

def FileProblem.message : FileProblem → Bytes
  | unreadable path e => "cannot read " ++ path ++ ": " ++ e.message
  | malformed e => "parse error: toml: " ++ e.message
  | unknownKeys l => "unknown keys: " ++ Bytes.join ", " (l.map Toml.Path.render)
  | invalid e => e.message
  | inFile path p => path ++ ": " ++ p.message

def asText : Toml.Node → Except Toml.Error Bytes
  | .text s => .ok s
  | _ => .error .mismatch

def asInteger : Toml.Node → Except Toml.Error Int64
  | .integer n => .ok n
  | _ => .error .mismatch

def asBool : Toml.Node → Except Toml.Error Bool
  | .bool b => .ok b
  | _ => .error .mismatch

def asTexts : Toml.Node → Except Toml.Error (List Bytes)
  | .array l => l.mapM asText
  | _ => .error .mismatch

/-- A length of time, as a text or as a number that needs no unit. -/
def asDuration (n : Toml.Node) : Except Toml.Error Duration :=
  let text? := match n with
    | .text s => some s
    | .integer i => some (Decimal.ofInt i.toInt)
    | _ => none
  match text?.bind Duration.parse? with
  | some d => .ok d
  | none => .error .mismatch

/-- How a value is laid over a configuration. -/
abbrev Setter := Config → Toml.Node → Except Toml.Error Config

def keys : List (Bytes × List (Bytes × Setter)) := [
  ("vm", [("max_depth", fun c n => return { c with maxDepth := ← asInteger n })]),
  ("chunk", [
    ("backend", fun c n => return { c with backend := ← asText n }),
    ("path", fun c n => return { c with chunkPath := ← asText n }),
    ("pool_size", fun c n => return { c with poolSize := ← asInteger n }),
    ("compression", fun c n => return { c with compression := ← asText n }),
    ("seal_key_file", fun c n => return { c with sealKeyFile := ← asText n })]),
  ("checkpoint", [
    ("path", fun c n => return { c with checkpointPath := ← asText n }),
    ("interval", fun c n => return { c with checkpointInterval := ← asDuration n })]),
  ("log", [
    ("level", fun c n => return { c with logLevel := ← asText n }),
    ("format", fun c n => return { c with logFormat := ← asText n })]),
  ("trace", [
    ("enabled", fun c n => return { c with tracing := ← asBool n }),
    ("filters", fun c n => return { c with traceFilters := ← asTexts n })])]

/-- What a name stands for, without regard to case. -/
def lookup? {α : Type} (l : List (Bytes × α)) (name : Bytes) : Option α :=
  (l.find? fun e => e.1.equalsFold name).map (·.2)

/-- A configuration with the paths that were used for it. -/
structure Laid where
  config : Config
  used : List Toml.Path

/-- Lays a section over a configuration. -/
def laySection (part : Bytes) (setters : List (Bytes × Setter)) :
    Laid → Toml.Entries → Except Toml.Error Laid
  | acc, [] => .ok acc
  | acc, (name, n) :: rest => do
    match lookup? setters name with
    | none => laySection part setters acc rest
    | some set => laySection part setters ⟨← set acc.config n, [part, name] :: acc.used⟩ rest

/-- Lays a document over a configuration. -/
def lay : Laid → Toml.Entries → Except Toml.Error Laid
  | acc, [] => .ok acc
  | acc, (name, n) :: rest => do
    match lookup? keys name, n with
    | none, _ => lay acc rest
    | some setters, .table _ entries =>
      lay (← laySection name setters ⟨acc.config, [name] :: acc.used⟩ entries) rest
    | some _, _ => throw .mismatch

/-- The configuration that a text describes. -/
def parse (source : Bytes) : Except FileProblem Config := do
  let d ← (Toml.parse source).mapError .malformed
  let laid ← (lay ⟨standard, []⟩ d.entries).mapError .malformed
  let unknown := d.paths.filter (!laid.used.contains ·)
  if !unknown.isEmpty then throw (.unknownKeys unknown)
  laid.config.validate.mapError .invalid
  return laid.config

/-- The configuration in a file, given what reading it gave. -/
def ofContent (path : Bytes) (content : Except FileError Bytes) : Except FileProblem Config :=
  match content with
  | .error e => .error (.unreadable path e)
  | .ok source => (parse source).mapError (.inFile path)

end Config
end Locksmith
