import Locksmith.Conformance.Suite
import Locksmith.Files.System
import Locksmith.Text.Quoted

namespace Locksmith
namespace Conformance

structure LoadedTest where
  /-- The file of the suite, as seen from the folder. -/
  file : Bytes
  worldPath : Bytes
  suite : Bytes
  test : TestCase
deriving DecidableEq, Repr

inductive LoadError where
  | noFolder (e : FileError)
  | unwalkable (e : FileError)
  | unreadable (path : Bytes) (e : FileError)
  | malformed (path : Bytes) (e : Yaml.Error)
  | noWorld (path suite : Bytes)
deriving DecidableEq, Repr

def LoadError.message : LoadError → Bytes
  | noFolder e => "could not find conformance test directory: " ++ e.message
  | unwalkable e => e.message
  | unreadable path e => path ++ ": " ++ e.message
  | malformed path e => path ++ ": " ++ e.message
  | noWorld path suite => path ++ ": suite " ++ Quoted.text suite ++ " names no world"

/-- How deep folders may lie in each other. -/
def maxFolderDepth : Nat := 4096

section
variable {m : Type → Type} [Monad m] (fs : FileSystem m)

/-- A file as seen from the folder, and its path. -/
abbrev Place := Bytes × Bytes

def Place.inside (p : Place) (name : Bytes) : Place :=
  (Path.below p.1 name, Path.below p.2 name)

/-- The files below a place in order, with what cannot be looked at. -/
def filesBelow : (depth : Nat) → Place → m (List (Except FileError Place))
  | 0, p => pure [.ok p]
  | depth + 1, p => do
    match ← fs.isFolder p.2 with
    | .error e => return [.error e]
    | .ok false => return [.ok p]
    | .ok true =>
      match ← fs.names p.2 with
      | .error e => return [.error e]
      | .ok names => return (← names.mapM fun name => filesBelow depth (p.inside name)).flatten

def testsOf (p : Place) (source : Bytes) : Except LoadError (List LoadedTest) := do
  let s ← (Suite.parse source).mapError (.malformed p.2)
  if s.world.isEmpty then throw (.noWorld p.2 s.name)
  return s.tests.map fun t => ⟨p.1, Path.below (Path.folder p.2) s.world, s.name, t⟩

/-- The tests of some files, up to the first that cannot be read. -/
def loadFiles : List (Except FileError Place) → m (Except LoadError (List LoadedTest))
  | [] => pure (.ok [])
  | .error e :: _ => pure (.error (.unwalkable e))
  | .ok p :: rest => do
    if Path.suffix p.2 ≠ ".yaml" then loadFiles rest
    else
      match ← fs.read p.2 with
      | .error e => return .error (.unreadable p.2 e)
      | .ok source =>
        match testsOf p source with
        | .error e => return .error e
        | .ok tests => return (← loadFiles rest).map (tests ++ ·)

/-- The tests of all suites below a folder. -/
def loadFolder (folder : Bytes) : m (Except LoadError (List LoadedTest)) := do
  let folder := Path.clean folder
  match ← fs.isFolder folder with
  | .error e => return .error (.noFolder e)
  | .ok _ => loadFiles fs (← filesBelow fs maxFolderDepth (".", folder))

end
end Conformance
end Locksmith
