import Locksmith.Cli.Run

namespace Locksmith

/-- The string of a text; a text that is none is not the name of a file. -/
def stringOf (s : Bytes) : String := (String.fromUTF8? ⟨s.toArray⟩).getD ""

def causeOf : IO.Error → FileError.Cause
  | .noFileOrDirectory .. => .notFound
  | .noSuchThing .. => .notFound
  | .alreadyExists .. => .alreadyThere
  | .inappropriateType .. => .notFolder
  | .unsatisfiedConstraints .. => .notEmpty
  | e => .other e.toString

def attempt {α : Type} (action : FileAction) (path : Bytes) (x : IO α) :
    IO (Except FileError α) := do
  match ← x.toBaseIO with
  | .ok a => return .ok a
  | .error e => return .error ⟨action, path, causeOf e⟩

def machineFiles : FileAccess IO where
  read path := attempt .open path do return (← IO.FS.readBinFile (stringOf path)).data.toList
  create path := attempt .open path (IO.FS.writeBinFile (stringOf path) .empty)
  append path content := attempt .write path do
    (← IO.FS.Handle.mk (stringOf path) .append).write ⟨content.toArray⟩
  close _ := return .ok ()

def Cli.Output.print : Cli.Output → IO Unit
  | .result s => do (← IO.getStdout).write ⟨s.toArray⟩
  | .report s => do (← IO.getStderr).write ⟨s.toArray⟩

end Locksmith

open Locksmith in
def main (args : List String) : IO UInt32 := do
  let nonce := (← IO.getRandomBytes 24).data.toList
  let outcome ← Cli.run machineFiles nonce (args.map Bytes.ofString)
  for o in outcome.outputs do
    o.print
  match outcome.error with
  | none | some (.flags .helpWanted) => return 0
  | some e =>
    (Cli.Output.report ("lockc: " ++ e.message ++ "\n")).print
    return 1
