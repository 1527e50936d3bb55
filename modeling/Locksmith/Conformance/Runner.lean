import Locksmith.Conformance.Folder
import Locksmith.Database.Load

namespace Locksmith
namespace Conformance

open Database

inductive Failure where
  | loading (e : Database.LoadError)
  | compiled (want lock : Bytes)
  | otherError (want got : Bytes)
  | notCompiled (lock : Bytes) (e : CompileError)
  | text (got want : Bytes)
  | lockClass (got want : Bytes)
  | setting (e : Database.Error)
  | linting (e : Database.Error)
  | warnings (got : List Warning) (want : Int64)
  | subjectFails (d : Dbref)
  | subjectPasses (d : Dbref)
  | notes (got want : List Bytes)

def quotedList (l : List Bytes) : Bytes := "[" ++ Bytes.join " " (l.map Quoted.text) ++ "]"

def Failure.message : Failure → Bytes
  | loading e => "loading world: " ++ e.message
  | compiled want lock =>
    "expected compile error " ++ Quoted.text want ++ ", compiled to " ++ lock
  | otherError want got =>
    "expected compile error " ++ Quoted.text want ++ ", got " ++ Quoted.text got
  | notCompiled lock e => "unexpected compile error: " ++ e.message lock
  | text got want => "decompiled to " ++ Quoted.text got ++ ", want " ++ Quoted.text want
  | lockClass got want => "classified as " ++ got ++ ", want " ++ want
  | setting e => "setting lock: " ++ e.message
  | linting e => e.message
  | warnings got want =>
    "got " ++ Decimal.ofNat got.length ++ " warnings [" ++
      Bytes.join " " (got.map (·.message)) ++ "], want " ++
      Decimal.ofInt want.toInt
  | subjectFails d => d.render ++ " fails, want pass"
  | subjectPasses d => d.render ++ " passes, want fail"
  | notes got want => "notifications " ++ quotedList got ++ ", want " ++ quotedList want

def TestCase.compile (t : TestCase) (s : Store) : Except CompileError LockCode :=
  if t.stored then s.compiler.compileLoad t.source (lockName t.lock)
  else s.compiler.compile t.source t.player (lockName t.lock)

def TestCase.checkCode (t : TestCase) (code : LockCode) : Except Failure Unit := do
  let text := code.decompile t.player .dbrefs none
  if !t.expect.decompile.isEmpty && text ≠
    t.expect.decompile then throw (.text text t.expect.decompile)
  let name := code.classify.name
  if !t.expect.lockClass.isEmpty && name ≠
    t.expect.lockClass then throw (.lockClass name t.expect.lockClass)

def notesIn (journal : List Event) : List Bytes :=
  journal.filterMap fun
    | .note d message => some (d.render ++ " " ++ message)
    | _ => none

/-- Sets the lock and compares how it behaves. -/
def TestCase.checkLock (t : TestCase) (code : LockCode) : Db Failure Unit := do
  let name := lockName t.lock
  (Db.setLock t.target name code t.player ⟨0⟩).adapt .setting
  match t.expect.warnings with
  | none => pure ()
  | some want =>
    let got ← (Db.lintLock t.target name).adapt .linting
    if (got.length : Int) ≠ want.toInt then throw (.warnings got want)
  for d in t.expect.pass do
    if !(← Db.look (·.checkLock d t.target name)) then throw (.subjectFails d)
  for d in t.expect.fail do
    if ← Db.look (·.checkLock d t.target name) then throw (.subjectPasses d)
  let got := notesIn (← get).journal
  match t.expect.notes with
  | none => pure ()
  | some want => if got ≠ want then throw (.notes got want)

/-- Runs a test in a database that holds its world. -/
def TestCase.perform (t : TestCase) : Db Failure Unit := do
  let want := t.expect.error
  match t.compile (← Db.store) with
  | .error e =>
    let got := e.message (lockName t.lock)
    if want.isEmpty then throw (.notCompiled (lockName t.lock) e)
    else if !got.holds want then throw (.otherError want got)
  | .ok code =>
    if !want.isEmpty then throw (.compiled want (code.decompile t.player .dbrefs none))
    match t.checkCode code with
    | .error e => throw e
    | .ok () => t.checkLock code

/-- A database without objects, whose messages are taken. -/
def emptySession : Session :=
  ⟨.empty { Settings.standard with listening := true } (.empty .memory Compression.none), []⟩

/-- Runs a test, given what reading its world gave. -/
def LoadedTest.run (t : LoadedTest) (world : Except FileError Bytes) : Except Failure Unit :=
  (show Db Failure Unit from do
    (Db.loadContent t.worldPath world).adapt .loading
    t.test.perform).run emptySession |>.1

inductive Outcome where
  | passed
  | skipped (reason : Bytes)
  | failed (f : Failure)

/-- What came of a test, in a file system. -/
def LoadedTest.outcome {m : Type → Type} [Monad m] (fs : FileSystem m) (t : LoadedTest) :
    m Outcome := do
  match t.test.skip with
  | some reason => return .skipped reason
  | none =>
    match t.run (← fs.read t.worldPath) with
    | .ok () => return .passed
    | .error f => return .failed f

/-- How many tests passed, failed and were left out. -/
def summary (l : List Outcome) : Bytes :=
  let passed := l.countP fun | .passed => true | _ => false
  let skipped := l.countP fun | .skipped _ => true | _ => false
  Decimal.ofNat passed ++ " passed, " ++
    Decimal.ofNat (l.length - passed - skipped) ++ " failed, " ++
    Decimal.ofNat skipped ++ " skipped (" ++ Decimal.ofNat l.length ++ " total)"

end Conformance
end Locksmith
