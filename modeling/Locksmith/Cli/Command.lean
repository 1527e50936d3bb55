import Locksmith.Chunk.Table
import Locksmith.Cli.Flags
import Locksmith.Config.File
import Locksmith.Database.Load

namespace Locksmith
namespace Cli

open Database

inductive Error where
  | flags (e : FlagError)
  | noCommand
  | config (p : Config.FileProblem)
  | noWorld
  | opening (e : Chunk.Table.Error)
  | loading (e : LoadError)
  | noObject (f : Flag) (name : Bytes)
  | ambiguous (f : Flag) (name : Bytes)
  | unknownCommand (name : Bytes)
  | unknownMode (name : Bytes)
  | noLock
  | compiling (lock : Bytes) (e : CompileError)
  | database (e : Database.Error)
  | hidden (subject : Dbref) (lock : Bytes) (target : Dbref)
  | noSnapshotPath
  | key (e : Sealing.KeyError)
  | creating (e : FileError)
  | taking (e : Database.Error)
  | writing (e : FileError)
  | closing (e : FileError)
deriving Repr

def Error.message : Error → Bytes
  | flags e => e.message
  | noCommand => "no command given"
  | config p => p.message
  | noWorld => "--world is required"
  | opening e => "opening chunk store: " ++ e.message
  | loading e => e.message
  | noObject f name => "--" ++ f.name ++ ": no object matches " ++ Quoted.text name
  | ambiguous f name => "--" ++ f.name ++ ": " ++ Quoted.text name ++ " is ambiguous"
  | unknownCommand name => "unknown command " ++ Quoted.text name
  | unknownMode name => "unknown --mode " ++ Quoted.text name
  | noLock => "no lock text given"
  | compiling lock e => e.message lock
  | database e => e.message
  | hidden subject lock target =>
    subject.render ++ " may not see the " ++ lock ++ " lock on " ++ target.render
  | noSnapshotPath => "--snapshot is required"
  | key e => e.message
  | creating e => e.message
  | taking e => "writing snapshot: " ++ e.message
  | writing e => "writing snapshot: writing snapshot: " ++ e.message
  | closing e => "writing snapshot: " ++ e.message

inductive Command where
  | compile
  | disassemble
  | decompile
  | eval
  | lint
  | classify
  | snapshot
deriving DecidableEq, Repr

def Command.ofName? (s : Bytes) : Option Command :=
  [(("compile" : Bytes), compile), ("disasm", disassemble), ("decompile", decompile),
    ("eval", eval), ("lint", lint), ("classify", classify), ("snapshot", snapshot)].lookup s

structure Request where
  options : Options
  /-- The text of a lock; blank if none is given. -/
  source : Bytes
  subject : Dbref
  target : Dbref

namespace Request

def mode (r : Request) : Except Error DisplayMode :=
  let m := r.options.mode
  if m = "names" then .ok .names
  else if m = "dbrefs" then .ok .dbrefs
  else if m = "me" then .ok .dbrefsOrMe
  else .error (.unknownMode m)

/-- Whether the text of a lock is given. -/
def hasSource (r : Request) : Bool := !r.source.trimBlanks.isEmpty

def givenCode (r : Request) (s : Store) : Except Error LockCode :=
  if r.hasSource then
    (s.compiler.compile r.source r.subject r.options.lockName).mapError
    (.compiling r.options.lockName)
  else .error .noLock

/-- The lock that is given, or else the stored one. -/
def code (r : Request) (s : Store) : Except Error LockCode :=
  if r.hasSource then r.givenCode s
  else (s.findLock r.target r.options.lockName).code.mapError .database

def line (s : Bytes) : Bytes := s ++ [10]

def compile (r : Request) (s : Store) : Except Error Bytes := do
  let code ← r.givenCode s
  let mode ← r.mode
  return line (code.decompile r.subject mode (some s.name)) ++
    line (Decimal.ofNat code.size ++ " bytes, " ++ code.classify.name)

def decompile (r : Request) (s : Store) : Except Error Bytes := do
  let mode ← r.mode
  match ← (s.showLock r.subject r.target r.options.lockName mode).mapError .database with
  | some text => return line text
  | none => throw (.hidden r.subject r.options.lockName r.target)

/-- Checks a lock, which is set first if it is given. -/
def eval (r : Request) : Db Error Bytes := do
  let name := r.options.lockName
  if r.hasSource then
    let code ← Db.ofExcept (r.givenCode (← Db.store))
    (Db.setLock r.target name code r.subject ⟨0⟩).adapt .database
  let passed ← Db.look (·.checkLock r.subject r.target name)
  return line (r.subject.render ++ " " ++ r.target.render ++ "/" ++ name ++ ": " ++
    if passed then "pass" else "fail")

def lint (r : Request) : Db Error Bytes := do
  let code ← Db.ofExcept (r.code (← Db.store))
  let warnings ← Db.look fun s =>
    Lint.check s.world code (s.owner r.target) r.target r.options.lockName
  return if warnings.isEmpty then line "no warnings"
    else (warnings.map fun w => line w.message).flatten

/-- Carries out a command; gives what it prints. A snapshot is left to others. -/
def perform (r : Request) (c : Command) : Db Error Bytes := do
  let s ← Db.store
  match c with
  | .compile => Db.ofExcept (r.compile s)
  | .disassemble => Db.ofExcept ((r.givenCode s).map (·.disassemble))
  | .decompile => Db.ofExcept (r.decompile s)
  | .eval => r.eval
  | .lint => r.lint
  | .classify => Db.ofExcept ((r.code s).map fun code => line code.classify.name)
  | .snapshot => return []

end Request

/-- The object that a flag names, as the first player sees it. -/
def namedObject (s : Store) (f : Flag) (name : Bytes) : Except Error Dbref :=
  let d := s.matchObject ⟨1⟩ name
  if d = .ambiguous then .error (.ambiguous f name)
  else if d = .nothing || d = .failedMatch then .error (.noObject f name)
  else .ok d

/-- Loads the world, finds the objects and carries out the command. -/
def work (o : Options) (world : Except FileError Bytes) (name source : Bytes) :
    Db Error (Command × Bytes) := do
  (Db.loadContent o.worldPath world).adapt .loading
  let s ← Db.store
  let subject ← Db.ofExcept (namedObject s .subject o.subject)
  let target ← Db.ofExcept (namedObject s .target o.target)
  match Command.ofName? name with
  | none => throw (.unknownCommand name)
  | some c => return (c, ← Request.perform ⟨o, source, subject, target⟩ c)

end Cli
end Locksmith
