import Locksmith.Database.Lookup
import Locksmith.Text.Quoted

namespace Locksmith
namespace Cli

structure Options where
  configPath : Bytes
  worldPath : Bytes
  subject : Bytes
  target : Bytes
  lockName : Bytes
  mode : Bytes
  trace : Bool
  snapshot : Bytes
deriving DecidableEq, Repr

def Options.standard : Options where
  configPath := []
  worldPath := []
  subject := "#1"
  target := "#0"
  lockName := Database.defaultLock
  mode := "names"
  trace := false
  snapshot := []

inductive Flag where
  | config
  | lock
  | mode
  | snapshot
  | subject
  | target
  | trace
  | world
deriving DecidableEq, Repr

namespace Flag

/-- All flags in the order of their names. -/
def all : List Flag := [config, lock, mode, snapshot, subject, target, trace, world]

def name : Flag → Bytes
  | config => "config"
  | lock => "lock"
  | mode => "mode"
  | snapshot => "snapshot"
  | subject => "subject"
  | target => "target"
  | trace => "trace"
  | world => "world"

def letter? : Flag → Option UInt8
  | config => some 99
  | lock => some 108
  | mode => some 109
  | snapshot => none
  | subject => some 115
  | target => some 116
  | trace => none
  | world => some 119

def purpose : Flag → Bytes
  | config => "TOML config file"
  | lock => "lock name"
  | mode => "decompile mode: names, dbrefs or me"
  | snapshot => "snapshot output file"
  | subject => "object compiling or being checked"
  | target => "object the lock is on"
  | trace => "trace lock evaluation to stderr"
  | world => "YAML world file"

def isSwitch (f : Flag) : Bool := f = trace

/-- The value of a flag that takes a text. -/
def value (o : Options) : Flag → Bytes
  | config => o.configPath
  | lock => o.lockName
  | mode => o.mode
  | snapshot => o.snapshot
  | subject => o.subject
  | target => o.target
  | trace => []
  | world => o.worldPath

def synopsis (f : Flag) : Bytes :=
  (match f.letter? with
    | some c => "  -" ++ c :: ", --"
    | none => "      --") ++ f.name ++ if f.isSwitch then [] else " string"

def remark (f : Flag) : Bytes :=
  let v := f.value .standard
  if v.isEmpty then f.purpose else f.purpose ++ " (default " ++ Quoted.text v ++ ")"

def summary : Bytes :=
  let width := (all.map (·.synopsis.length)).foldl max 0
  all.flatMap fun f =>
    f.synopsis ++ List.replicate (width - f.synopsis.length + 3) 32 ++ f.remark ++
      Bytes.ofString "\n"

end Flag

def usage : Bytes :=
  "usage: lockc [flags] <command> [lock]\n\ncommands:\n" ++
  "  compile    compile a lock and print its decompiled form\n" ++
  "  disasm     compile a lock and print its bytecode\n" ++
  "  decompile  print the stored lock on --target as --subject sees it\n" ++
  "  eval       check --subject against a lock (the stored one by default)\n" ++
  "  lint       print warnings for a lock (the stored one by default)\n" ++
  "  classify   print whether a lock is unlocked, locked or conditional\n" ++
  "  snapshot   write every lock in the world to --snapshot\n\nflags:\n" ++ Flag.summary

inductive FlagError where
  | helpWanted
  | badForm (argument : Bytes)
  | unknownName (name : Bytes)
  | unknownLetter (letter : UInt8) (letters : Bytes)
  | noValue (f : Flag)
  | noLetterValue (letter : UInt8) (letters : Bytes)
  | badSwitch (f : Flag) (value : Bytes)
deriving DecidableEq, Repr

/-- The character that a letter is shown as: the first byte of its encoding. -/
def shownLetter (b : UInt8) : Char :=
  Char.ofNat (if b < 0x80 then b.toNat else if b < 0xC0 then 0xC2 else 0xC3)

def FlagError.message : FlagError → Bytes
  | helpWanted => "pflag: help requested"
  | badForm a => "bad flag syntax: " ++ a
  | unknownName n => "unknown flag: --" ++ n
  | unknownLetter b l =>
    "unknown shorthand flag: " ++ Quoted.char (shownLetter b) ++ " in -" ++ l
  | noValue f => "flag needs an argument: --" ++ f.name
  | noLetterValue b l =>
    "flag needs an argument: " ++ Quoted.char (shownLetter b) ++ " in -" ++ l
  | badSwitch f v =>
    "invalid argument " ++ Quoted.text v ++ " for " ++ Quoted.text ("--" ++ f.name) ++
      " flag: strconv.ParseBool: parsing " ++ Quoted.text v ++ ": invalid syntax"

def switch? (s : Bytes) : Option Bool :=
  if [("1" : Bytes), "t", "T", "true", "TRUE", "True"].contains s then some true
  else if [("0" : Bytes), "f", "F", "false", "FALSE", "False"].contains s then some false
  else none

def Options.set (o : Options) (f : Flag) (v : Bytes) : Except FlagError Options :=
  match f with
  | .config => .ok { o with configPath := v }
  | .lock => .ok { o with lockName := v }
  | .mode => .ok { o with mode := v }
  | .snapshot => .ok { o with snapshot := v }
  | .subject => .ok { o with subject := v }
  | .target => .ok { o with target := v }
  | .world => .ok { o with worldPath := v }
  | .trace =>
    match switch? v with
    | some b => .ok { o with trace := b }
    | none => .error (.badSwitch f v)

inductive Argument where
  | plain
  | terminator
  /-- A flag, with its value if that is written to it. -/
  | flag (f : Flag) (value : Option Bytes) (missing : FlagError)
  | ignored
deriving DecidableEq, Repr

def longFlag (argument name : Bytes) : Except FlagError Argument :=
  let head := name.takeWhile (· ≠ 61)
  let tail := name.drop head.length
  if name.head? = some 45 || name.head? = some 61 then .error (.badForm argument)
  else
    match Flag.all.find? (·.name = head) with
    | none => .error (if head = "help" then .helpWanted else .unknownName head)
    | some f =>
      let value :=
        if !tail.isEmpty then some (tail.drop 1) else if f.isSwitch then some "true" else none
      .ok (.flag f value (.noValue f))

def letterFlag (letter : UInt8) (more : Bytes) : Except FlagError Argument :=
  let letters : Bytes := letter :: more
  if letters.startsWith "test." then .ok .ignored
  else
    match Flag.all.find? (fun f => f.letter? = some letter) with
    | none => .error (if letter = 104 then .helpWanted else .unknownLetter letter letters)
    | some f =>
      let value :=
        if more.isEmpty then none
        else if 2 ≤ more.length && more.head? = some 61 then some (more.drop 1)
        else some more
      .ok (.flag f value (.noLetterValue letter letters))

def Argument.of (a : Bytes) : Except FlagError Argument :=
  match a with
  | [45, 45] => .ok .terminator
  | 45 :: 45 :: name => longFlag a name
  | 45 :: letter :: more => letterFlag letter more
  | _ => .ok .plain

/-- Reads the arguments; gives what the flags say and what is no flag. -/
def Options.read (o : Options) (plain : List Bytes) :
    List Bytes → Except FlagError (Options × List Bytes)
  | [] => .ok (o, plain)
  | a :: rest => do
    match ← Argument.of a with
    | .plain => o.read (plain ++ [a]) rest
    | .ignored => o.read plain rest
    | .terminator => return (o, plain ++ rest)
    | .flag f (some v) _ => (← o.set f v).read plain rest
    | .flag f none missing =>
      match rest with
      | [] => throw missing
      | v :: rest => (← o.set f v).read plain rest

end Cli
end Locksmith
