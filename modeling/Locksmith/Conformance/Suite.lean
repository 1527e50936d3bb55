import Locksmith.Dbref
import Locksmith.Yaml.Decode

namespace Locksmith
namespace Conformance

/-- What a lock must do. What is empty or absent is not checked. -/
structure Expectation where
  /-- A part of the wording of the error that compiling must give. -/
  error : Bytes
  pass : List Dbref
  fail : List Dbref
  /-- The text of the lock, with objects as numbers. -/
  decompile : Bytes
  /-- The name of its class. -/
  lockClass : Bytes
  warnings : Option Int64
  /-- The messages sent while the lock is checked. -/
  notes : Option (List Bytes)
deriving DecidableEq, Repr

def Expectation.none : Expectation := ⟨[], [], [], [], [], .none, .none⟩

structure TestCase where
  name : Bytes
  /-- Why the test is left out, if it is. -/
  skip : Option Bytes
  source : Bytes
  /-- The name of the lock; empty is the default one. -/
  lock : Bytes
  /-- For whom the lock is compiled. -/
  player : Dbref
  /-- Whether the lock is compiled as a stored one. -/
  stored : Bool
  target : Dbref
  expect : Expectation
deriving DecidableEq, Repr

def TestCase.empty : TestCase := ⟨[], none, [], [], ⟨0⟩, false, ⟨0⟩, .none⟩

structure Suite where
  name : Bytes
  /-- The world file, as seen from the folder of the suite. -/
  world : Bytes
  tests : List TestCase
deriving DecidableEq, Repr

namespace Suite

open Yaml

def number : Decoder Dbref := fun n => return (← n.asInt64).map Dbref.mk

/-- Why a test is left out: it says so, or gives a reason. -/
def skipReason : Decoder (Option Bytes) := fun n =>
  match n with
  | .scalar plain s =>
    .ok (some (match Meaning.ofScalar plain s with
      | .bool true => some "skipped"
      | .text t => some t
      | _ => none))
  | _ => .ok (some none)

def expectation : Decoder Expectation := record fun f => do
  let error ← f.getD "error" Node.asText []
  let pass ← f.getD "pass" (Node.asList number) []
  let fail ← f.getD "fail" (Node.asList number) []
  let decompile ← f.getD "decompile" Node.asText []
  let lockClass ← f.getD "class" Node.asText []
  let warnings ← f.get? "warnings" Node.asInt64
  let notes ← f.get? "notify" (Node.asList Node.asText)
  return { error, pass, fail, decompile, lockClass, warnings, notes }

def testCase : Decoder TestCase := record fun f => do
  let name ← f.getD "name" Node.asText []
  let _ ← f.getD "description" Node.asText []
  let skip ← f.getD "skip" skipReason none
  let source ← f.getD "lock" Node.asText []
  let lock ← f.getD "lock_name" Node.asText []
  let player ← f.getD "as" number ⟨0⟩
  let stored ← f.getD "load" Node.asBool false
  let target ← f.getD "target" number ⟨0⟩
  let expect ← f.getD "expect" expectation .none
  return { name, skip, source, lock, player, stored, target, expect }

def suite : Decoder Suite := record fun f => do
  let name ← f.getD "name" Node.asText []
  let _ ← f.getD "description" Node.asText []
  let world ← f.getD "world" Node.asText []
  let tests ← f.getD "tests" (Node.asList testCase) []
  return { name, world, tests }

def parse (source : Bytes) : Except Yaml.Error Suite := do
  let some n ← Yaml.parse source | return ⟨[], [], []⟩
  return (← suite n).getD ⟨[], [], []⟩

end Suite
end Conformance
end Locksmith
