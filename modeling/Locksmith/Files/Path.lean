import Locksmith.Text.Bytes

namespace Locksmith
namespace Path

def slash : UInt8 := 47

/-- The names of a path, with empty ones. -/
def split : Bytes → List Bytes
  | [] => [[]]
  | b :: r =>
    if b = slash then [] :: split r
    else
      match split r with
      | [] => [[b]]
      | name :: rest => (b :: name) :: rest

def step (parts : List Bytes) (name : Bytes) : List Bytes :=
  if name = [] ∨ name = Bytes.ofString "." then parts
  else if name = Bytes.ofString ".." then
    match parts.getLast? with
    | none => [name]
    | some last => if last = Bytes.ofString ".." then parts ++ [name] else parts.dropLast
  else parts ++ [name]

/-- The names that lead from the starting folder to a place. -/
def parts (path : Bytes) : List Bytes := (split path).foldl step []

def isRooted (path : Bytes) : Bool := path.head? == some slash

def ofParts (rooted : Bool) (parts : List Bytes) : Bytes :=
  let body := Bytes.join [slash] parts
  if rooted then slash :: body else if body.isEmpty then "." else body

/-- The shortest path to the same place. -/
def clean (path : Bytes) : Bytes :=
  let rooted := isRooted path
  let p := parts path
  ofParts rooted (if rooted then p.dropWhile (· = Bytes.ofString "..") else p)

def folder (path : Bytes) : Bytes :=
  let head := (path.reverse.dropWhile (· ≠ slash)).reverse
  clean head

def below (folder path : Bytes) : Bytes :=
  if folder.isEmpty && path.isEmpty then []
  else if folder.isEmpty then clean path
  else if path.isEmpty then clean folder
  else clean (folder ++ [slash] ++ path)

/-- The end of a name from its last point on. -/
def suffix (path : Bytes) : Bytes :=
  let name := (path.reverse.takeWhile (· ≠ slash)).reverse
  let tail := (name.reverse.takeWhile (· ≠ 46)).reverse
  if tail.length = name.length then [] else 46 :: tail

end Path
end Locksmith
