import Locksmith.Data.SortedMap
import Locksmith.Files.System

namespace Locksmith

/-- A file with its content, or a folder. -/
inductive FileNode where
  | file (content : Bytes)
  | folder
deriving DecidableEq, Repr

/-- Files and folders by the names that lead to them. -/
structure FileTree where
  nodes : SortedMap (List Bytes) FileNode

namespace FileTree

def empty : FileTree := ⟨.empty⟩

def node? (t : FileTree) (p : List Bytes) : Option FileNode :=
  if p.isEmpty then some .folder else t.nodes.get? p

/-- The first of some folders that is none. -/
def obstacle (t : FileTree) : List (List Bytes) → Option FileError.Cause
  | [] => none
  | p :: r =>
    match t.node? p with
    | some .folder => t.obstacle r
    | some (.file _) => some .notFolder
    | none => some .notFound

def ancestors (p : List Bytes) : List (List Bytes) := (List.range p.length).map p.take

/-- What stands at a path, or why nothing does. -/
def find (t : FileTree) (path : Bytes) : Except FileError.Cause FileNode :=
  let p := Path.parts path
  if path.isEmpty then .error .notFound
  else
    match t.obstacle (ancestors p) with
    | some c => .error c
    | none =>
      match t.node? p with
      | some n => .ok n
      | none => .error .notFound

def put (t : FileTree) (p : List Bytes) (n : FileNode) : FileTree := ⟨t.nodes.insert p n⟩

def read (t : FileTree) (path : Bytes) : Except FileError Bytes :=
  match t.find path with
  | .ok (.file s) => .ok s
  | .ok .folder => .error ⟨.read, path, .isFolder⟩
  | .error c => .error ⟨.open, path, c⟩

def write (t : FileTree) (path content : Bytes) : Except FileError FileTree :=
  let p := Path.parts path
  if path.isEmpty then .error ⟨.open, path, .notFound⟩
  else
    match t.obstacle (ancestors p), t.node? p with
    | some c, _ => .error ⟨.open, path, c⟩
    | none, some .folder => .error ⟨.open, path, .isFolder⟩
    | none, _ => .ok (t.put p (.file content))

def append (t : FileTree) (path content : Bytes) : Except FileError FileTree :=
  match t.find path with
  | .ok (.file s) => .ok (t.put (Path.parts path) (.file (s ++ content)))
  | .ok .folder => .error ⟨.write, path, .isFolder⟩
  | .error c => .error ⟨.write, path, c⟩

def isBelow (p q : List Bytes) : Bool := p.length < q.length && p.isPrefixOf q

def remove (t : FileTree) (path : Bytes) : Except FileError FileTree :=
  let p := Path.parts path
  match t.find path with
  | .error c => .error ⟨.remove, path, c⟩
  | .ok .folder =>
    if p.isEmpty || t.nodes.keys.any (isBelow p) then .error ⟨.remove, path, .notEmpty⟩
    else .ok ⟨t.nodes.erase p⟩
  | .ok (.file _) => .ok ⟨t.nodes.erase p⟩

/-- Gives a file or folder another name. -/
def rename (t : FileTree) (path target : Bytes) : Except FileError FileTree :=
  let fail (c : FileError.Cause) : Except FileError FileTree := .error ⟨.rename target, path, c⟩
  let p := Path.parts path
  let q := Path.parts target
  match t.find target, t.find path with
  | _, .error c => fail c
  | .ok .folder, _ => fail .alreadyThere
  | .ok (.file _), .ok .folder => fail .notFolder
  | _, .ok n =>
    match t.obstacle (ancestors q) with
    | some c => fail c
    | none =>
      let kept := (t.nodes.filter fun k _ => k ≠ p && !isBelow p k).insert q n
      .ok ⟨(t.nodes.toList.filter fun e => isBelow p e.1).foldl
        (fun m e => m.insert (q ++ e.1.drop p.length) e.2) kept⟩

/-- Makes the folders at some places, unless a file stands there. -/
def addFolders (t : FileTree) : List (List Bytes) → Except FileError FileTree
  | [] => .ok t
  | p :: r =>
    match t.node? p with
    | some .folder => t.addFolders r
    | some (.file _) => .error ⟨.makeFolder, Path.ofParts false p, .notFolder⟩
    | none => (t.put p .folder).addFolders r

/-- Makes a folder and those that it lies in. -/
def makeFolders (t : FileTree) (path : Bytes) : Except FileError FileTree :=
  let p := Path.parts path
  t.addFolders (ancestors p ++ [p])

def names (t : FileTree) (path : Bytes) : Except FileError (List Bytes) :=
  let p := Path.parts path
  match t.find path with
  | .ok .folder =>
    .ok (t.nodes.keys.filterMap fun k => if isBelow p k && k.length =
      p.length + 1 then k.getLast? else none)
  | .ok (.file _) => .error ⟨.read, path, .notFolder⟩
  | .error c => .error ⟨.open, path, c⟩

/-- All paths of the tree in order; those of folders end in a slash. -/
def paths (t : FileTree) : List Bytes :=
  Bytes.sort (t.nodes.toList.map fun (p, n) =>
    Bytes.join [Path.slash] p ++ if n = .folder then [Path.slash] else [])

def change (f : FileTree → Except FileError FileTree) :
    StateM FileTree (Except FileError Unit) := fun t =>
  match f t with
  | .ok t => (.ok (), t)
  | .error e => (.error e, t)

def system : FileSystem (StateM FileTree) where
  read path := return (← get).read path
  create path := change (·.write path [])
  append path content := change (·.append path content)
  close _ := return .ok ()
  remove path := change (·.remove path)
  rename path target := change (·.rename path target)
  makeFolders path := change (·.makeFolders path)
  isFolder path := return match (← get).find path with
    | .ok n => .ok (n = .folder)
    | .error c => .error ⟨.look, path, c⟩
  names path := return (← get).names path

end FileTree
end Locksmith
