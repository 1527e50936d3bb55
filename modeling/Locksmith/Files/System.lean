import Locksmith.Files.Path

namespace Locksmith

inductive FileAction where
  | open
  | read
  | write
  | close
  | makeFolder
  | remove
  | look
  | rename (target : Bytes)
deriving DecidableEq, Repr

inductive FileError.Cause where
  | notFound
  | notFolder
  | isFolder
  | alreadyThere
  | notEmpty
  | other (text : Bytes)
deriving DecidableEq, Repr

structure FileError where
  action : FileAction
  path : Bytes
  cause : FileError.Cause
deriving DecidableEq, Repr

namespace FileError

def Cause.message : Cause → Bytes
  | notFound => "no such file or directory"
  | notFolder => "not a directory"
  | isFolder => "is a directory"
  | alreadyThere => "file exists"
  | notEmpty => "directory not empty"
  | other text => text

def message (e : FileError) : Bytes :=
  (match e.action with
    | .open => "open " ++ e.path
    | .read => "read " ++ e.path
    | .write => "write " ++ e.path
    | .close => "close " ++ e.path
    | .makeFolder => "mkdir " ++ e.path
    | .remove => "remove " ++ e.path
    | .look => "stat " ++ e.path
    | .rename target => "rename " ++ e.path ++ " " ++ target) ++ ": " ++ e.cause.message

end FileError

structure FileAccess (m : Type → Type) where
  /-- The content of a file. -/
  read : Bytes → m (Except FileError Bytes)
  /-- Makes a file empty, or makes an empty file. -/
  create : Bytes → m (Except FileError Unit)
  /-- Adds to the end of a file. -/
  append : Bytes → Bytes → m (Except FileError Unit)
  /-- Ends the writing of a file. -/
  close : Bytes → m (Except FileError Unit)

structure FileSystem (m : Type → Type) extends FileAccess m where
  /-- Removes a file or an empty folder. -/
  remove : Bytes → m (Except FileError Unit)
  /-- Gives a file or folder another name, in place of a file of that name. -/
  rename : Bytes → Bytes → m (Except FileError Unit)
  /-- Makes a folder and those that it lies in. -/
  makeFolders : Bytes → m (Except FileError Unit)
  /-- Whether a folder, and not a file, stands at a path. -/
  isFolder : Bytes → m (Except FileError Bool)
  /-- The names in a folder, in order. -/
  names : Bytes → m (Except FileError (List Bytes))

end Locksmith
