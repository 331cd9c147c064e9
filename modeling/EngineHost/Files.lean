import EngineHost.Bytes

/-!
# Files

The files that a program can read, by their paths. A path is a byte string, and a folder is given
by what it holds.
-/

namespace EngineHost

/-- Why a file cannot be read. -/
inductive FileFault where
  | notFound
  | isDirectory
  | notDirectory
  | nameTooLong
  | zeroInPath
  /-- A fault given in words. -/
  | other (reason : String)
  deriving DecidableEq, Repr

/-- The wording of a fault. -/
def FileFault.message : FileFault → String
  | .notFound => "No such file or directory (os error 2)"
  | .isDirectory => "Is a directory (os error 21)"
  | .notDirectory => "Not a directory (os error 20)"
  | .nameTooLong => "File name too long (os error 36)"
  | .zeroInPath => "file name contained an unexpected NUL byte"
  | .other reason => reason

/-- The contents of files by their paths. -/
abbrev Files := Bytes → Except FileFault Bytes

/-- A folder that holds files and no folders. Of everything else only the folders that lead to it
are known. -/
structure Folder where
  /-- The names of the folders from the root down to this one, itself included. -/
  place : List Bytes
  /-- The names and the contents of its files. -/
  files : List (Bytes × Bytes)

namespace Folder

/-- The least length of a path that is too long. -/
def pathLimit : Nat := 4096

/-- The greatest length of a name. -/
def nameLimit : Nat := 255

/-- The parts of a path between slashes. -/
def parts : Bytes → List Bytes
  | [] => [[]]
  | b :: rest =>
    if b = 47 then [] :: parts rest
    else
      match parts rest with
      | part :: more => (b :: part) :: more
      | [] => [[b]]

/-- Follows the parts of a path from a folder, which is given by the names that lead to it from the
root, or is unknown. Empty parts and single points stay in the folder, and two points lead to the
folder around it. Every name is looked up in its turn; what comes after the name of a file takes
the file for a folder. -/
def follow (folder : Folder) (here : Option (List Bytes)) : List Bytes → Except FileFault Bytes
  | [] => .error .isDirectory
  | part :: more =>
    if part = [] ∨ part = [46] then folder.follow here more
    else if part = [46, 46] then folder.follow (here.map List.dropLast) more
    else if nameLimit < part.length then .error .nameTooLong
    else
      match here with
      | none => .error .notFound
      | some names =>
        let inner := names ++ [part]
        if inner.isPrefixOf folder.place then folder.follow (some inner) more
        else if names = folder.place then
          match folder.files.lookup part, more with
          | none, _ => .error .notFound
          | some contents, [] => .ok contents
          | some _, _ :: _ => .error .notDirectory
        else .error .notFound

/-- Reads a path. A path that starts with a slash is followed from the root, and any other from an
unknown folder. -/
def read (folder : Folder) : Files := fun path =>
  if path.contains 0 then .error .zeroInPath
  else if path = [] then .error .notFound
  else if pathLimit ≤ path.length then .error .nameTooLong
  else folder.follow (if path.head? = some 47 then some [] else none) (parts path)

end Folder

end EngineHost
