import Workflow.Fields

/-!
# Files

The files below a directory, and what is found at a path in it. Paths are tidied first: single
points and doubled separators mean nothing, and the empty path is the directory itself. Two points
lead upwards, but only from a directory that is there.
-/
namespace Workflow.Files

/-- What lies at a path. -/
inductive Content where
  | file (bytes : List UInt8)
  | directory
  deriving DecidableEq, Repr

/-- The contents of a directory, under paths that start in it. -/
abbrev Tree := Fields Content

inductive Fault where
  | missing | isDirectory | notDirectory | nameTooLong | nullInName
  deriving DecidableEq, Repr

def Fault.kind : Fault → String
  | .missing => "FileNotFoundError"
  | .isDirectory => "IsADirectoryError"
  | .notDirectory => "NotADirectoryError"
  | .nameTooLong => "OSError"
  | .nullInName => "ValueError"

def Fault.message : Fault → String
  | .missing => "No such file or directory"
  | .isDirectory => "Is a directory"
  | .notDirectory => "Not a directory"
  | .nameTooLong => "File name too long"
  | .nullInName => "embedded null byte"

/-- The names between separators. -/
def split (path : String) : List String :=
  (path.toList.splitOn '/').map String.ofList

/-- The names of a path that mean something. -/
def names (path : String) : List String := (split path).filter fun s => s ≠ "" ∧ s ≠ "."

/-- The separators in front of a path: one or none, but exactly two are kept. -/
def root : List Char → String
  | '/' :: '/' :: '/' :: _ => "/"
  | '/' :: '/' :: _ => "//"
  | '/' :: _ => "/"
  | _ => ""

/-- A path without what means nothing. -/
def normalized (path : String) : String :=
  let s := root path.toList ++ "/".intercalate (names path)
  if s = "" then "." else s

/-- Does a path lead to something that lies in a directory? -/
def isBelow (directory path : List String) : Bool :=
  directory.isPrefixOf path && directory.length < path.length

/-- What lies at the names that lead from the directory; what contains something is a directory. -/
def content? (tree : Tree) (place : List String) : Option Content :=
  if place.isEmpty then some .directory
  else match tree.find? fun e => names e.1 = place with
    | some e => some e.2
    | none => if tree.any fun e => isBelow place (names e.1) then some .directory else none

/-- Follows names from a directory; none stands for a directory outside of the tree, of which
nothing is known. -/
def walk (tree : Tree) : Option (List String) → List String → Except Fault (List UInt8)
  | _, [] => .error .isDirectory
  | place?, name :: rest =>
    if name = ".." then
      walk tree (place?.bind fun p => if p.isEmpty then none else some p.dropLast) rest
    else if 255 < name.utf8ByteSize then .error .nameTooLong
    else match place? with
      | none => .error .missing
      | some place =>
        match content? tree (place ++ [name]) with
        | none => .error .missing
        | some .directory => walk tree (some (place ++ [name])) rest
        | some (.file bytes) => if rest.isEmpty then .ok bytes else .error .notDirectory

/-- The bytes of the file at a path. -/
def read (tree : Tree) (path : String) : Except Fault (List UInt8) :=
  if path.toList.contains '\x00' then .error .nullInName
  else walk tree (if root path.toList = "" then some [] else none) (names path)

end Workflow.Files
