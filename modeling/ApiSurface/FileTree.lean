/-!
Files kept in memory. A path is a list of names with slashes between them, and directories are what
the paths of files pass through. Nothing is known of the directories around the tree, so no file is
found there.
-/

namespace ApiSurface

structure FileTree where
  files : List (String × ByteArray) := []

inductive FileFailure where
  | missing
  /-- The path goes on after the name of a file. -/
  | notDirectory
  | isDirectory
  /-- The path, or a name in it, is longer than paths and names can be. -/
  | nameTooLong
  /-- The path holds the character NUL, which no path can hold. -/
  | nulInPath
  deriving DecidableEq, Repr

namespace FileFailure

def message : FileFailure → String
  | .missing => "No such file or directory (os error 2)"
  | .notDirectory => "Not a directory (os error 20)"
  | .isDirectory => "Is a directory (os error 21)"
  | .nameTooLong => "File name too long (os error 36)"
  | .nulInPath => "file name contained an unexpected NUL byte"

end FileFailure

namespace FileTree

/-- The bytes that a name can have. -/
def nameLimit : Nat := 255

/-- The bytes that a path can have. -/
def pathLimit : Nat := 4095

/-- Where a part of a path leads. -/
inductive Place where
  /-- A directory of the tree. -/
  | directory (names : List String)
  /-- A directory around the tree. -/
  | outside
  | file (content : ByteArray)

variable (tree : FileTree)

def find (names : List String) : Except FileFailure Place :=
  match tree.files.find? fun f => f.1.splitOn "/" == names with
  | some f => .ok (.file f.2)
  | none =>
    if tree.files.any fun f => names.isPrefixOf (f.1.splitOn "/") then .ok (.directory names)
    else .error .missing

def parent : List String → Place
  | [] => .outside
  | names => .directory names.dropLast

def step (place : Place) (name : String) : Except FileFailure Place :=
  match place with
  | .file _ => .error .notDirectory
  | .directory names =>
    if name == "" || name == "." then .ok place
    else if name == ".." then .ok (parent names)
    else if nameLimit < name.utf8ByteSize then .error .nameTooLong
    else tree.find (names ++ [name])
  | .outside =>
    if name == "" || name == "." || name == ".." then .ok place
    else if nameLimit < name.utf8ByteSize then .error .nameTooLong
    else .error .missing

/-- Where a path starts: outside if a slash comes first, and in the tree otherwise. -/
def start (path : String) : Place :=
  if path.startsWith "/" then .outside else .directory []

def read (path : String) : Except FileFailure ByteArray :=
  if path.contains '\x00' then .error .nulInPath
  else if pathLimit < path.utf8ByteSize then .error .nameTooLong
  else
    match (path.splitOn "/").foldlM tree.step (start path) with
    | .ok (.file content) => .ok content
    | .ok (.directory _) | .ok .outside => .error .isDirectory
    | .error failure => .error failure

end FileTree

end ApiSurface
