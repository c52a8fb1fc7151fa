import Brainfuck.Command.Path

/-!
# Files

The files that a command can see, as a tree below its working directory. Of what lies outside the tree nothing is known but that
the directories above it exist, and that from the root of all files on there are the directories of every system and the null
device. A look-up ends at a file, at a directory, at nothing, or at a name that no file can have because it is too long. A system may
also refuse to say what there is; a tree never does.
-/

namespace Brainfuck

/-- What is found under a path. The system may refuse to say, for a reason that it gives with a code. -/
inductive Entry where
  | file (bytes : List UInt8)
  | directory
  | missing
  | nameTooLong
  | refused (code : Nat) (reason : String)
  deriving DecidableEq, Repr

/-- The files and the directories that are listed, each under its parts from the working directory on. -/
structure FileTree where
  files : List (List String × List UInt8) := []
  directories : List (List String) := []
  deriving DecidableEq, Repr

/-- Where a look-up stands: in a directory of the tree or of the system, given by its parts, at a file, or in a directory above
the tree. -/
inductive Place where
  | inside (parts : List String)
  | system (parts : List String)
  | file (bytes : List UInt8)
  | above
  deriving DecidableEq, Repr

namespace FileTree

/-- The most bytes that one part of a path may have. -/
def maxPart : Nat := 255

/-- The first number of bytes that is too many for a path. -/
def maxPath : Nat := 4096

/-- The directories that every system has. -/
def systemDirectories : List (List String) :=
  [["bin"], ["dev"], ["etc"], ["home"], ["lib"], ["proc"], ["root"], ["sbin"], ["sys"], ["tmp"], ["usr"], ["usr", "bin"],
    ["usr", "lib"], ["var"]]

/-- The null device, which is read as a file without a byte. -/
def nullDevice : List String := ["dev", "null"]

/-- The tree has a directory of these parts: a listed one, or one above something that is listed. -/
def hasDirectory (t : FileTree) (parts : List String) : Bool :=
  (t.files.map (·.1) ++ t.directories).any (fun listed => parts.isPrefixOf listed && listed ≠ parts) ||
    t.directories.contains parts

/-- What stands under the parts of a path in the tree, if there is anything. -/
def child? (t : FileTree) (parts : List String) : Option Place :=
  match t.files.find? (fun f => f.1 == parts) with
  | some (_, bytes) => some (.file bytes)
  | none => if t.hasDirectory parts then some (.inside parts) else none

/-- What stands under the parts of a path from the root of all files on, if anything is known of it. -/
def systemChild? (parts : List String) : Option Place :=
  if parts = nullDevice then some (.file [])
  else if systemDirectories.contains parts then some (.system parts)
  else none

/-- One step of a look-up, by a part of a path; an entry instead of a place is the end of it. -/
def step (t : FileTree) (place : Place) (part : String) : Except Entry Place :=
  let named (child? : Option Place) : Except Entry Place :=
    if maxPart < part.utf8ByteSize then .error .nameTooLong
    else match child? with
      | some child => .ok child
      | none => .error .missing
  match place with
  | .file _ => .error .missing
  | .above => if part = ".." then .ok .above else named none
  | .inside parts =>
    if part = ".." then .ok (if parts.isEmpty then .above else .inside parts.dropLast)
    else named (t.child? (parts ++ [part]))
  | .system parts => if part = ".." then .ok (.system parts.dropLast) else named (systemChild? (parts ++ [part]))

/-- What is found under a path. A path with a NUL in it leads nowhere. -/
def find (t : FileTree) (p : Path) : Entry :=
  if p.parts.any (fun part => part.contains '\x00') then .missing
  else if maxPath ≤ p.toText.utf8ByteSize then .nameTooLong
  else
    match p.parts.foldlM t.step (if p.root.isEmpty then .inside [] else .system []) with
    | .ok (.file bytes) => .file bytes
    | .ok _ => .directory
    | .error entry => entry

end FileTree

end Brainfuck
