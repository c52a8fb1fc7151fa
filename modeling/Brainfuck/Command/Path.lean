import Brainfuck.Text.Cut

/-!
# Paths

The parts of a file's path. Empty parts and parts that are a single dot do not count, so that a path has one normal form; parts
of two dots stay, since what they mean depends on the directory that they leave.
-/

namespace Brainfuck

/-- A path: what it starts with, which is empty for a path from the working directory, and its parts. -/
structure Path where
  root : String
  parts : List String
  deriving DecidableEq, Repr

namespace Path

/-- The root that a path is written with. Two slashes are a root of their own; more than two are one. -/
def rootOf : List Char → String
  | '/' :: '/' :: '/' :: _ => "/"
  | '/' :: '/' :: _ => "//"
  | '/' :: _ => "/"
  | _ => ""

/-- The path that a text writes. -/
def ofText (text : String) : Path where
  root := rootOf text.toList
  parts := ((cut '/' text.toList).map String.ofList).filter (fun part => part ≠ "" && part ≠ ".")

/-- The normal form of a path. The path without parts is a dot. -/
def toText (p : Path) : String :=
  if p.root.isEmpty && p.parts.isEmpty then "." else p.root ++ "/".intercalate p.parts

/-- The extension of the last part: from its last dot on, unless that is its first or its last character. -/
def extension (p : Path) : String :=
  let part := (p.parts.getLast?.getD "").toList
  let after := (part.reverse.takeWhile (· ≠ '.')).reverse
  let stem := part.take (part.length - after.length - 1)
  if after.isEmpty || stem.isEmpty then "" else String.ofList ('.' :: after)

end Path

end Brainfuck
