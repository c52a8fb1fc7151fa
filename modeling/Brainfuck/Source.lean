/-!
# Source text

A source is any text. Eight of its characters are commands and all others are comments. A source does the same without its
comments, and without pairs of neighbouring commands that undo each other.
-/

namespace Brainfuck.Source

/-- The eight command characters. -/
def isCommand (c : Char) : Bool :=
  c == '+' || c == '-' || c == '<' || c == '>' || c == ',' || c == '.' || c == '[' || c == ']'

/-- The command that undoes a command, for arithmetic and moves. -/
def inverse? : Char → Option Char
  | '+' => some '-'
  | '-' => some '+'
  | '<' => some '>'
  | '>' => some '<'
  | _ => none

/-- The source without its comments. -/
def stripComments (source : List Char) : List Char := source.filter isCommand

/-- One more character after a text that is kept with its last character first: it goes with that character if it undoes it, and
otherwise it is the new last one. -/
def settle (kept : List Char) (c : Char) : List Char :=
  match kept with
  | last :: rest => if inverse? c = some last then rest else c :: kept
  | [] => [c]

/-- The source without neighbours that undo each other, also those that become neighbours only when what stood between them is
gone. Comments stand between. -/
def cancelPairs (source : List Char) : List Char := (source.foldl settle []).reverse

/-- The source without its comments and then without neighbours that undo each other. -/
def optimize (source : List Char) : List Char := cancelPairs (stripComments source)

end Brainfuck.Source
