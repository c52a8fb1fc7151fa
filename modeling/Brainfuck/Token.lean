import Brainfuck.Json

/-!
# Tokens

A program is a list of tokens, one for each command or run of equal commands. A token of arithmetic or of a move carries how
often its command is repeated; a loop token carries the index of its partner once that is known; the other tokens carry a
payload that no rule reads, and the payload of a no-op is the text it stands for.

Counts and targets are natural numbers of any size. A truth value may stand where a number is asked for; it counts as one or
zero, and the token keeps it as it was written.
-/

namespace Brainfuck

/-- The nine kinds of token. -/
inductive Kind where
  | noOp | increment | decrement | moveLeft | moveRight | loopStart | loopEnd | output | input
  deriving DecidableEq, Repr

/-- The name of a kind. -/
def Kind.name : Kind → String
  | .noOp => "no_op"
  | .increment => "increment"
  | .decrement => "decrement"
  | .moveLeft => "move_left"
  | .moveRight => "move_right"
  | .loopStart => "loop_start"
  | .loopEnd => "loop_end"
  | .output => "output"
  | .input => "input"

/-- All kinds. -/
def Kind.all : List Kind :=
  [.noOp, .increment, .decrement, .moveLeft, .moveRight, .loopStart, .loopEnd, .output, .input]

/-- The kind of a name. -/
def Kind.ofName? (name : String) : Option Kind := Kind.all.find? (fun k => k.name == name)

/-- A count or a target as a token carries it. -/
inductive Numeral where
  | nat (n : Nat)
  | truth (b : Bool)
  deriving DecidableEq, Repr

/-- The number that a numeral means. -/
def Numeral.toNat : Numeral → Nat
  | .nat n => n
  | .truth b => b.toNat

/-- The numeral as it was written. -/
def Numeral.toJson : Numeral → Json
  | .nat n => .integer n
  | .truth b => .bool b

/-- The numeral that a value writes: a truth value or an integer that is not below zero. -/
def Numeral.ofJson? : Json → Option Numeral
  | .bool b => some (.truth b)
  | .integer n => if 0 ≤ n then some (.nat n.toNat) else none
  | _ => none

/-- A token. -/
inductive Token where
  | noOp (payload : Json)
  | increment (count : Numeral)
  | decrement (count : Numeral)
  | moveLeft (count : Numeral)
  | moveRight (count : Numeral)
  | loopStart (target : Option Numeral)
  | loopEnd (target : Option Numeral)
  | output (payload : Json)
  | input (payload : Json)
  deriving Repr, Inhabited

/-- Why a token cannot be made. -/
inductive TokenError where
  | unknownKind (name : String)
  | badCount (kind : Kind)
  | badTarget (kind : Kind)
  deriving DecidableEq, Repr

namespace Token

/-- The kind of a token. -/
def kind : Token → Kind
  | .noOp _ => .noOp
  | .increment _ => .increment
  | .decrement _ => .decrement
  | .moveLeft _ => .moveLeft
  | .moveRight _ => .moveRight
  | .loopStart _ => .loopStart
  | .loopEnd _ => .loopEnd
  | .output _ => .output
  | .input _ => .input

/-- The target of a loop token, if it has one; other tokens have none. -/
def target? : Token → Option Numeral
  | .loopStart target => target
  | .loopEnd target => target
  | _ => none

/-- The value of a token: its count, its target (null if it has none) or its payload. -/
def value : Token → Json
  | .increment n | .decrement n | .moveLeft n | .moveRight n => n.toJson
  | .loopStart target | .loopEnd target => (target.map Numeral.toJson).getD .null
  | .noOp payload | .output payload | .input payload => payload

/-- The count that a value gives to a token of a counted kind. -/
def countOf (kind : Kind) (value : Json) : Except TokenError Numeral :=
  match Numeral.ofJson? value with
  | some n => .ok n
  | none => .error (.badCount kind)

/-- The target that a value gives to a loop token; null is no target. -/
def targetOf (kind : Kind) : Json → Except TokenError (Option Numeral)
  | .null => .ok none
  | value =>
    match Numeral.ofJson? value with
    | some n => .ok (some n)
    | none => .error (.badTarget kind)

/-- The token of a kind and a value, if the kind takes that value. -/
def make : Kind → Json → Except TokenError Token
  | .noOp, value => .ok (.noOp value)
  | .output, value => .ok (.output value)
  | .input, value => .ok (.input value)
  | .increment, value => (countOf .increment value).map .increment
  | .decrement, value => (countOf .decrement value).map .decrement
  | .moveLeft, value => (countOf .moveLeft value).map .moveLeft
  | .moveRight, value => (countOf .moveRight value).map .moveRight
  | .loopStart, value => (targetOf .loopStart value).map .loopStart
  | .loopEnd, value => (targetOf .loopEnd value).map .loopEnd

/-- The token of a kind that is given by its name. -/
def ofName (name : String) (value : Json) : Except TokenError Token :=
  match Kind.ofName? name with
  | some kind => make kind value
  | none => .error (.unknownKind name)

/-- The token of the same kind with another value, under the same rules. -/
def withValue (t : Token) (value : Json) : Except TokenError Token := make t.kind value

/-- The value that a token has if none is given: once for a count, and nothing else. -/
def defaultValue : Kind → Json
  | .increment | .decrement | .moveLeft | .moveRight => .integer 1
  | _ => .null

/-- A loop token pointed at an index; any other token is left alone. -/
def aim (index : Nat) : Token → Token
  | .loopStart _ => .loopStart (some (.nat index))
  | .loopEnd _ => .loopEnd (some (.nat index))
  | t => t

/-- A loop token without its target; any other token is left alone. -/
def untarget : Token → Token
  | .loopStart _ => .loopStart none
  | .loopEnd _ => .loopEnd none
  | t => t

/-- The token of one character: that of the command, once, or a no-op that stands for the character. -/
def ofChar : Char → Token
  | '+' => .increment (.nat 1)
  | '-' => .decrement (.nat 1)
  | '<' => .moveLeft (.nat 1)
  | '>' => .moveRight (.nat 1)
  | ',' => .input .null
  | '.' => .output .null
  | '[' => .loopStart none
  | ']' => .loopEnd none
  | c => .noOp (.string (String.singleton c))

/-- The token of a text: that of its character if it has just one, and otherwise a no-op that stands for the text. -/
def ofText (text : String) : Token :=
  match text.toList with
  | [c] => ofChar c
  | _ => .noOp (.string text)

/-- What an arithmetic token adds to the cell, and none for the other tokens. -/
def delta? : Token → Option Int
  | .increment n => some n.toNat
  | .decrement n => some (-n.toNat)
  | _ => none

/-- By how many cells a move token goes to the right, and none for the other tokens. -/
def shift? : Token → Option Int
  | .moveRight n => some n.toNat
  | .moveLeft n => some (-n.toNat)
  | _ => none

end Token

end Brainfuck
