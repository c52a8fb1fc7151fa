import Brainfuck.Text.Blank
import Brainfuck.Text.Digit

/-!
# Integers written in text

Two written forms of an integer, both with an optional sign, with single underscores between digits, and with blanks around it
allowed. The *grouped* form, which the command lines read, takes the decimal digits of any script, and at most 4300 of them. The
*plain* form, which the service reads, takes ASCII digits and after them, if there is a point, one zero or more. Leading zeros of
the plain form do not count, and neither do the underscores among them; what is left of it has at most 4300 digits. Behind leading
zeros there may also stand a minus, if none stands in front of them.
-/

namespace Brainfuck

/-- The most digits that an integer in grouped form may have. -/
def maxGroupedDigits : Nat := 4300

/-- A sign in front of the rest: whether it is a minus, and the rest. A text without a sign is its own rest. -/
def splitSign : List Char → Bool × List Char
  | '-' :: rest => (true, rest)
  | '+' :: rest => (false, rest)
  | rest => (false, rest)

/-- The number with a given magnitude, below zero if there was a minus. -/
def withSign (minus : Bool) (magnitude : Nat) : Int := if minus then -magnitude else magnitude

/-- The digits of a text that holds digits and, between two digits, at most one underscore. -/
def groupedDigits? (digit? : Char → Option Nat) : List Char → Option (List Nat)
  | [] => none
  | [c] => (digit? c).map (fun d => [d])
  | c :: '_' :: rest => (digit? c).bind (fun d => (groupedDigits? digit? rest).map (d :: ·))
  | c :: rest => (digit? c).bind (fun d => (groupedDigits? digit? rest).map (d :: ·))

/-- The integer that a text writes in grouped form. -/
def groupedInteger? (text : String) : Option Int :=
  let (minus, body) := splitSign (trimBlanks text.toList)
  (groupedDigits? decimalDigit? body).bind fun digits =>
    if digits.length ≤ maxGroupedDigits then some (withSign minus (ofDigits digits)) else none

/-- Why a text does not write an integer in plain form. -/
inductive PlainFault where
  | oversized
  | unreadable
  deriving DecidableEq, Repr

/-- The most digits that an integer in plain form may have. -/
def maxPlainDigits : Nat := 4300

/-- A text starts with more digits than an integer in plain form may have. A text that starts with a blank, a plus or a zero is
not measured before it is read. -/
def startsOversized (text : List Char) : Bool :=
  let body := match text with
    | '-' :: rest => rest
    | rest => rest
  body.head? ≠ some '0' && maxPlainDigits < (body.takeWhile Char.isDigit).length

/-- A text without its leading zeros and the underscores among them. If neither a digit nor a minus follows them, the last of them
stays. -/
def dropLeadingZeros (text : List Char) : List Char :=
  if text.head? = some '0' then
    let zeros := text.takeWhile (fun c => c = '0' ∨ c = '_')
    let rest := text.drop zeros.length
    if rest.head?.any (fun c => c.isDigit || c == '-') then rest else zeros.getLast?.toList ++ rest
  else text

/-- A text cut at its first point, if there is one, and behind it one zero or more and nothing else. -/
def wholePart? (text : List Char) : Option (List Char) :=
  match text.dropWhile (· ≠ '.') with
  | [] => some text
  | _ :: places => if !places.isEmpty && places.all (· == '0') then some (text.takeWhile (· ≠ '.')) else none

/-- The digits behind a minus that stands behind leading zeros. One underscore may stand in front of them, and no zero
does, unless it is all there is. -/
def innerDigits? (text : List Char) : Option (List Nat) :=
  let body := match text with
    | '_' :: rest => rest
    | rest => rest
  (groupedDigits? asciiDigit? body).filter (fun digits => digits.head? ≠ some 0 || digits.length = 1)

/-- The digits of an integer in plain form, from behind its sign, and whether there is a minus behind leading zeros. -/
def plainDigits? (text : List Char) : Option (Bool × List Nat) :=
  match dropLeadingZeros text with
  | '-' :: rest => if text.head? = some '0' then (innerDigits? rest).map (true, ·) else none
  | rest => (groupedDigits? asciiDigit? rest).map (false, ·)

/-- The integer that a text writes in plain form. -/
def plainInteger (text : String) : Except PlainFault Int :=
  if startsOversized text.toList then .error .oversized
  else
    let (minus, body) := splitSign (trimBlanks text.toList)
    match (wholePart? body).bind plainDigits? with
    | none => .error .unreadable
    | some (innerMinus, digits) =>
      if (minus && innerMinus) || maxPlainDigits < digits.length then .error .unreadable
      else .ok (withSign (minus || innerMinus) (ofDigits digits))

end Brainfuck
