import Brainfuck.Json
import Brainfuck.Text.Digit
import Brainfuck.Text.Hex

/-!
# Reading JSON

A JSON text is one value with blanks around it. Every reader takes the front off a text and returns what it read and the rest. A
text that is not JSON is malformed. A text may also ask for too much, with an integer of too many digits or with values nested
too deep, and then it is refused at that place, whatever follows.

Not only arrays and objects take a level of nesting. A name of a number that is not finite takes one, and so it is refused where
none is left. To say what is wrong takes three, and so a fault is refused as well where fewer are left; only that a value is
missing is said without any (`Json.fault`).

The reader of values nests, so it carries a bound on the steps that it may take. A step into an array, into an object or on to
what follows a comma is one step to an item or a field and one to its value, and takes a character off the text, so twice the
length of the text is bound enough (`Json.ofGlyphs`).
-/

namespace Brainfuck.Json

/-- A text as it is read: its characters, and nothing in the place of each half of a surrogate pair that stands alone. -/
abbrev Glyphs : Type := List (Option Char)

/-- Why a text is not read. -/
inductive ReadError where
  | malformed
  | refused
  deriving DecidableEq, Repr

/-- What a reader of the front of a text comes to. -/
abbrev Reading (α : Type) : Type := Except ReadError (α × Glyphs)

/-- The most digits that an integer may have. -/
def maxDigits : Nat := 4300

/-- The most arrays and objects that may stand inside each other. -/
def maxNesting : Nat := 964

/-- The levels of nesting that it takes to say what is wrong. -/
def faultNesting : Nat := 3

/-- What is wrong with a text, found with some levels of nesting left. -/
def fault (nesting : Nat) : ReadError := if nesting < faultNesting then .refused else .malformed

/-- The four blanks of JSON. -/
def isSpace (c : Char) : Bool := c == ' ' || c == '\t' || c == '\n' || c == '\r'

/-- The text after its leading blanks. -/
def skipSpace (text : Glyphs) : Glyphs := text.dropWhile (·.any isSpace)

/-- The text after a given word, if it starts with it. -/
def after? : List Char → Glyphs → Option Glyphs
  | [], text => some text
  | w :: word, some c :: text => if w = c then after? word text else none
  | _ :: _, _ => none

/-! ## Strings -/

/-- Four hexadecimal digits and the rest. -/
def codeUnit? : Glyphs → Option (Nat × Glyphs)
  | some a :: some b :: some c :: some d :: rest =>
    match [a, b, c, d].mapM hexDigit? with
    | some digits => some (digits.foldl (fun n x => 16 * n + x) 0, rest)
    | none => none
  | _ => none

/-- The character of an escape without digits, by the letter after the backslash. -/
def shortEscape? : Char → Option Char
  | '"' => some '"'
  | '\\' => some '\\'
  | '/' => some '/'
  | 'b' => some '\x08'
  | 'f' => some '\x0c'
  | 'n' => some '\n'
  | 'r' => some '\r'
  | 't' => some '\t'
  | _ => none

/-- The code unit of a second escape, if one stands at the front of a text and is the low half of a surrogate pair. -/
def lowHalf? (text : Glyphs) : Option (Nat × Glyphs) :=
  (after? ['\\', 'u'] text).bind fun rest =>
    (codeUnit? rest).filter (fun unit => 0xDC00 ≤ unit.1 ∧ unit.1 < 0xE000)

/-- What is read at the end of a string: the string, or the ragged string with U+FFFD where halves stood alone. -/
def stringValue (isRagged : Bool) (done : List Char) : Json :=
  if isRagged then .ragged (String.ofList done.reverse) else .string (String.ofList done.reverse)

/-- The characters up to the closing quote, and the rest after it, or nothing if there is no string. `bound` is at least the
number of characters left, `isRagged` says whether a half of a surrogate pair has stood alone so far, and `done` holds the
characters read, the last one first. -/
def stringBody? : Nat → Bool → List Char → Glyphs → Option (Json × Glyphs)
  | 0, _, _, _ => none
  | bound + 1, isRagged, done, text =>
    match text with
    | [] => none
    | some '"' :: rest => some (stringValue isRagged done, rest)
    | some '\\' :: some 'u' :: rest =>
      match codeUnit? rest with
      | none => none
      | some (unit, rest) =>
        if unit < 0xD800 ∨ 0xE000 ≤ unit then stringBody? bound isRagged (Char.ofNat unit :: done) rest
        else
          match lowHalf? rest with
          | some (low, rest') =>
            if unit < 0xDC00 then
              stringBody? bound isRagged (Char.ofNat (0x10000 + 0x400 * (unit - 0xD800) + (low - 0xDC00)) :: done) rest'
            else stringBody? bound true ('\uFFFD' :: done) rest
          | none => stringBody? bound true ('\uFFFD' :: done) rest
    | some '\\' :: some e :: rest =>
      match shortEscape? e with
      | none => none
      | some c => stringBody? bound isRagged (c :: done) rest
    | some '\\' :: _ => none
    | some c :: rest => if c.toNat < 0x20 then none else stringBody? bound isRagged (c :: done) rest
    | none :: rest => stringBody? bound true ('\uFFFD' :: done) rest

/-- A string and the rest, from after the opening quote. -/
def readString (nesting bound : Nat) (text : Glyphs) : Reading Json :=
  match stringBody? bound false [] text with
  | some found => .ok found
  | none => .error (fault nesting)

/-! ## Numbers -/

/-- The ASCII digits at the front of a text, and the rest. -/
def digits (text : Glyphs) : List Nat × Glyphs :=
  ((text.takeWhile (·.any Char.isDigit)).filterMap (·.bind asciiDigit?), text.dropWhile (·.any Char.isDigit))

/-- The digits of a fraction at the front of a text, none if there is no fraction there, and the rest. -/
def fraction (text : Glyphs) : List Nat × Glyphs :=
  match text with
  | some '.' :: rest =>
    match digits rest with
    | ([], _) => ([], text)
    | (ds, rest) => (ds, rest)
  | _ => ([], text)

/-- An exponent at the front of a text, none if there is no exponent there, and the rest. -/
def exponent (text : Glyphs) : Option Int × Glyphs :=
  match text with
  | some e :: rest =>
    if e = 'e' ∨ e = 'E' then
      let (minus, body) : Bool × Glyphs := match rest with
        | some '-' :: r => (true, r)
        | some '+' :: r => (false, r)
        | r => (false, r)
      match digits body with
      | ([], _) => (none, text)
      | (ds, rest) => (some (if minus then -(ofDigits ds : Int) else ofDigits ds), rest)
    else (none, text)
  | _ => (none, text)

/-- A number without its sign, and the rest. The integer part has no leading zero but itself. -/
def unsigned (minus : Bool) (text : Glyphs) : Reading Json :=
  let (whole, rest) : List Nat × Glyphs := match text with
    | some '0' :: r => ([0], r)
    | r => digits r
  if whole.isEmpty then .error .malformed
  else
    let (places, rest) := fraction rest
    let (power, rest) := exponent rest
    let isInteger := places.isEmpty && power.isNone
    if isInteger && maxDigits < whole.length then .error .refused
    else
      let magnitude : Int := ofDigits (whole ++ places)
      let mantissa := if minus then -magnitude else magnitude
      if isInteger then .ok (.integer mantissa, rest)
      else .ok (.decimal ⟨mantissa, power.getD 0 - places.length⟩, rest)

/-! ## Values -/

/-- The values that are written as a word. -/
def words : List (List Char × Json) :=
  [("null".toList, .null), ("true".toList, .bool true), ("false".toList, .bool false),
    ("NaN".toList, .nonFinite "NaN"), ("Infinity".toList, .nonFinite "Infinity"),
    ("-Infinity".toList, .nonFinite "-Infinity")]

/-- A value that holds no other value, and the rest. -/
def scalar (nesting bound : Nat) (text : Glyphs) : Reading Json :=
  let found : Option (Json × Glyphs) := words.findSome? (fun w => (after? w.1 text).map (fun rest => (w.2, rest)))
  match found with
  | some (.nonFinite name, rest) => if nesting = 0 then .error .refused else .ok (.nonFinite name, rest)
  | some (word, rest) => .ok (word, rest)
  | none =>
    match text with
    | some '"' :: rest => readString nesting bound rest
    | some '-' :: rest => unsigned true rest
    | _ => unsigned false text

/-- The fields of an object that have been read, the last one first, and whether there was a ragged name among them. -/
structure Fields where
  done : List (String × Json) := []
  isRagged : Bool := false

/-- The fields read so far and one more, from the string that is read for its name. A ragged name does not count if it would be
left out where the object is quoted. -/
def Fields.add (fs : Fields) (name item : Json) : Fields :=
  match name with
  | .string text => { fs with done := (text, item) :: fs.done }
  | .ragged text => { fs with isRagged := fs.isRagged || !isUnquotedName text }
  | _ => fs

/-- The object with the fields read. -/
def Fields.toJson (fs : Fields) : Json :=
  if fs.isRagged then .raggedObject fs.done.reverse else .object fs.done.reverse

mutual

/-- A value at the front of a text without leading blanks, and the rest. `nesting` is the number of arrays and objects that may
still stand inside each other. -/
def value (nesting : Nat) : Nat → Glyphs → Reading Json
  | 0, _ => .error .malformed
  | bound + 1, some '[' :: rest =>
    match nesting with
    | 0 => .error .refused
    | nesting + 1 =>
      match skipSpace rest with
      | some ']' :: rest => .ok (.array [], rest)
      | rest => items nesting bound [] rest
  | bound + 1, some '{' :: rest =>
    match nesting with
    | 0 => .error .refused
    | nesting + 1 =>
      match skipSpace rest with
      | some '}' :: rest => .ok (.object [], rest)
      | rest => fields nesting bound {} rest
  | bound + 1, text => scalar nesting bound text

/-- The items of an array up to its end, from the front of an item, and the rest. `done` holds those before, the last one
first. -/
def items (nesting : Nat) : Nat → List Json → Glyphs → Reading Json
  | 0, _, _ => .error .malformed
  | bound + 1, done, text =>
    match value nesting bound text with
    | .error e => .error e
    | .ok (item, rest) =>
      match skipSpace rest with
      | some ',' :: rest => items nesting bound (item :: done) (skipSpace rest)
      | some ']' :: rest => .ok (.array (item :: done).reverse, rest)
      | _ => .error (fault nesting)

/-- The fields of an object up to its end, from the front of a name, and the rest. -/
def fields (nesting : Nat) : Nat → Fields → Glyphs → Reading Json
  | 0, _, _ => .error .malformed
  | bound + 1, done, some '"' :: text =>
    match readString nesting bound text with
    | .error e => .error e
    | .ok (name, rest) =>
      match skipSpace rest with
      | some ':' :: rest =>
        match value nesting bound (skipSpace rest) with
        | .error e => .error e
        | .ok (item, rest) =>
          match skipSpace rest with
          | some ',' :: rest => fields nesting bound (done.add name item) (skipSpace rest)
          | some '}' :: rest => .ok ((done.add name item).toJson, rest)
          | _ => .error (fault nesting)
      | _ => .error (fault nesting)
  | _ + 1, _, _ => .error (fault nesting)

end

/-- The value that a text writes, if it writes one and nothing else. -/
def ofGlyphs (text : Glyphs) : Except ReadError Json :=
  match value maxNesting (2 * text.length + 2) (skipSpace text) with
  | .ok (value, rest) => if (skipSpace rest).isEmpty then .ok value else .error .malformed
  | .error e => .error e

end Brainfuck.Json
