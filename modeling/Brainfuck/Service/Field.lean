import Brainfuck.Json
import Brainfuck.Text.Integer
import Brainfuck.Text.Latin1

/-!
# Fields of a request

What a field of a request may hold. A reader takes a JSON value and gives the value of the field, or the complaint about it. The
readers are generous: a number may be written as text, a switch as one of a dozen words, and a number with a fraction counts as
an integer if the fraction is zero.
-/

namespace Brainfuck.Service

/-- What can be wrong with a field, or with a whole body. -/
inductive Complaint where
  | missing
  | invalidJson
  | notAnObject
  | notText
  | inputRange
  | notASwitch
  | unreadableSwitch
  | notAnInteger
  | fractionalInteger
  | unreadableInteger
  | oversizedInteger
  | notFinite
  | below (least : Int)
  | above (greatest : Int)
  deriving DecidableEq, Repr

/-- The short name of a complaint. -/
def Complaint.code : Complaint → String
  | .missing => "missing"
  | .invalidJson => "json_invalid"
  | .notAnObject => "model_attributes_type"
  | .notText => "string_type"
  | .inputRange => "value_error"
  | .notASwitch => "bool_type"
  | .unreadableSwitch => "bool_parsing"
  | .notAnInteger => "int_type"
  | .fractionalInteger => "int_from_float"
  | .unreadableInteger => "int_parsing"
  | .oversizedInteger => "int_parsing_size"
  | .notFinite => "finite_number"
  | .below _ => "greater_than_equal"
  | .above _ => "less_than_equal"

/-- The wording of a complaint. -/
def Complaint.message : Complaint → String
  | .missing => "Field required"
  | .invalidJson => "JSON decode error"
  | .notAnObject => "Input should be a valid dictionary or object to extract fields from"
  | .notText => "Input should be a valid string"
  | .inputRange => "Value error, input characters must be in the range U+0000-U+00FF"
  | .notASwitch => "Input should be a valid boolean"
  | .unreadableSwitch => "Input should be a valid boolean, unable to interpret input"
  | .notAnInteger => "Input should be a valid integer"
  | .fractionalInteger => "Input should be a valid integer, got a number with a fractional part"
  | .unreadableInteger => "Input should be a valid integer, unable to parse string as an integer"
  | .oversizedInteger => "Unable to parse input string as an integer, exceeded maximum size"
  | .notFinite => "Input should be a finite number"
  | .below least => s!"Input should be greater than or equal to {least}"
  | .above greatest => s!"Input should be less than or equal to {greatest}"

/-- A complaint, the place that it is about, and whether the value there can be quoted in a report. -/
structure Problem where
  location : List String
  complaint : Complaint
  quotable : Bool := true
  deriving DecidableEq, Repr

/-- A reader of fields. -/
abbrev Reader (α : Type) : Type := Json → Except Complaint α

/-- A text. -/
def readText : Reader String
  | .string text | .ragged text => .ok text
  | _ => .error .notText

/-- The bytes that a text stands for. -/
def readBytes : Reader (List UInt8)
  | .string text =>
    match bytesOfText? text with
    | some bytes => .ok bytes
    | none => .error .inputRange
  | .ragged _ => .error .inputRange
  | _ => .error .notText

/-- The words for off and the words for on, in lower case. -/
def switchWords : List String × List String :=
  (["0", "off", "f", "false", "n", "no"], ["1", "on", "t", "true", "y", "yes"])

/-- The switch that an integer sets. An integer is no switch at all if it does not fit into 64 bits. -/
def switchOfInteger (n : Int) : Except Complaint Bool :=
  if n = 0 then .ok false
  else if n = 1 then .ok true
  else if -wholeBound ≤ n ∧ n < wholeBound then .error .unreadableSwitch
  else .error .notASwitch

/-- A switch. -/
def readSwitch : Reader Bool
  | .bool b => .ok b
  | .integer n => switchOfInteger n
  | .decimal x =>
    match x.whole with
    | .integer n => switchOfInteger n
    | _ => .error .notASwitch
  | .string text =>
    if switchWords.1.contains text.toLower then .ok false
    else if switchWords.2.contains text.toLower then .ok true
    else .error .unreadableSwitch
  | .ragged _ => .error .unreadableSwitch
  | _ => .error .notASwitch

/-- An integer. -/
def readInteger : Reader Int
  | .integer n => .ok n
  | .bool b => .ok b.toNat
  | .decimal x =>
    match x.whole with
    | .integer n => .ok n
    | .fraction => .error .fractionalInteger
    | .outOfRange => .error .oversizedInteger
    | .infinite => .error .notFinite
  | .nonFinite _ => .error .notFinite
  | .string text =>
    match plainInteger text with
    | .ok n => .ok n
    | .error .oversized => .error .oversizedInteger
    | .error .unreadable => .error .unreadableInteger
  | .ragged _ => .error .unreadableInteger
  | _ => .error .notAnInteger

/-- An integer that is not negative. -/
def readNatural : Reader Nat := fun j =>
  match readInteger j with
  | .ok n => if n < 0 then .error (.below 0) else .ok n.toNat
  | .error e => .error e

/-- The most cells that a machine of the service may have. -/
def maxCapacity : Int := 1000000

/-- The number of cells of a machine. -/
def readCapacity : Reader Int := fun j =>
  match readInteger j with
  | .ok n => if n < 1 then .error (.below 1) else if maxCapacity < n then .error (.above maxCapacity) else .ok n
  | .error e => .error e

/-- A field of a body, or its value if the body does not have it. -/
def field {α : Type} (body : Json) (name : String) (absent : α) (reader : Reader α) : Except Problem α :=
  match body.field? name with
  | none => .ok absent
  | some value => (reader value).mapError (fun c => ⟨["body", name], c, value.quotable⟩)

/-- The problem of a field, if it has one. -/
def problem? {α : Type} : Except Problem α → Option Problem
  | .ok _ => none
  | .error p => some p

end Brainfuck.Service
