import Brainfuck.Binary64

/-!
# JSON values

The values that requests and answers are written in. Integers are exact and of any size. A number with a fraction or an
exponent is a value of its own kind, and so are the three names of numbers that are not finite. An object keeps its fields in
the order in which they were written, repeated names included; the last field of a name is the one that counts.

A string may hold one half of a surrogate pair without the other half. Such a string is ragged: it is kept with U+FFFD in the
place of each half that stands alone. An object with a ragged name is ragged as well. Nobody asks for a field of such a name, so
a ragged object keeps its other fields only.

A value can be quoted in an answer if it can be written again. A ragged value cannot, and neither can a number that is not
finite or a value that nests too deep (`Json.quotable`).
-/

namespace Brainfuck

/-- A JSON value. -/
inductive Json where
  | null
  | bool (b : Bool)
  | integer (n : Int)
  | decimal (x : Decimal)
  | nonFinite (name : String)
  | string (text : String)
  | ragged (text : String)
  | array (items : List Json)
  | object (fields : List (String × Json))
  | raggedObject (fields : List (String × Json))
  deriving Repr, Inhabited

namespace Json

/-- The value of a name among some fields: that of the last one written. -/
def lastOf (name : String) (fields : List (String × Json)) : Option Json :=
  (fields.reverse.find? (fun f => f.1 == name)).map (·.2)

/-- The field of a name, and none in a value that is not an object. -/
def field? (name : String) : Json → Option Json
  | .object fields | .raggedObject fields => lastOf name fields
  | _ => none

/-- The most arrays and objects that may stand inside each other in a value that is quoted. -/
def maxQuotedNesting : Nat := 959

/-- A field of a name like this one is left out where its object is quoted. -/
def isUnquotedName (name : String) : Bool := "_sa".toList.isPrefixOf name.toList

mutual

/-- A value can be written again if at most `nesting` arrays and objects may stand inside each other. -/
def fits (nesting : Nat) : Json → Bool
  | .null | .bool _ | .integer _ | .string _ => true
  | .decimal x => x.isFinite
  | .nonFinite _ | .ragged _ | .raggedObject _ => false
  | .array items => nesting ≠ 0 && itemsFit (nesting - 1) items
  | .object fields => nesting ≠ 0 && fieldsFit (nesting - 1) fields

/-- All of some values can be written again. -/
def itemsFit (nesting : Nat) : List Json → Bool
  | [] => true
  | item :: rest => item.fits nesting && itemsFit nesting rest

/-- The fields that count can be written again. A field does not count if another of its name follows, or if its name is left
out. -/
def fieldsFit (nesting : Nat) : List (String × Json) → Bool
  | [] => true
  | (name, item) :: rest =>
    (rest.any (fun f => f.1 == name) || isUnquotedName name || item.fits nesting) && fieldsFit nesting rest

end

/-- A value can be quoted. -/
def quotable (value : Json) : Bool := value.fits maxQuotedNesting

end Json

end Brainfuck
