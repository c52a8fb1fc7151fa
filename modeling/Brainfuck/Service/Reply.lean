import Brainfuck.Message
import Brainfuck.Service.Field
import Brainfuck.Store

/-!
# Replies

What the service answers: a status and a JSON body, which may be a mere text, or no body. A reply shows the part of a tape around
the cursor. The window is cut off at the two ends of the tape; it does not go round.
-/

namespace Brainfuck.Service

/-- What is shown of a machine: its identifier if it is a stored one, its capacity and cursor, a part of the tape and the index
where it begins, and the number of its runs. -/
structure State where
  machineId : Option String
  capacity : Int
  cursor : Int
  tapeStart : Nat
  tape : List UInt8
  runs : Nat
  deriving DecidableEq, Repr

/-- What is shown of a machine with up to `window` cells on either side of the cursor. -/
def State.ofMachine (window : Nat) (machineId : Option String) (runs : Nat) (m : Machine) : State where
  machineId := machineId
  capacity := m.capacity
  cursor := m.tape.cursor
  tapeStart := (m.tape.cursor - window).toNat
  tape := m.tape.slice (m.tape.cursor - window).toNat (min m.capacity (m.tape.cursor + window + 1)).toNat
  runs := runs

/-- What is shown of a stored machine. -/
def State.ofRecord (window : Nat) (r : Record) : State := State.ofMachine window (some r.id) r.runs r.machine

/-- An answer of the service. -/
inductive Reply where
  | ran (output : List UInt8) (tokenCount : Nat) (state : State)
  | created (state : State)
  | found (state : State)
  | deleted
  | invalid (problems : List Problem)
  | unreadableBody
  | internalError
  | negativeWindow
  | uncompilable (loop : UnmatchedLoop)
  | failed (cause : RuntimeError)
  | unknown (e : UnknownMachine)
  | nothingToDelete (e : UnknownMachine)
  | methodNotAllowed
  | movedPath
  | notFound
  | bare (status : Nat)
  deriving DecidableEq, Repr

/-- The reply to what has problems. It reports them, which fails if a value that they are about cannot be quoted. -/
def Reply.ofProblems (problems : List Problem) : Reply :=
  if problems.all (·.quotable) then .invalid problems else .internalError

/-- The status code of a reply. -/
def Reply.status : Reply → Nat
  | .ran .. => 200
  | .created _ => 201
  | .found _ => 200
  | .deleted => 204
  | .invalid _ => 422
  | .unreadableBody => 400
  | .internalError => 500
  | .negativeWindow => 422
  | .uncompilable _ => 422
  | .failed _ => 409
  | .unknown _ => 404
  | .nothingToDelete _ => 404
  | .methodNotAllowed => 405
  | .movedPath => 307
  | .notFound => 404
  | .bare status => status

/-- The reply without its body. -/
def Reply.withoutBody (r : Reply) : Reply := .bare r.status

/-! ## Bodies -/

/-- A list of bytes as numbers. -/
def bytesJson (bytes : List UInt8) : Json := .array (bytes.map (fun b => .integer b.toNat))

/-- What is shown of a machine, as an object. -/
def State.toJson (s : State) : Json :=
  .object [("machine_id", (s.machineId.map Json.string).getD .null), ("capacity", .integer s.capacity),
    ("cursor", .integer s.cursor), ("tape_start", .integer s.tapeStart), ("tape", bytesJson s.tape),
    ("runs", .integer s.runs)]

/-- A problem as an object. -/
def Problem.toJson (p : Problem) : Json :=
  .object [("type", .string p.complaint.code), ("msg", .string p.complaint.message),
    ("loc", .array (p.location.map .string))]

/-- The object that gives the reason of a refusal. -/
def detail (reason : Json) : Json := .object [("detail", reason)]

/-- The body of a reply; null is no body. -/
def Reply.body : Reply → Json
  | .ran output tokenCount state =>
    .object [("output", .string (textOfBytes output)), ("output_bytes", bytesJson output),
      ("token_count", .integer tokenCount), ("state", state.toJson)]
  | .created state => state.toJson
  | .found state => state.toJson
  | .deleted => .null
  | .invalid problems => detail (.array (problems.map Problem.toJson))
  | .unreadableBody => detail (.string "There was an error parsing the body")
  | .internalError => .string "Internal Server Error"
  | .negativeWindow => detail (.string "tape_window must be non-negative")
  | .uncompilable loop => detail (.object [("message", .string loop.message), ("index", .integer loop.index)])
  | .failed cause => detail (.string cause.message)
  | .unknown e => detail (.string (quoted e.message))
  | .nothingToDelete e => detail (.string e.message)
  | .methodNotAllowed => detail (.string "Method Not Allowed")
  | .movedPath => .null
  | .notFound => detail (.string "Not Found")
  | .bare _ => .null

end Brainfuck.Service
