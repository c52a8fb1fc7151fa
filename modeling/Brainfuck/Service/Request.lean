import Brainfuck.Json.Encoding
import Brainfuck.Service.Address
import Brainfuck.Service.Reply

/-!
# Requests

What the service is asked for. The address of a request says which resource it is about, and the method what is to be done with
it. A path with slashes behind that of a resource leads nowhere, and the reply to it says where the resource is.
A body is an object with fields that all have a value of their own if they are left out, and a body is refused with all that is
wrong with it, in the order of the fields.

A request that passes all checks which do not need the store is a call (`Request.call`); one that does not has its reply already.
-/

namespace Brainfuck.Service

/-- A request: its method, the address it goes to, and its body, which is empty if it has none. -/
structure Request where
  method : String
  target : String
  body : String := ""
  deriving DecidableEq, Repr

/-- What is to be done with a resource. To be told its head is to be told about it without a body. -/
inductive Method where
  | get | head | post | delete | other
  deriving DecidableEq, Repr

/-- The capitals of a letter. The long s and two ligatures are the letters beyond ASCII whose capitals are those of a method. -/
def capitals : Char → List Char
  | 'ſ' => ['S']
  | 'ﬅ' | 'ﬆ' => ['S', 'T']
  | c => [c.toUpper]

/-- The method of a name; case does not count. -/
def Method.ofText (text : String) : Method :=
  match String.ofList (text.toList.flatMap capitals) with
  | "GET" => .get
  | "HEAD" => .head
  | "POST" => .post
  | "DELETE" => .delete
  | _ => .other

/-! ## Paths -/

/-- What a path leads to. -/
inductive Resource where
  | run
  | machines
  | machine (id : String)
  | machineRun (id : String)
  | machineReset (id : String)
  deriving DecidableEq, Repr

/-- The resource of a path in pieces. -/
def Resource.ofSegments? (segments : List (List Char)) : Option Resource :=
  match segments.map String.ofList with
  | ["", "api", "run"] => some .run
  | ["", "api", "machine"] => some .machines
  | ["", "api", "machine", id] => if id.isEmpty then none else some (.machine id)
  | ["", "api", "machine", id, "run"] => if id.isEmpty then none else some (.machineRun id)
  | ["", "api", "machine", id, "reset"] => if id.isEmpty then none else some (.machineReset id)
  | _ => none

/-- The resource of a decoded path. A line feed at its end does not count, unless an identifier ends there. -/
def Resource.ofPath? (path : List Char) : Option Resource :=
  (ofSegments? (cut '/' path)).or
    (if path.getLast? = some '\n' then ofSegments? (cut '/' path.dropLast) else none)

/-- A text without the slashes at its end. -/
def dropSlashes (text : List Char) : List Char := (text.reverse.dropWhile (· = '/')).reverse

/-- What a decoded path leads to, or the reply that it gets if it leads nowhere. A path that leads somewhere without
the slashes at its end only is said to have moved. -/
def resourceAt (path : List Char) : Except Reply Resource :=
  match Resource.ofPath? path with
  | some resource => .ok resource
  | none =>
    if path.getLast? = some '/' && (Resource.ofPath? (dropSlashes path)).isSome then .error .movedPath
    else .error .notFound

/-! ## Queries -/

/-- A name or a value of a query: a plus is a blank, and the rest is percent-encoded. -/
def queryText (text : List Char) : List Char :=
  Percent.decode (text.map (fun c => if c = '+' then ' ' else c))

/-- The parameters of a query with their values. A parameter without a value has an empty one. -/
def parameters (query : List Char) : List (String × String) :=
  ((cut '&' query).filter (· ≠ [])).map fun piece =>
    let name := piece.takeWhile (· ≠ '=')
    (String.ofList (queryText name), String.ofList (queryText (piece.drop (name.length + 1))))

/-- The value of a parameter: the last one given. -/
def parameter? (query : List Char) (name : String) : Option String :=
  ((parameters query).reverse.find? (fun p => p.1 == name)).map (·.2)

/-! ## Bodies -/

/-- A program to run: its source, its input, how it is compiled, and how much of the tape to show around the cursor. -/
structure ProgramBody where
  source : List Char
  input : List UInt8
  options : Program.Options
  window : Nat
  deriving DecidableEq, Repr

/-- How much of the tape is shown around the cursor if a request does not say it. -/
def defaultWindow : Nat := 10

/-- The object in a body, or the reply to a body without one. -/
def bodyObject (body : String) : Except Reply Json :=
  if body.isEmpty then .error (.ofProblems [⟨["body"], .missing, true⟩])
  else
    match Json.ofText body with
    | .error .malformed => .error (.ofProblems [⟨["body"], .invalidJson, true⟩])
    | .error .refused => .error .unreadableBody
    | .ok (.object fields) => .ok (.object fields)
    | .ok (.raggedObject fields) => .ok (.raggedObject fields)
    | .ok value => .error (.ofProblems [⟨["body"], .notAnObject, value.quotable⟩])

/-- The program in a body. -/
def readProgram (body : Json) : Except (List Problem) ProgramBody :=
  let source := field body "code" "" readText
  let input := field body "input" [] readBytes
  let optimize := field body "optimize" true readSwitch
  let compress := field body "compress" true readSwitch
  let window := field body "tape_window" defaultWindow readNatural
  match source, input, optimize, compress, window with
  | .ok source, .ok input, .ok optimize, .ok compress, .ok window =>
    .ok ⟨source.toList, input, ⟨optimize, compress⟩, window⟩
  | _, _, _, _, _ =>
    .error ([problem? source, problem? input, problem? optimize, problem? compress, problem? window].filterMap id)

/-- The number of cells in a body. -/
def readTapeSize (body : Json) : Except (List Problem) Int :=
  (field body "tape_size" Machine.defaultCapacity readCapacity).mapError ([·])

/-- The problems of a part of a body. -/
def problems {α : Type} : Except (List Problem) α → List Problem
  | .ok _ => []
  | .error ps => ps

/-- The program and the number of cells in a body. -/
def readRun (body : Json) : Except (List Problem) (ProgramBody × Int) :=
  let program := readProgram body
  let capacity := readTapeSize body
  match program, capacity with
  | .ok program, .ok capacity => .ok (program, capacity)
  | _, _ => .error (problems program ++ problems capacity)

/-- The window that a query asks for, which may be negative. -/
def readWindow (query : List Char) : Except (List Problem) Int :=
  match parameter? query "tape_window" with
  | none => .ok defaultWindow
  | some text => (readInteger (.string text)).mapError (fun c => [⟨["query", "tape_window"], c, true⟩])

/-! ## Calls -/

/-- What the service is called for, with all that it needs to know. -/
inductive Call where
  | runOnce (program : ProgramBody) (capacity : Int)
  | create (capacity : Int)
  | inspect (id : String) (window : Int)
  | runOn (id : String) (program : ProgramBody)
  | reset (id : String)
  | delete (id : String)
  deriving DecidableEq, Repr

/-- What a reader makes of the object in a body, or the reply to a body that it has problems with. -/
def readBody {α : Type} (body : String) (reader : Json → Except (List Problem) α) : Except Reply α :=
  (bodyObject body).bind fun object => (reader object).mapError .ofProblems

/-- The call that a request makes if its method is one to be told more than the head of a reply, or the reply that refuses it. -/
def callAt (address : Address) (method : Method) (body : String) : Except Reply Call :=
  match resourceAt address.place with
  | .error reply => .error reply
  | .ok resource =>
    match resource, method with
    | .run, .post => (readBody body readRun).map fun b => .runOnce b.1 b.2
    | .machines, .post => (readBody body readTapeSize).map .create
    | .machine id, .get => ((readWindow address.query).mapError .ofProblems).map (.inspect id)
    | .machine id, .delete => .ok (.delete id)
    | .machineRun id, .post => (readBody body readProgram).map (.runOn id)
    | .machineReset id, .post => .ok (.reset id)
    | _, _ => .error .methodNotAllowed

/-- The call that a request makes, or the reply that refuses it. No resource lets itself be asked for the head alone. -/
def Request.call (r : Request) : Except Reply Call :=
  let method := Method.ofText r.method
  let call := callAt (Address.ofText r.target.toList) method r.body
  if method = .head then call.mapError Reply.withoutBody else call

end Brainfuck.Service
