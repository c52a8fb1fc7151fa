import Brainfuck.Service.Request

/-!
# The service

The answers to requests, over a store of machines. A request is checked in a fixed order: its path, its method, its body or its
query, the machine it names, the program it brings; what is refused on the way leaves the store alone. A run on a stored machine
counts even if it fails, and the machine keeps what the run did to its tape.

A program may run for ever. A request is therefore answered with a number of steps, and the answer is none while the program of
the request takes more tokens than that.
-/

namespace Brainfuck.Service

/-- A run of compiled tokens on a machine with the given input and an empty output. -/
def execute (steps : Nat) (tokens : List Token) (input : List UInt8) (m : Machine) : Option (Machine × Outcome) :=
  (m.feed input).run steps tokens

/-- A reply that leaves the store alone. -/
def unchanged (s : Store) (reply : Reply) : Option (Reply × Store) := some (reply, s)

/-- A program on a new machine that is gone afterwards. -/
def runOnce (steps : Nat) (s : Store) (program : ProgramBody) (capacity : Int) : Option (Reply × Store) :=
  match Program.compile program.options program.source, Machine.create capacity with
  | .error e, _ => unchanged s (.uncompilable e)
  | .ok _, .error _ => unchanged s (.invalid [⟨["body", "tape_size"], .below 1, true⟩])
  | .ok tokens, .ok m =>
    (execute steps tokens program.input m).map fun
      | (m, .finished) =>
        (.ran m.output.written.toList tokens.length (State.ofMachine program.window none 1 m), s)
      | (_, .failed cause) => (.failed cause, s)

/-- A new machine in the store. -/
def create (s : Store) (capacity : Int) : Reply × Store :=
  match s.create capacity with
  | .error _ => (.invalid [⟨["body", "tape_size"], .below 1, true⟩], s)
  | .ok (r, s) => (.created (State.ofRecord defaultWindow r), s)

/-- A look at a stored machine. -/
def inspect (s : Store) (id : String) (window : Int) : Reply :=
  if window < 0 then .negativeWindow
  else
    match s.get id with
    | .error e => .unknown e
    | .ok r => .found (State.ofRecord window.toNat r)

/-- A program on a stored machine. -/
def runOn (steps : Nat) (s : Store) (id : String) (program : ProgramBody) : Option (Reply × Store) :=
  match s.get id, Program.compile program.options program.source with
  | .error e, _ => unchanged s (.unknown e)
  | .ok _, .error e => unchanged s (.uncompilable e)
  | .ok r, .ok tokens =>
    (execute steps tokens program.input r.machine).map fun (m, outcome) =>
      let record := { r with machine := m, runs := r.runs + 1 }
      match outcome with
      | .finished =>
        (.ran m.output.written.toList tokens.length (State.ofRecord program.window record), s.update record)
      | .failed cause => (.failed cause, s.update record)

/-- A stored machine with its tape blank and its runs counted from zero. -/
def reset (s : Store) (id : String) : Reply × Store :=
  match s.reset id with
  | .error e => (.unknown e, s)
  | .ok (r, s) => (.found (State.ofRecord defaultWindow r), s)

/-- The store without a machine. -/
def delete (s : Store) (id : String) : Reply × Store :=
  match s.remove id with
  | (true, s) => (.deleted, s)
  | (false, s) => (.nothingToDelete ⟨id⟩, s)

/-- The answer to a call, and the store after it. -/
def answer (steps : Nat) (s : Store) : Call → Option (Reply × Store)
  | .runOnce program capacity => runOnce steps s program capacity
  | .create capacity => some (create s capacity)
  | .inspect id window => unchanged s (inspect s id window)
  | .runOn id program => runOn steps s id program
  | .reset id => some (reset s id)
  | .delete id => some (delete s id)

/-- The answer to a request, and the store after it. -/
def handle (steps : Nat) (s : Store) (request : Request) : Option (Reply × Store) :=
  match request.call with
  | .ok call => answer steps s call
  | .error reply => unchanged s reply

/-- The answers to requests one after another, and the store after them. -/
def handleAll (steps : Nat) (s : Store) : List Request → Option (List Reply × Store)
  | [] => some ([], s)
  | request :: rest =>
    (handle steps s request).bind fun (reply, s) =>
      (handleAll steps s rest).map fun (replies, s) => (reply :: replies, s)

end Brainfuck.Service
