import Brainfuck.Command.Run

/-!
# The program

The command that runs a program, on the files and the streams of its process.
-/

namespace Brainfuck.Command

/-- What the file system has under a path. -/
def lookUp (p : Path) : IO Entry := do
  try
    return .file (← IO.FS.readBinFile p.toText).toList
  catch
    | .inappropriateType _ code _ => return if code = 21 then .directory else .missing
    | .invalidArgument _ code _ => return if code = 36 then .nameTooLong else .missing
    | .noFileOrDirectory .. => return .missing
    | .permissionDenied _ code reason => return .refused code.toNat reason
    | e => throw e

/-- The bytes of the standard input, if a program reads any. -/
def inputFor (tokens : List Token) : IO (List UInt8) := do
  if tokens.any (fun t => t.kind = .input) then
    return (← (← IO.getStdin).readBinToEnd).toList
  return []

/-- The tokens that the command is going to run, and none if it does not come to that. -/
def tokensOf (s : RunSettings) (entry : Entry) : List Token :=
  match (readSource s entry).toOption.bind (fun text => (Program.compile ⟨s.optimize, s.compress⟩ text).toOption) with
  | some tokens => tokens
  | none => []

/-- The end of the command on the files and the input of the process. -/
def runHere (arguments : List String) : IO Exit := do
  match readRunArguments arguments with
  | .error exit => return exit
  | .ok s =>
    let entry ← lookUp (Path.ofText s.source)
    let stdin ← inputFor (tokensOf s entry)
    match runEntry Machine.manySteps s entry stdin with
    | some exit => return exit
    | none => throw (IO.userError "the program does not come to an end")

end Brainfuck.Command

/-- The program: it writes what the command wrote, and gives its exit code back. -/
def main (arguments : List String) : IO UInt32 := do
  let exit ← Brainfuck.Command.runHere arguments
  let stdout ← IO.getStdout
  stdout.write (ByteArray.mk exit.stdout.toArray)
  stdout.flush
  (← IO.getStderr).putStr exit.stderr
  return UInt32.ofNat exit.code
