import Brainfuck.Command.Arguments
import Brainfuck.Command.Files
import Brainfuck.Message
import Brainfuck.Text.Integer
import Brainfuck.Text.Utf8

/-!
# The command that runs a program

The command reads its arguments, checks the extension of the source file, reads the file, compiles it and runs it on a machine
with the given input. The first of these that fails ends it: with exit code 2 for the arguments and the extension, and with 1
for the rest. Its output is what the program wrote and nothing else, also when the run fails; all that it has to say for itself
goes to the error output.
-/

namespace Brainfuck.Command

/-! ## Arguments -/

/-- What the command is told to do. There is no tape size if the option for it is given without a value. -/
structure RunSettings where
  source : String := ""
  force : Bool := false
  tapeSize : Option Int := some Machine.defaultCapacity
  optimize : Bool := true
  compress : Bool := true
  verbose : Bool := false
  deriving DecidableEq, Repr

/-- The tape size that a text gives, or what is wrong with it. -/
def tapeSizeOf (text : String) : Except String Int :=
  match groupedInteger? text with
  | none => .error ("invalid _tape_size value: " ++ quoted text)
  | some n => if n < 1 then .error "tape size must be at least 1" else .ok n

/-- The options of the command, and its operand, the path of the source. -/
def runInterface : Interface RunSettings where
  choices :=
    [⟨["-h", "--help"], .help⟩,
      ⟨["--force"], .switch (fun s => { s with force := true })⟩,
      ⟨["--tape-size"], .value (fun text s => (text.mapM tapeSizeOf).map (fun n => { s with tapeSize := n }))⟩,
      ⟨["--no-optimize"], .switch (fun s => { s with optimize := false })⟩,
      ⟨["--no-compress"], .switch (fun s => { s with compress := false })⟩,
      ⟨["-v", "--verbose"], .switch (fun s => { s with verbose := true })⟩]
  operand := some ⟨"source", fun text s => { s with source := text }⟩

/-- The usage of the command. -/
def runUsage : String :=
  "usage: tapebf [-h] [--force] [--tape-size TAPE_SIZE] [--no-optimize]\n" ++
  "              [--no-compress] [-v]\n" ++
  "              source\n"

/-- The help of the command. -/
def runHelp : String :=
  runUsage ++
  "\n" ++
  "Run a Brainfuck program\n" ++
  "\n" ++
  "positional arguments:\n" ++
  "  source                Path to a Brainfuck source file (.bf or .b)\n" ++
  "\n" ++
  "options:\n" ++
  "  -h, --help            show this help message and exit\n" ++
  "  --force               Run the file even if its extension is not recognised\n" ++
  "  --tape-size TAPE_SIZE\n" ++
  "                        Number of tape cells (default: 30000)\n" ++
  "  --no-optimize         Skip comment stripping and +-/<> cancellation\n" ++
  "  --no-compress         Execute one token per command instead of run-length\n" ++
  "                        compressed tokens\n" ++
  "  -v, --verbose         Log pipeline details to stderr\n"

/-- The settings of the arguments, or the end of the command if they ask for help or are wrong. -/
def readRunArguments (arguments : List String) : Except Exit RunSettings :=
  match runInterface.parse {} arguments with
  | .error e => .error (Exit.usage runUsage e)
  | .ok .help => .error (Exit.help runHelp)
  | .ok (.settings s) => .ok s

/-! ## The source file -/

/-- The extensions of source files. -/
def sourceExtensions : List String := [".bf", ".b"]

/-- Why there is no text to compile. -/
inductive SourceError where
  | badExtension
  | missing
  | isDirectory
  | nameTooLong
  | refused (code : Nat) (reason : String)
  | notUtf8 (fault : Utf8.Fault)
  deriving DecidableEq, Repr

/-- The wording of octets that are not UTF-8. -/
def utf8Message (f : Utf8.Fault) : String :=
  let octets :=
    if f.length = 1 then "byte 0x" ++ String.ofList (hex 2 f.octet.toNat) ++ s!" in position {f.position}"
    else s!"bytes in position {f.position}-{f.position + f.length - 1}"
  "'utf-8' codec can't decode " ++ octets ++ ": " ++ f.reason.message

/-- The wording of a source that the system does not read, with the code and the reason that it gives. -/
def systemMessage (name : String) (code : Nat) (reason : String) : String :=
  "Cannot read " ++ name ++ s!": [Errno {code}] {reason}: " ++ quoted (Path.ofText name).toText

/-- The wording of a source that cannot be read, under the name by which the command was given it. -/
def SourceError.message (name : String) : SourceError → String
  | .badExtension =>
    "Unrecognized source extension for " ++ name ++ " (expected one of " ++ ", ".intercalate sourceExtensions ++
      "; use --force to override)"
  | .missing => "Source file not found: " ++ name
  | .isDirectory => systemMessage name 21 "Is a directory"
  | .nameTooLong => systemMessage name 36 "File name too long"
  | .refused code reason => systemMessage name code reason
  | .notUtf8 fault => "Cannot read " ++ name ++ ": " ++ utf8Message fault

/-- The exit code for a source that cannot be read. -/
def SourceError.code : SourceError → Nat
  | .badExtension => 2
  | _ => 1

/-- A text with each carriage return, together with the line feed after it if there is one, made a line feed. -/
def normalizeLines : List Char → List Char
  | [] => []
  | '\r' :: '\n' :: rest => '\n' :: normalizeLines rest
  | '\r' :: rest => '\n' :: normalizeLines rest
  | c :: rest => c :: normalizeLines rest

/-- The text of what is found under a path. -/
def sourceText : Entry → Except SourceError (List Char)
  | .missing => .error .missing
  | .directory => .error .isDirectory
  | .nameTooLong => .error .nameTooLong
  | .refused code reason => .error (.refused code reason)
  | .file bytes =>
    match Utf8.decode bytes with
    | .ok text => .ok (normalizeLines text)
    | .error fault => .error (.notUtf8 fault)

/-- The extension of a source is one that is known; case does not count. -/
def knownExtension (name : String) : Bool := sourceExtensions.contains (Path.ofText name).extension.toLower

/-- The text of the source, given what is found under its path. Nothing is read if the extension is not known, unless that is
forced. -/
def readSource (s : RunSettings) (entry : Entry) : Except SourceError (List Char) :=
  if !s.force && !knownExtension s.source then .error .badExtension else sourceText entry

/-! ## The run -/

/-- A line of the log, if the command is verbose. -/
def logLine (s : RunSettings) (text : String) : String :=
  if s.verbose then "DEBUG tapebf.cli: " ++ text ++ "\n" else ""

/-- The end of the command from its tokens and the number of cells on. -/
def runTokens (steps : Nat) (log : String) (tokens : List Token) (capacity : Int) (stdin : List UInt8) : Option Exit :=
  match Machine.create capacity with
  | .error e => some { code := 1, stderr := log ++ "Runtime error: " ++ e.message ++ "\n" }
  | .ok m =>
    ((m.feed stdin).run steps tokens).map fun (m, outcome) =>
      let stdout := m.output.written.toList
      match outcome with
      | .finished => { code := 0, stdout := stdout, stderr := log }
      | .failed cause => { code := 1, stdout := stdout, stderr := log ++ "Runtime error: " ++ cause.message ++ "\n" }

/-- The end of the command from the text of its source on. Without a tape size nothing is run. -/
def runText (steps : Nat) (s : RunSettings) (text : List Char) (stdin : List UInt8) : Option Exit :=
  match Program.compile ⟨s.optimize, s.compress⟩ text with
  | .error e => some { code := 1, stderr := "Parse error: " ++ e.message ++ "\n" }
  | .ok tokens =>
    let log := logLine s s!"compiled {text.length} characters into {tokens.length} tokens"
    match s.tapeSize with
    | none => some { code := 1, stderr := log }
    | some capacity => runTokens steps (log ++ logLine s s!"running on a {capacity}-cell tape") tokens capacity stdin

/-- The end of the command with its settings, given what is found under the path of its source. -/
def runEntry (steps : Nat) (s : RunSettings) (entry : Entry) (stdin : List UInt8) : Option Exit :=
  match readSource s entry with
  | .error e => some { code := e.code, stderr := e.message s.source ++ "\n" }
  | .ok text => runText steps s text stdin

/-- The end of the command, if at most `steps` tokens bring it about. -/
def run (steps : Nat) (arguments : List String) (files : FileTree) (stdin : List UInt8) : Option Exit :=
  match readRunArguments arguments with
  | .error exit => some exit
  | .ok s => runEntry steps s (files.find (Path.ofText s.source)) stdin

end Brainfuck.Command
