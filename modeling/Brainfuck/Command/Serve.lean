import Brainfuck.Command.Arguments
import Brainfuck.Text.Integer

/-!
# The command that serves requests

The command reads its arguments and says under which address the service is to run.
-/

namespace Brainfuck.Command

/-- Where the service is to run, how much it is to log, and its title. What an option without a value is about is left open. -/
structure ServeSettings where
  host : Option String := some "127.0.0.1"
  port : Option Int := some 8000
  logLevel : Option String := some "info"
  title : String := "tapebf API"
  deriving DecidableEq, Repr

/-- The names of the levels of the log. -/
def logLevels : List String := ["critical", "error", "warning", "info", "debug"]

/-- The number of the port that a text gives, or what is wrong with it. -/
def portOf (text : String) : Except String Int :=
  match groupedInteger? text with
  | none => .error ("invalid int value: " ++ quoted text)
  | some n => .ok n

/-- The level of the log that a text names, or what is wrong with it. -/
def logLevelOf (text : String) : Except String String :=
  if logLevels.contains text then .ok text
  else
    .error ("invalid choice: " ++ quoted text ++ " (choose from " ++ ", ".intercalate (logLevels.map quoted) ++ ")")

/-- The options of the command. -/
def serveInterface : Interface ServeSettings where
  choices :=
    [⟨["-h", "--help"], .help⟩,
      ⟨["--host"], .value (fun text s => .ok { s with host := text })⟩,
      ⟨["--port"], .value (fun text s => (text.mapM portOf).map (fun n => { s with port := n }))⟩,
      ⟨["--log-level"], .value (fun text s => (text.mapM logLevelOf).map (fun level => { s with logLevel := level }))⟩]
  operand := none

/-- The usage of the command. -/
def serveUsage : String :=
  "usage: tapebf [-h] [--host HOST] [--port PORT]\n" ++
  "              [--log-level \x7bcritical,error,warning,info,debug\x7d]\n"

/-- The help of the command. -/
def serveHelp : String :=
  serveUsage ++
  "\n" ++
  "Run the tapebf HTTP API server\n" ++
  "\n" ++
  "options:\n" ++
  "  -h, --help            show this help message and exit\n" ++
  "  --host HOST           Bind address (default: 127.0.0.1)\n" ++
  "  --port PORT           Port to listen on (default: 8000)\n" ++
  "  --log-level \x7bcritical,error,warning,info,debug\x7d\n" ++
  "                        uvicorn and application log level (default: info)\n"

/-- The settings of the arguments, or the end of the command if they ask for help or are wrong. -/
def readServeArguments (arguments : List String) : Except Exit ServeSettings :=
  match serveInterface.parse {} arguments with
  | .error e => .error (Exit.usage serveUsage e)
  | .ok .help => .error (Exit.help serveHelp)
  | .ok (.settings s) => .ok s

/-- The end of the command, and where it served, if it did. -/
def serve (arguments : List String) : Exit × Option ServeSettings :=
  match readServeArguments arguments with
  | .error exit => (exit, none)
  | .ok s => ({ code := 0 }, some s)

end Brainfuck.Command
