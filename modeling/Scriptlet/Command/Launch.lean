import Scriptlet.Command.Parse
import Scriptlet.Command.Run
import Scriptlet.Settings.Dotenv

/-! The program as a whole, from its arguments to its exit code. -/
namespace Scriptlet

/-- How the program ended. -/
structure Exit where
  code : UInt8
  output : String
  errors : String

namespace UsageError

def usage : String :=
"Usage: jss [--config <CONFIG>] <COMMAND>

Commands:
  run    Run a script
  dis    Print the bytecode of a script without running it
  parse  Print the syntax tree of a script as JSON
  repl   Start an interactive session
  bench  Time the summation workload under the interpreter
  help   Print this message
"

def message : UsageError → String
  | helpWanted => usage
  | versionWanted => Prompt.banner ++ "\n"
  | noArguments => usage
  | noCommand => "error: a subcommand is required\n\n" ++ usage
  | unknownCommand => "error: unrecognized subcommand\n\n" ++ usage
  | unknownArgument => "error: unexpected argument\n\n" ++ usage
  | missingOperand => "error: a required argument was not provided\n\n" ++ usage
  | missingValue => "error: a value is required\n\n" ++ usage
  | invalidValue => "error: invalid value\n\n" ++ usage
  | unexpectedValue => "error: unexpected value\n\n" ++ usage
  | repeatedOption => "error: an option cannot be used multiple times\n\n" ++ usage

/-- What was asked for is printed, all else is an error. -/
def exit (e : UsageError) : Exit :=
  if e.exitCode = 0 then ⟨0, e.message, ""⟩ else ⟨e.exitCode, "", e.message⟩

end UsageError

def Outcome.exit (o : Outcome) : Exit :=
  match o.failure with
  | none => ⟨0, o.printed, ""⟩
  | some failure => ⟨1, o.printed, "Error: " ++ failure ++ "\n"⟩

namespace Launch

/-- The file that defines further variables. -/
def variablesFile : String := ".env"

variable {m : Type → Type} [Monad m]

/-- The variables together with those of the file, if there is one. -/
def allVariables (host : Host m) (vars : Variables) : m Variables := do
  match ← host.read variablesFile with
  | .ok text => return Dotenv.extend vars text
  | .error _ => return vars

/-- Runs the program; `input` is what is entered at a prompt. -/
def run (host : Host m) (fuel : Nat) (vars : Variables) (input : String) (args : List String) :
    m Exit := do
  let vars ← allVariables host vars
  match Invocation.parse args with
  | .error e => return e.exit
  | .ok invocation => return (← invocation.execute host fuel vars input).exit

end Launch
end Scriptlet
