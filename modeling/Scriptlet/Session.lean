import Scriptlet.Bytecode.Compile
import Scriptlet.Bytecode.Listing
import Scriptlet.Machine.Run
import Scriptlet.Reader.Parse

/-! Sessions: scripts run one after the other with shared global variables. -/
namespace Scriptlet

/-- Why a script gave no value. -/
inductive ScriptError where
  | parse (error : SyntaxError)
  | compile (error : CompileError)
  | runtime (error : RuntimeError) (location : String)
  /-- The file could not be read. -/
  | unreadable (path cause : String)
  /-- The run was given too few steps. -/
  | unfinished

namespace ScriptError

/-- The message of the cause alone. -/
def cause : ScriptError → String
  | parse e => e.message
  | compile e => e.message
  | runtime e _ => e.message
  | unreadable _ cause => cause
  | unfinished => "Step limit reached"

/-- The message with the stage or the place at which the script failed. -/
def message : ScriptError → String
  | parse e => "ParseError: " ++ e.message
  | compile e => "CompileError: " ++ e.message
  | runtime e location => e.message ++ " (at " ++ location ++ ")"
  | unreadable path cause => "Failed to read " ++ path ++ ": " ++ cause
  | unfinished => unfinished.cause

end ScriptError

/-- Settings of the machine. -/
structure Limits where
  maxCallDepth : Nat := Machine.defaultMaxCallDepth
  /-- Whether the listing of a script is printed before it runs. -/
  debug : Bool := false
deriving DecidableEq

structure Session where
  machine : Machine
  debug : Bool

namespace Session

def start (limits : Limits) (output : Output) : Session :=
  ⟨.start limits.maxCallDepth output, limits.debug⟩

def output (s : Session) : Output := s.machine.output

def globals (s : Session) : List (String × Option Value) := s.machine.globals

def global? (s : Session) (name : String) : Option Value := s.machine.global? name

/-- Code for a script that sees the global variables of the session. -/
def compile (s : Session) (p : Program) : Except CompileError Code :=
  p.compileWith s.machine.globalNames

/-- Prints, and says whether everything could be printed. -/
def print (s : Session) (text : String) : Bool × Session :=
  let (ok, output) := s.output.write text
  (ok, { s with machine := { s.machine with output } })

/-- Runs code that was compiled for the session, for at most `fuel` steps. -/
def execute (fuel : Nat) (s : Session) (code : Code) : Except ScriptError Value × Session :=
  match (s.machine.load code).run fuel with
  | (.returned v, machine) => (.ok v, { s with machine })
  | (.failed e location, machine) => (.error (.runtime e location), { s with machine })
  | (.unfinished, machine) => (.error .unfinished, { s with machine })

def runProgram (fuel : Nat) (s : Session) (p : Program) : Except ScriptError Value × Session :=
  match s.compile p with
  | .error e => (.error (.compile e), s)
  | .ok code =>
    if s.debug then
      match s.print code.listing with
      | (true, s) => s.execute fuel code
      | (false, s) => (.error (.runtime (.outputFailed Output.full) code.name), s)
    else s.execute fuel code

/-- Runs a script. Its value is that of a return outside every function, else undefined. -/
def run (fuel : Nat) (s : Session) (source : String) : Except ScriptError Value × Session :=
  match Program.parse source with
  | .error e => (.error (.parse e), s)
  | .ok p => s.runProgram fuel p

end Session
end Scriptlet
