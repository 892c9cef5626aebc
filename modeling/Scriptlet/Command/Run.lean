import Scriptlet.Command.Basic
import Scriptlet.Prompt.Dialogue
import Scriptlet.Syntax.Json
import Scriptlet.Text.Lines

/-! Carrying out commands. -/
namespace Scriptlet

/-- What a command printed, and why it failed if it did. -/
structure Outcome where
  printed : String
  failure : Option String

namespace Outcome

def ok (printed : String) : Outcome := ⟨printed, none⟩

def failed (printed failure : String) : Outcome := ⟨printed, some failure⟩

end Outcome

namespace Command

/-- What a command sets itself. -/
def overrides : Command → Settings.Overrides
  | run _ listing maxCallDepth => ⟨maxCallDepth, if listing then some true else none⟩
  | _ => {}

def unlines (ls : List String) : String := String.join (ls.map (· ++ "\n"))

variable {m : Type → Type} [Monad m]

def runFile (host : Host m) (fuel : Nat) (limits : Limits) (file : String) : m Outcome := do
  match ← host.read file with
  | .error fault => return .failed "" (ScriptError.unreadable file fault.message).message
  | .ok source =>
    match (Session.start limits .unlimited).run fuel source with
    | (.ok _, s) => return .ok s.output.text
    | (.error e, s) => return .failed s.output.text e.message

/-- The syntax tree of a file. -/
def parseFile (host : Host m) (file : String) : m (Except String Program) := do
  match ← host.read file with
  | .error _ => return .error ("Failed to read " ++ file)
  | .ok source =>
    match Program.parse source with
    | .ok p => return .ok p
    | .error e => return .error (ScriptError.parse e).message

def listFile (host : Host m) (file : String) : m Outcome := do
  match ← parseFile host file with
  | .error message => return .failed "" message
  | .ok p =>
    match p.compileWith [] with
    | .ok code => return .ok code.listing
    | .error e => return .failed "" (ScriptError.compile e).message

def printTree (host : Host m) (file : String) : m Outcome := do
  match ← parseFile host file with
  | .error message => return .failed "" message
  | .ok p => return .ok (p.toText ++ "\n")

/-- A prompt at which all lines of a text are entered. -/
def promptWith (host : Host m) (fuel : Nat) (settings : Settings) (input : String) : m Outcome := do
  let d := (← Dialogue.start host settings .unlimited).enterAll fuel (Text.lines input)
  d.finish host settings
  return .ok (Prompt.banner ++ "\n" ++ d.prompt.session.output.text)

def measureWith (host : Host m) (fuel : Nat) (limits : Limits) (params : Workload.Params) :
    m Outcome := do
  let announced := unlines (Workload.announcement params.n params.runs params.script)
  match ← Workload.measure host fuel limits params with
  | .ok report => return .ok (announced ++ unlines report.lines)
  | .error e => return .failed announced e.message

/-- Carries out a command; `input` is what is entered at a prompt. -/
def execute (host : Host m) (fuel : Nat) (settings : Settings) (input : String) :
    Command → m Outcome
  | run file _ _ => runFile host fuel settings.limits file
  | list file => listFile host file
  | tree file => printTree host file
  | prompt => promptWith host fuel settings input
  | measure params => measureWith host fuel settings.limits params

end Command

namespace Invocation

def settingsFailure : String := "Failed to load configuration"

variable {m : Type → Type} [Monad m]

def settings (host : Host m) (vars : Variables) (i : Invocation) :
    m (Except SettingsError Settings) :=
  Settings.load host vars i.settingsFile i.command.overrides

/-- Carries out a command under its settings. -/
def execute (host : Host m) (fuel : Nat) (vars : Variables) (input : String) (i : Invocation) :
    m Outcome := do
  match ← i.settings host vars with
  | .ok settings => i.command.execute host fuel settings input
  | .error _ => return .failed "" settingsFailure

end Invocation
end Scriptlet
