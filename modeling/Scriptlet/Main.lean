import Scriptlet.Command.Launch

/-! The program at a terminal. -/
namespace Scriptlet.Terminal

/-- Steps that a script may take, more than it can in practice. -/
def stepLimit : Nat := Nat.pow 10 18

/-- The fault with a number of the operating system, which may be given with a minus sign. -/
def faultOfCode (code : UInt32) (e : IO.Error) : FileFault :=
  let code := min code (0 - code)
  if code = 2 then .notFound
  else if code = 20 then .notADirectory
  else if code = 21 then .isDirectory
  else if code = 36 then .nameTooLong
  else .other (toString e)

def fileFault (e : IO.Error) : FileFault :=
  match e with
  | .noFileOrDirectory _ code _ => faultOfCode code e
  | .inappropriateType _ code _ => faultOfCode code e
  | .invalidArgument _ code _ => faultOfCode code e
  | .otherError code _ => faultOfCode code e
  | e => .other (toString e)

/-- The files and the clock of the machine. -/
def host : Host IO where
  read path := do
    if path.toList.contains '\x00' then return .error .nameWithNul
    try
      let bytes ← IO.FS.readBinFile path
      match String.fromUTF8? bytes with
      | some text => return .ok text
      | none => return .error .notText
    catch e => return .error (fileFault e)
  write path text := do
    try IO.FS.writeFile path text
    catch _ => pure ()
  timed f := do
    let start ← IO.monoNanosNow
    let a ← IO.lazyPure f
    let stop ← IO.monoNanosNow
    return (a, stop - start)

/-- The variables that settings have, as far as they are set. -/
def knownVariables : IO Variables := do
  let set ← Settings.variableNames.filterMapM fun name => do
    return (← IO.getEnv name).map fun value => (name, value)
  Launch.allVariables host set

/-- Takes lines until the input ends, and prints what each of them brings. -/
partial def converse (settings : Settings) (input output : IO.FS.Stream) (d : Dialogue) :
    IO Dialogue := do
  if ← input.isTty then
    output.putStr (if d.prompt.isPending then settings.ps2 else settings.ps1)
    output.flush
  match Text.lines (← input.getLine) with
  | [] => return d
  | line :: _ =>
    let printed := d.prompt.session.output.bytes.size
    let (_, d) := d.enter stepLimit line
    output.putStr (d.prompt.session.output.textFrom printed)
    output.flush
    converse settings input output d

/-- A prompt at the terminal. -/
def prompt (settings : Settings) : IO Unit := do
  let output ← IO.getStdout
  let d ← Dialogue.start host settings .unlimited
  output.putStrLn Prompt.banner
  let d ← converse settings (← IO.getStdin) output d
  d.finish host settings

/-- Carries out an invocation. All commands but the prompt print when they are done. -/
def start (vars : Variables) (i : Invocation) : IO Exit := do
  match i.command with
  | .prompt =>
    match ← i.settings host vars with
    | .ok settings =>
      prompt settings
      return (Outcome.ok "").exit
    | .error _ => return (Outcome.failed "" Invocation.settingsFailure).exit
  | _ => return (← i.execute host stepLimit vars "").exit

end Scriptlet.Terminal

open Scriptlet

def main (args : List String) : IO UInt32 := do
  let exit ← match Invocation.parse args with
    | .ok invocation => Terminal.start (← Terminal.knownVariables) invocation
    | .error e => pure e.exit
  IO.print exit.output
  IO.eprint exit.errors
  return exit.code.toUInt32
