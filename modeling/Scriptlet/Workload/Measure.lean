import Scriptlet.Host
import Scriptlet.Session
import Scriptlet.Text.Blank
import Scriptlet.Workload.Report
import Scriptlet.Workload.Script
import Scriptlet.Workload.Sums

/-! Timing of the workload script, with a check of what it prints. -/
namespace Scriptlet.Workload

/-- The greatest input: all intermediate sums are exact up to here. -/
def maxInput : Nat := 100000000

/-- The input that the script itself assigns last. -/
def defaultInput : Nat := 30000000

structure Params where
  n : Nat := defaultInput
  runs : Nat := 1
  /-- A file to run in place of the built-in script. -/
  script : Option String := none

/-- Why there is no report. -/
inductive MeasureError where
  | noRuns
  | inputTooLarge (n : Nat)
  | unreadable (path : String) (fault : FileFault)
  | script (error : InputError)
  | runFailed (run : Nat) (error : ScriptError)
  | sumsDiffer (loop closed : Nat)
  | overflow (n : Nat)
  | wrongOutput (output expected : String)

def InputError.chain : InputError → List String
  | parse e => ["Failed to parse workload script", e.message]
  | noAssignment => ["Workload script has no top-level assignment to x"]

/-- What went wrong, then its causes. -/
def MeasureError.chain : MeasureError → List String
  | noRuns => ["Must have at least 1 run"]
  | inputTooLarge n => ["N must be at most " ++ toString maxInput ++ ", got " ++ toString n]
  | unreadable path fault => ["Failed to read " ++ path, fault.message]
  | script e => e.chain
  | runFailed run e => ["Run " ++ toString run ++ " failed", e.message, e.cause]
  | sumsDiffer loop closed =>
    ["Native loop gave " ++ toString loop ++ " but the closed form gives " ++ toString closed]
  | overflow n => ["Expected sum for N = " ++ toString n ++ " overflows u64"]
  | wrongOutput output expected =>
    ["Interpreter printed " ++ Text.quote output ++ ", expected " ++ expected]

def MeasureError.message (e : MeasureError) : String := e.chain.headD ""

/-- One run on a fresh session: what the script printed, without blanks at the ends. -/
def runOnce (fuel : Nat) (limits : Limits) (p : Program) : Except ScriptError String :=
  match (Session.start limits .unlimited).runProgram fuel p with
  | (.ok _, s) => .ok (Text.trim s.output.text)
  | (.error e, _) => .error e

variable {m : Type → Type} [Monad m]

/-- Runs `left` more times after `done` runs; gives the last output and all times. -/
def repeatRuns (host : Host m) (fuel : Nat) (limits : Limits) (p : Program) :
    Nat → Nat → String → List Nat → m (Except MeasureError (String × List Nat))
  | 0, _, output, times => pure (.ok (output, times))
  | left + 1, done, _, times => do
    match ← host.timed fun _ => runOnce fuel limits p with
    | (.ok output, time) => repeatRuns host fuel limits p left (done + 1) output (times ++ [time])
    | (.error e, _) => pure (.error (.runFailed (done + 1) e))

/-- Compares what was printed with the sum in closed form. -/
def check (n : Nat) (output : String) (times : List Nat) (sum : UInt64) (native : Nat) :
    Except MeasureError Report := do
  let some expected := Sums.nonMultiples? (.ofNat n) | throw (.overflow n)
  if sum ≠ expected then throw (.sumsDiffer sum.toNat expected.toNat)
  let text := (Number.ofNat expected.toNat).display
  if output ≠ text then throw (.wrongOutput output text)
  return ⟨n, output, expected.toNat, times, native⟩

/-- The script to measure. -/
def source (host : Host m) : Option String → m (Except MeasureError String)
  | none => pure (.ok builtinScript)
  | some path => do
    match ← host.read path with
    | .ok text => pure (.ok text)
    | .error fault => pure (.error (.unreadable path fault))

/-- Runs the script on the input and checks its output against the sum computed directly. -/
def measure (host : Host m) (fuel : Nat) (limits : Limits) (params : Params) :
    m (Except MeasureError Report) := do
  if params.runs = 0 then return .error .noRuns
  if maxInput < params.n then return .error (.inputTooLarge params.n)
  match ← source host params.script with
  | .error e => return .error e
  | .ok text =>
    match withInput text params.n with
    | .error e => return .error (.script e)
    | .ok p =>
      match ← repeatRuns host fuel limits p params.runs 0 "" [] with
      | .error e => return .error e
      | .ok (output, times) =>
        let (sum, native) ← host.timed fun _ => Sums.nonMultiples (.ofNat params.n)
        return check params.n output times sum native

end Scriptlet.Workload
