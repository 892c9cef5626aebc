import Scriptlet.Machine.Error
import Scriptlet.Machine.Output
import Scriptlet.Value.Basic

/-! The builtin functions. -/
namespace Scriptlet.Builtin

/-- The line that `print` writes. -/
def printLine (args : List Value) : String := " ".intercalate (args.map Value.display) ++ "\n"

/-- Calls a builtin. What was printed before a failure stays printed. -/
def call (b : Builtin) (args : List Value) (out : Output) : Except RuntimeError Value × Output :=
  match b with
  | print =>
    match out.write (printLine args) with
    | (true, out) => (.ok .undefined, out)
    | (false, out) => (.error (.outputFailed Output.full), out)
  | typeof => (.ok (.text (args.headD .undefined).typeName), out)
  | assert =>
    if (args.headD .undefined).isTrue then (.ok .undefined, out) else (.error .assertionFailed, out)

end Scriptlet.Builtin
