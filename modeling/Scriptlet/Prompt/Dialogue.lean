import Scriptlet.Host
import Scriptlet.Prompt.Backspace
import Scriptlet.Prompt.Basic
import Scriptlet.Prompt.History
import Scriptlet.Settings.Load

/-! A prompt together with the history of what is entered there. -/
namespace Scriptlet

structure Dialogue where
  prompt : Prompt
  history : History

namespace Dialogue

/-- Takes a line as it is typed. -/
def enter (fuel : Nat) (d : Dialogue) (typed : String) : Feed × Dialogue :=
  let line := Typed.line typed
  let (feed, prompt) := d.prompt.feed fuel line
  (feed, ⟨prompt, d.history.enter line⟩)

def enterAll (fuel : Nat) (d : Dialogue) (lines : List String) : Dialogue :=
  lines.foldl (fun d line => (d.enter fuel line).2) d

variable {m : Type → Type} [Monad m]

/-- Starts with the history that was kept; one that cannot be read counts as empty. -/
def start (host : Host m) (settings : Settings) (output : Output) : m Dialogue := do
  let prompt := Prompt.start settings.limits output
  match settings.historyFile with
  | none => return ⟨prompt, .empty⟩
  | some path =>
    match ← host.read path with
    | .ok text => return ⟨prompt, .ofText text⟩
    | .error _ => return ⟨prompt, .empty⟩

/-- Keeps the history, if there is something new in it. -/
def finish (host : Host m) (settings : Settings) (d : Dialogue) : m Unit :=
  match settings.historyFile with
  | some path => if d.history.grown then host.write path d.history.toText else pure ()
  | none => pure ()

end Dialogue
end Scriptlet
