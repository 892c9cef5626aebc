import Scriptlet.Prompt.Brackets
import Scriptlet.Session
import Scriptlet.Text.Blank

/-! The prompt: lines are collected until their brackets are closed, and then run. -/
namespace Scriptlet

structure Prompt where
  session : Session
  /-- The lines that wait for a closing bracket. -/
  pending : String

/-- What became of a line. -/
inductive Feed where
  | incomplete
  /-- The lines were run; an error of theirs was printed. -/
  | done
  /-- Their value or error could not be printed. -/
  | unprintable
deriving DecidableEq

namespace Prompt

def start (limits : Limits) (output : Output) : Prompt := ⟨.start limits output, ""⟩

/-- The greeting. -/
def banner : String := "jss 0.1.0"

def isPending (p : Prompt) : Bool := !p.pending.isEmpty

/-- What is printed about the outcome of an entry; nothing for an undefined value. -/
def outcome : Except ScriptError Value → String
  | .ok .undefined => ""
  | .ok v => v.display ++ "\n"
  | .error e => e.message ++ "\n"

/-- Takes a line. More closing than opening brackets count as complete, so that they are reported. -/
def feed (fuel : Nat) (p : Prompt) (line : String) : Feed × Prompt :=
  let entry := p.pending ++ line ++ "\n"
  if 0 < Brackets.depth entry then (.incomplete, { p with pending := entry })
  else if Text.isAllBlank entry then (.done, { p with pending := "" })
  else
    let (result, session) := p.session.run fuel entry
    match session.print (outcome result) with
    | (true, session) => (.done, ⟨session, ""⟩)
    | (false, session) => (.unprintable, ⟨session, ""⟩)

/-- Forgets the lines that wait. -/
def reset (p : Prompt) : Prompt := { p with pending := "" }

end Prompt
end Scriptlet
