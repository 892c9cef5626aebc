import Scriptlet.Bytecode.Basic
import Scriptlet.Number.Text
import Scriptlet.Text.Column
import Scriptlet.Text.Quoted

/-! Listings of code objects. -/
namespace Scriptlet.Code

/-- What the argument of an instruction refers to. -/
def operand? (c : Code) (i : Instruction) : Option String :=
  match i.op with
  | .loadNumber => c.numbers[i.arg]?.map Number.display
  | .loadText => c.texts[i.arg]?.map Text.quote
  | .loadBoolean => some (if i.arg = 0 then "false" else "true")
  | .loadFunction => c.functions[i.arg]?.map fun f => "<" ++ f.name ++ ">"
  | .loadVar | .assign => c.names[i.arg]?
  | _ => none

/-- One line: place, instruction, argument, and what the argument refers to. -/
def listingLine (c : Code) (pc : Nat) (i : Instruction) : String :=
  Text.alignRight 4 (toString pc) ++ " " ++ Text.alignLeft 20 i.op.name ++ " "
    ++ Text.alignRight 3 (toString i.arg)
    ++ (match c.operand? i with
      | some s => "  (" ++ s ++ ")\n"
      | none => "\n")

def listingHead (c : Code) : String :=
  "== " ++ c.name ++ " (" ++ toString c.argCount ++ " args) ==\n"

mutual

/-- The instructions of the code, then those of every function inside it. -/
def listing : Code → String
  | ⟨name, argCount, names, code, numbers, texts, functions⟩ =>
    let c : Code := ⟨name, argCount, names, code, numbers, texts, functions⟩
    c.listingHead ++ String.join (code.toList.mapIdx c.listingLine) ++ listings functions

def listings : List Code → String
  | [] => ""
  | c :: cs => "\n" ++ c.listing ++ listings cs

end

end Scriptlet.Code
