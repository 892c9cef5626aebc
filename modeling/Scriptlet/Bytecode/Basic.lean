import Scriptlet.Syntax.Basic

/-! Instructions and code objects. -/
namespace Scriptlet

inductive Opcode where
  | loadNumber | loadText | loadBoolean | loadFunction
  | loadVar | assign | discard | ret
  | jumpIfFalse | jump
  | binary (op : BinaryOp)
  | call
deriving DecidableEq

namespace Opcode

def all : List Opcode :=
  [loadNumber, loadText, loadBoolean, loadFunction, loadVar, assign, discard, ret, jumpIfFalse, jump]
    ++ BinaryOp.all.map binary ++ [call]

def name : Opcode → String
  | loadNumber => "LOAD_CONSTANT_FLOAT"
  | loadText => "LOAD_CONSTANT_STR"
  | loadBoolean => "LOAD_CONSTANT_BOOL"
  | loadFunction => "LOAD_CONSTANT_FN"
  | loadVar => "LOAD_VAR"
  | assign => "ASSIGN"
  | discard => "DISCARD_TOP"
  | ret => "RETURN"
  | jumpIfFalse => "JUMP_IF_FALSE"
  | jump => "JUMP_ABSOLUTE"
  | binary op => "BINARY_" ++ op.name.toUpper
  | call => "CALL"

def ofName? (s : String) : Option Opcode := all.find? (·.name == s)

/-- The operator that the instruction applies, if it applies one. -/
def operator? : Opcode → Option BinaryOp
  | binary op => some op
  | _ => none

end Opcode

structure Instruction where
  op : Opcode
  arg : Nat
deriving DecidableEq

namespace Instruction

instance : Inhabited Instruction := ⟨.ret, 0⟩

def toText (i : Instruction) : String := i.op.name ++ " " ++ toString i.arg

end Instruction

/-- Compiled code: a whole script or the body of one function. Parameters have the first
`argCount` variable slots. -/
structure Code where
  name : String
  argCount : Nat
  names : Array String
  code : Array Instruction
  numbers : Array Number
  texts : Array String
  functions : List Code

namespace Code

/-- The name of the code of a whole script. -/
def mainName : String := "<main>"

instance : Inhabited Code := ⟨mainName, 0, #[], #[], #[], #[], []⟩

/-- A place in the code: `name #pc` and the instruction there, if there is one. -/
def location (c : Code) (pc : Nat) : String :=
  let place := c.name ++ " #" ++ toString pc
  match c.code[pc]? with
  | some i => place ++ " " ++ i.toText
  | none => place

end Code
end Scriptlet
