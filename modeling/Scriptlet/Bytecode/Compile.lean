import Scriptlet.Bytecode.Builder

/-! Compilation of syntax trees. -/
namespace Scriptlet

/-- Why a tree has no code. -/
inductive CompileError where
  | duplicateParameter (function param : String)
deriving DecidableEq

def CompileError.message : CompileError → String
  | duplicateParameter f p => "Duplicate parameter \"" ++ p ++ "\" in function \"" ++ f ++ "\""

/-- Extends code under construction. What was added before an error stays. -/
abbrev Emit := ExceptT CompileError (StateM Builder)

namespace Emit

def instruction (op : Opcode) (arg : Nat) : Emit Unit := modify (·.emit op arg)

/-- Adds a jump without target and gives its place. -/
def openJump (op : Opcode) : Emit Nat := do
  let place := (← get).position
  instruction op 0
  return place

/-- Lets the jump at a place lead to what comes next. -/
def closeJump (place : Nat) : Emit Unit := modify fun b => b.patch place b.position

def number (v : Number) : Emit Nat := modifyGet fun b => (b.addNumber v).swap
def text (s : String) : Emit Nat := modifyGet fun b => (b.addText s).swap
def function (c : Code) : Emit Nat := modifyGet fun b => (b.addFunction c).swap
def name (x : String) : Emit Nat := modifyGet fun b => (b.addName x).swap

/-- Gives the parameters of a function the first slots. -/
def parameters (f : String) : List String → Emit Unit
  | [] => pure ()
  | p :: ps => do
    if (← get).names.contains p then throw (.duplicateParameter f p)
    let _ ← name p
    parameters f ps

/-- Runs on its own builder and ends the code with a return without value. -/
def closed (b : Builder) (f : String) (argCount : Nat) (body : Emit Unit) :
    Except CompileError Code :=
  match (do body; instruction .ret 0 : Emit Unit).run.run b with
  | (.ok (), b) => .ok (b.finish f argCount)
  | (.error e, _) => .error e

end Emit

open Emit

mutual

/-- Code that leaves the value of the expression on the stack. -/
def Expr.compile : Expr → Emit Unit
  | .number v => do instruction .loadNumber (← Emit.number v)
  | .boolean v => instruction .loadBoolean v.toNat
  | .text s => do instruction .loadText (← Emit.text s)
  | .name x => do instruction .loadVar (← Emit.name x)
  | .binary op l r => do
    l.compile
    r.compile
    instruction (.binary op) 0
  | .call f args => do
    f.compile
    compileArgs args
    instruction .call args.length
  | .function f params body => do
    let code ← closed .empty f params.length (do parameters f params; compileBlock body)
    let i ← Emit.function code
    let slot ← Emit.name f
    instruction .loadFunction i
    instruction .assign slot
    instruction .loadFunction i

/-- Code that leaves the values of the arguments on the stack, in order. -/
def compileArgs : List Expr → Emit Unit
  | [] => pure ()
  | e :: es => do
    e.compile
    compileArgs es

/-- Code that leaves the stack as it was. -/
def Stmt.compile : Stmt → Emit Unit
  | .expr e => do
    e.compile
    instruction .discard 0
  | .assign x e => do
    e.compile
    instruction .assign (← Emit.name x)
  | .branch test body => do
    test.compile
    let exit ← openJump .jumpIfFalse
    compileBlock body
    closeJump exit
  | .loop test body => do
    let start := (← get).position
    test.compile
    let exit ← openJump .jumpIfFalse
    compileBlock body
    instruction .jump start
    closeJump exit
  | .ret none => instruction .ret 0
  | .ret (some e) => do
    e.compile
    instruction .ret 1

def compileBlock : List Stmt → Emit Unit
  | [] => pure ()
  | s :: ss => do
    s.compile
    compileBlock ss

end

namespace Program

/-- The code of a script whose global variables already have the given slots. -/
def compileWith (names : List String) (p : Program) : Except CompileError Code :=
  closed (.withNames names) Code.mainName 0 (compileBlock p.body)

end Program
end Scriptlet
