import Scriptlet.Bytecode.Basic

/-! Code under construction. Equal constants share a place in their pool, except functions. -/
namespace Scriptlet

/-- The place of an item in a pool, at whose end it is put if it is not there yet. -/
def intern {α : Type} [BEq α] (pool : Array α) (x : α) : Array α × Nat :=
  match pool.idxOf? x with
  | some i => (pool, i)
  | none => (pool.push x, pool.size)

structure Builder where
  code : Array Instruction
  numbers : Array Number
  texts : Array String
  functions : List Code
  names : Array String

namespace Builder

def empty : Builder := ⟨#[], #[], #[], [], #[]⟩

def position (b : Builder) : Nat := b.code.size

def emit (b : Builder) (op : Opcode) (arg : Nat) : Builder :=
  { b with code := b.code.push ⟨op, arg⟩ }

/-- Sets the argument of the instruction at a place. -/
def patch (b : Builder) (place target : Nat) : Builder :=
  { b with code := b.code.modify place fun i => { i with arg := target } }

/-- Numbers are the same constant only if their bits are. -/
def addNumber (b : Builder) (v : Number) : Builder × Nat :=
  let (numbers, i) := intern b.numbers v
  ({ b with numbers }, i)

def addText (b : Builder) (s : String) : Builder × Nat :=
  let (texts, i) := intern b.texts s
  ({ b with texts }, i)

def addFunction (b : Builder) (c : Code) : Builder × Nat :=
  ({ b with functions := b.functions ++ [c] }, b.functions.length)

/-- The slot of a variable. -/
def addName (b : Builder) (x : String) : Builder × Nat :=
  let (names, i) := intern b.names x
  ({ b with names }, i)

/-- Starts with slots for the given variables, each once. -/
def withNames (names : List String) : Builder := names.foldl (fun b x => (b.addName x).1) empty

def finish (b : Builder) (name : String) (argCount : Nat) : Code :=
  { name, argCount, names := b.names, code := b.code, numbers := b.numbers, texts := b.texts,
    functions := b.functions }

end Builder
end Scriptlet
