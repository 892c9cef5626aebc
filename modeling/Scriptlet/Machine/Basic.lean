import Scriptlet.Machine.Error
import Scriptlet.Machine.Output
import Scriptlet.Machine.Scope

/-! The state of the machine that runs code. -/
namespace Scriptlet

/-- A call in progress, or the script itself. The top of the stack comes first. -/
structure Frame where
  code : Code
  pc : Nat
  stack : List Value
  /-- The place of the call's scope in the store. -/
  scope : Nat

namespace Frame

def start (code : Code) (scope : Nat) : Frame := ⟨code, 0, [], scope⟩

def push (f : Frame) (v : Value) : Frame := { f with stack := v :: f.stack }

/-- The top of the stack and the frame without it. -/
def pop (f : Frame) : Except RuntimeError (Value × Frame) :=
  match f.stack with
  | [] => .error (.invalidCode .stackUnderflow)
  | v :: stack => .ok (v, { f with stack })

/-- The upper `n` values of the stack, lowest first, and the frame without them. -/
def popArgs (f : Frame) (n : Nat) : Except RuntimeError (List Value × Frame) :=
  if f.stack.length < n then .error (.invalidCode (.missingArguments n))
  else .ok ((f.stack.take n).reverse, { f with stack := f.stack.drop n })

/-- The place of the instruction that was fetched last. -/
def location (f : Frame) : String := f.code.location (f.pc - 1)

end Frame

/-- The innermost frame comes first, and the store's first scope holds the global variables. -/
structure Machine where
  frames : List Frame
  store : Store
  /-- How many functions were made so far. -/
  closures : Nat
  maxCallDepth : Nat
  output : Output

namespace Machine

def defaultMaxCallDepth : Nat := 1000

def start (maxCallDepth : Nat) (output : Output) : Machine :=
  ⟨[], ⟨#[.ofNames #[] none]⟩, 0, maxCallDepth, output⟩

/-- The place of the global scope. -/
def globalScope : Nat := 0

def globals (m : Machine) : List (String × Option Value) :=
  (m.store.scopes[globalScope]?.map Scope.slots).getD []

def globalNames (m : Machine) : List String :=
  (m.store.scopes[globalScope]?.map (·.names.toList)).getD []

def global? (m : Machine) (name : String) : Option Value := m.store.named? name globalScope

/-- Drops every frame. -/
def discard (m : Machine) : Machine := { m with frames := [] }

/-- Makes ready to run a script's code. Global variables keep their values by name. -/
def load (m : Machine) (code : Code) : Machine :=
  { m with
    frames := [.start code globalScope]
    store := m.store.modify globalScope (·.adopt code.names) }

end Machine
end Scriptlet
