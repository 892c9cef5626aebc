import Scriptlet.Machine.Error
import Scriptlet.Value.Basic

/-! Binary operators on values. -/
namespace Scriptlet
namespace Value

def toNumber (v : Value) : Except RuntimeError Number :=
  match v.toNumber? with
  | some x => .ok x
  | none => .error (.notANumber v.typeName)

/-- Applies an operation to two numbers; the left operand is converted first. -/
def numeric (f : Number → Number → Value) (v w : Value) : Except RuntimeError Value := do
  let x ← v.toNumber
  let y ← w.toNumber
  return f x y

/-- A sum with a text joins the texts of both sides. -/
def add : Value → Value → Except RuntimeError Value
  | text s, w => .ok (.text (s ++ w.display))
  | v, text t => .ok (.text (v.display ++ t))
  | v, w => numeric (fun x y => .number (x + y)) v w

end Value

/-- The value of an operation. Only equality takes every kind of value. -/
def BinaryOp.apply : BinaryOp → Value → Value → Except RuntimeError Value
  | add, v, w => v.add w
  | sub, v, w => Value.numeric (fun x y => .number (x - y)) v w
  | mul, v, w => Value.numeric (fun x y => .number (x * y)) v w
  | div, v, w => Value.numeric (fun x y => .number (x / y)) v w
  | mod, v, w => Value.numeric (fun x y => .number (x.floorMod y)) v w
  | eq, v, w => .ok (.boolean (v.equal w))
  | ne, v, w => .ok (.boolean (!v.equal w))
  | lt, v, w => Value.numeric (fun x y => .boolean (x.lt y)) v w
  | le, v, w => Value.numeric (fun x y => .boolean (x.le y)) v w
  | gt, v, w => Value.numeric (fun x y => .boolean (y.lt x)) v w
  | ge, v, w => Value.numeric (fun x y => .boolean (y.le x)) v w

end Scriptlet
