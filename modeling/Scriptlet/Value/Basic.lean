import Scriptlet.Bytecode.Basic
import Scriptlet.Number.Arithmetic
import Scriptlet.Number.Text
import Scriptlet.Text.Quoted

/-! Values of running scripts. -/
namespace Scriptlet

/-- Functions that every script can use unless it gives their names another meaning. -/
inductive Builtin where
  | print | typeof | assert
deriving DecidableEq

namespace Builtin

def all : List Builtin := [print, typeof, assert]

def name : Builtin → String
  | print => "print"
  | typeof => "typeof"
  | assert => "assert"

def ofName? (s : String) : Option Builtin := all.find? (·.name == s)

end Builtin

/-- A function made by a script: its code and the scope in which it was made. Each evaluation of a
definition makes a function of its own, told apart by `id`. -/
structure Closure where
  id : Nat
  code : Code
  scope : Nat

/-- The function in short, without its scope, which may lead back to it. -/
def Closure.summary (f : Closure) : String :=
  "Closure \x7b name: " ++ Text.quote f.code.name ++ ", arg_count: " ++ toString f.code.argCount
    ++ ", .. \x7d"

inductive Value where
  | undefined
  | boolean (value : Bool)
  | number (value : Number)
  | text (value : String)
  | function (closure : Closure)
  | builtin (builtin : Builtin)

namespace Value

instance : Inhabited Value := ⟨undefined⟩

def typeName : Value → String
  | undefined => "undefined"
  | boolean _ => "boolean"
  | number _ => "number"
  | text _ => "string"
  | function _ => "function"
  | builtin _ => "function"

/-- Whether a condition holds. -/
def isTrue : Value → Bool
  | undefined => false
  | boolean b => b
  | number x => !x.isZero && !x.isNaN
  | text s => !s.isEmpty
  | function _ => true
  | builtin _ => true

/-- Booleans count as one and zero; other values are no numbers. -/
def toNumber? : Value → Option Number
  | number x => some x
  | boolean b => some (Number.ofNat b.toNat)
  | _ => none

/-- Equality in scripts: functions by identity, numbers and booleans by numeric value. -/
def equal : Value → Value → Bool
  | undefined, undefined => true
  | text s, text t => s == t
  | function f, function g => f.id == g.id
  | builtin a, builtin b => a == b
  | v, w =>
    match v.toNumber?, w.toNumber? with
    | some x, some y => x.eq y
    | _, _ => false

def display : Value → String
  | undefined => "undefined"
  | boolean b => if b then "true" else "false"
  | number x => x.display
  | text s => s
  | function f => "[Function: " ++ f.code.name ++ "]"
  | builtin b => "[Function: " ++ b.name ++ "]"

end Value
end Scriptlet
