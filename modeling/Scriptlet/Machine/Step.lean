import Scriptlet.Machine.Basic
import Scriptlet.Value.Builtin
import Scriptlet.Value.Operator

/-! One instruction of the machine. -/
namespace Scriptlet

inductive Status where
  | running
  | done (value : Value)
  | failed (error : RuntimeError)

namespace Machine

/-- Goes on with `f` as innermost frame. -/
def resume (m : Machine) (f : Frame) (callers : List Frame) : Status × Machine :=
  (.running, { m with frames := f :: callers })

/-- Stops with `f` as innermost frame. -/
def halt (m : Machine) (f : Frame) (callers : List Frame) (e : RuntimeError) : Status × Machine :=
  (.failed e, { m with frames := f :: callers })

/-- Pushes a constant, if its pool has one at the place that the instruction names. -/
def loadConstant (m : Machine) (f : Frame) (callers : List Frame) (kind : ConstantKind) (i : Nat)
    (v : Option Value) : Status × Machine :=
  match v with
  | some v => m.resume (f.push v) callers
  | none => m.halt f callers (.invalidCode (.constantOutOfRange kind i))

/-- Pushes a new function that remembers the frame's scope. -/
def makeClosure (m : Machine) (f : Frame) (callers : List Frame) (code : Code) : Status × Machine :=
  { m with closures := m.closures + 1 }.resume
    (f.push (.function ⟨m.closures, code, f.scope⟩)) callers

/-- Pushes a variable's value. A name without value in any scope may be a builtin. -/
def loadVar (m : Machine) (f : Frame) (callers : List Frame) (slot : Nat) : Status × Machine :=
  match m.store.slot? f.scope slot, f.code.names[slot]? with
  | some v, _ => m.resume (f.push v) callers
  | none, none => m.halt f callers (.invalidCode (.slotOutOfRange slot))
  | none, some name =>
    match Builtin.ofName? name with
    | some b => m.resume (f.push (.builtin b)) callers
    | none => m.halt f callers (.undefinedVariable name)

/-- Takes the top of the stack and goes on with it. -/
def withTop (m : Machine) (f : Frame) (callers : List Frame)
    (k : Value → Frame → Status × Machine) : Status × Machine :=
  match f.pop with
  | .ok (v, f) => k v f
  | .error e => m.halt f callers e

def assign (m : Machine) (f : Frame) (callers : List Frame) (slot : Nat) : Status × Machine :=
  m.withTop f callers fun v f =>
    match m.store.set? f.scope slot v with
    | some store => { m with store }.resume f callers
    | none => m.halt f callers (.invalidCode (.slotOutOfRange slot))

/-- The right operand is on top of the left one. -/
def operate (m : Machine) (f : Frame) (callers : List Frame) (op : BinaryOp) : Status × Machine :=
  m.withTop f callers fun right f =>
    m.withTop f callers fun left f =>
      match op.apply left right with
      | .ok v => m.resume (f.push v) callers
      | .error e => m.halt f callers e

/-- Enters a function. Missing arguments are undefined and surplus ones are dropped. -/
def enter (m : Machine) (f : Frame) (callers : List Frame) (g : Closure) (args : List Value) :
    Status × Machine :=
  let names := g.code.names
  if m.maxCallDepth < callers.length + 1 then
    m.halt f callers (.callDepthExceeded m.maxCallDepth)
  else if names.size < g.code.argCount then
    m.halt f callers (.invalidCode (.slotOutOfRange names.size))
  else
    let given := (List.range g.code.argCount).map fun i => some (args.getD i .undefined)
    let vars := given.toArray ++ Array.replicate (names.size - g.code.argCount) none
    let (store, scope) := m.store.push ⟨names, vars, some g.scope⟩
    { m with store }.resume (.start g.code scope) (f :: callers)

/-- Calls the value below the arguments. -/
def call (m : Machine) (f : Frame) (callers : List Frame) (argCount : Nat) : Status × Machine :=
  match f.popArgs argCount with
  | .error e => m.halt f callers e
  | .ok (args, f) =>
    m.withTop f callers fun callee f =>
      match callee with
      | .builtin b =>
        match b.call args m.output with
        | (.ok v, output) => { m with output }.resume (f.push v) callers
        | (.error e, output) => { m with output }.halt f callers e
      | .function g => m.enter f callers g args
      | v => m.halt f callers (.notCallable v.typeName)

/-- Ends the innermost frame and hands its value to the caller, if there is one. -/
def leave (m : Machine) (callers : List Frame) (v : Value) : Status × Machine :=
  match callers with
  | [] => (.done v, { m with frames := [] })
  | caller :: callers => m.resume (caller.push v) callers

/-- Carries out an instruction; `f` is the innermost frame, already past the instruction. -/
def execute (m : Machine) (f : Frame) (callers : List Frame) (i : Instruction) : Status × Machine :=
  match i.op with
  | .loadNumber => m.loadConstant f callers .number i.arg (f.code.numbers[i.arg]?.map .number)
  | .loadText => m.loadConstant f callers .text i.arg (f.code.texts[i.arg]?.map .text)
  | .loadBoolean => m.resume (f.push (.boolean (i.arg ≠ 0))) callers
  | .loadFunction =>
    match f.code.functions[i.arg]? with
    | some code => m.makeClosure f callers code
    | none => m.halt f callers (.invalidCode (.constantOutOfRange .function i.arg))
  | .loadVar => m.loadVar f callers i.arg
  | .assign => m.assign f callers i.arg
  | .discard => m.withTop f callers fun _ f => m.resume f callers
  | .jumpIfFalse =>
    m.withTop f callers fun v f => m.resume (if v.isTrue then f else { f with pc := i.arg }) callers
  | .jump => m.resume { f with pc := i.arg } callers
  | .binary op => m.operate f callers op
  | .call => m.call f callers i.arg
  | .ret =>
    if i.arg = 0 then m.leave callers .undefined
    else m.withTop f callers fun v _ => m.leave callers v

/-- Carries out the next instruction. A machine without frames is done. -/
def step (m : Machine) : Status × Machine :=
  match m.frames with
  | [] => (.done .undefined, m)
  | f :: callers =>
    match f.code.code[f.pc]? with
    | some i => m.execute { f with pc := f.pc + 1 } callers i
    | none => (.failed (.invalidCode (.pcOutOfRange f.pc f.code.name)), m)

end Machine
end Scriptlet
