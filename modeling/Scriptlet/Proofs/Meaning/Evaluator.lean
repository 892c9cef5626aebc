import Scriptlet.Machine.Basic
import Scriptlet.Value.Builtin
import Scriptlet.Value.Operator

/-! Direct evaluation of syntax trees: what a script means, without instructions, slots or frames.
Variables are found by name, and functions keep the text of their definition. -/
namespace Scriptlet.Direct

/-- A function as its definition gives it, with the scope in which it was made. Each evaluation of
a definition makes a function of its own, told apart by `id`. -/
structure Lambda where
  id : Nat
  name : String
  params : List String
  body : List Stmt
  scope : Nat

inductive Val where
  /-- Anything but a function that the script made. -/
  | plain (value : Value)
  | function (f : Lambda)

namespace Val

def undefined : Val := plain .undefined

/-- What operators, conditions and builtins see of a value: of a function, which one it is and
what it is called. -/
def view : Val → Value
  | plain v => v
  | function f => .function ⟨f.id, { (default : Code) with name := f.name }, f.scope⟩

end Val

/-- The variables of one activation, by name, and the scope around it. -/
structure Env where
  vars : String → Option Val
  parent : Option Nat

namespace Env

/-- Parameters take the arguments in order; a missing argument is undefined, surplus ones are
dropped. -/
def bind : List String → List Val → String → Option Val
  | [], _ => fun _ => none
  | p :: ps, args => fun x => if x = p then some (args.headD .undefined) else bind ps args.tail x

def set (env : Env) (x : String) (v : Val) : Env :=
  { env with vars := fun y => if y = x then some v else env.vars y }

end Env

/-- All that a script can change. The first scope holds the global variables. -/
structure World where
  scopes : Array Env
  /-- How many functions were made so far. -/
  functions : Nat
  output : Output

/-- No variables yet. -/
def World.start (output : Output) : World := ⟨#[⟨fun _ => none, none⟩], 0, output⟩

/-- The value of a name in the innermost scope that assigns it. A scope lies in an older one. -/
def World.lookup (w : World) (x : String) (scope : Nat) : Option Val :=
  match w.scopes[scope]? with
  | none => none
  | some env =>
    match env.vars x, env.parent with
    | some v, _ => some v
    | none, some parent => if parent < scope then w.lookup x parent else none
    | none, none => none
termination_by scope

inductive Outcome (α : Type) where
  | done (a : α)
  | failed (error : RuntimeError)
  /-- The evaluation was allowed too few rounds and calls. -/
  | unfinished

def Eval (α : Type) : Type := World → Outcome α × World

namespace Eval

variable {α : Type}

instance : Monad Eval where
  pure a := fun w => (.done a, w)
  bind x f := fun w =>
    match x w with
    | (.done a, w) => f a w
    | (.failed e, w) => (.failed e, w)
    | (.unfinished, w) => (.unfinished, w)

def fail (e : RuntimeError) : Eval α := fun w => (.failed e, w)

def stop : Eval α := fun w => (.unfinished, w)

/-- The value of a name: that of the innermost scope that assigns it, or else the builtin. -/
def resolve (scope : Nat) (x : String) : Eval Val := fun w =>
  match w.lookup x scope, Builtin.ofName? x with
  | some v, _ => (.done v, w)
  | none, some b => (.done (.plain (.builtin b)), w)
  | none, none => (.failed (.undefinedVariable x), w)

/-- Assigns a variable of the scope itself, whatever the scopes around it hold. -/
def assign (scope : Nat) (x : String) (v : Val) : Eval Unit := fun w =>
  (.done (), { w with scopes := w.scopes.modify scope (·.set x v) })

/-- Makes a new function. -/
def define (scope : Nat) (f : String) (params : List String) (body : List Stmt) : Eval Val :=
  fun w => (.done (.function ⟨w.functions, f, params, body, scope⟩),
    { w with functions := w.functions + 1 })

/-- Opens a scope inside another one. -/
def enclose (parent : Nat) (vars : String → Option Val) : Eval Nat := fun w =>
  (.done w.scopes.size, { w with scopes := w.scopes.push ⟨vars, some parent⟩ })

def operate (op : BinaryOp) (v w : Val) : Eval Val :=
  match op.apply v.view w.view with
  | .ok u => pure (.plain u)
  | .error e => fail e

def callBuiltin (b : Builtin) (args : List Val) : Eval Val := fun w =>
  match b.call (args.map Val.view) w.output with
  | (.ok u, output) => (.done (.plain u), { w with output })
  | (.error e, output) => (.failed e, { w with output })

end Eval

open Eval

/-- How a statement ends: the next one follows, or the activation is left. -/
inductive Flow where
  | next
  | leave (value : Val)

/-- The value of an activation that ends so; falling off the end gives undefined. -/
def Flow.value : Flow → Val
  | next => .undefined
  | leave v => v

/-- How functions of the script are called. -/
abbrev Caller := Lambda → List Val → Eval Val

def apply (call : Caller) (callee : Val) (args : List Val) : Eval Val :=
  match callee with
  | .function f => call f args
  | .plain (.builtin b) => callBuiltin b args
  | .plain v => fail (.notCallable v.typeName)

mutual

/-- Left before right, callee before arguments. -/
def evalExpr (call : Caller) (scope : Nat) : Expr → Eval Val
  | .number v => pure (.plain (.number v))
  | .boolean v => pure (.plain (.boolean v))
  | .text s => pure (.plain (.text s))
  | .name x => resolve scope x
  | .binary op l r => do
    let v ← evalExpr call scope l
    let w ← evalExpr call scope r
    operate op v w
  | .call f args => do
    let callee ← evalExpr call scope f
    let values ← evalArgs call scope args
    apply call callee values
  | .function f params body => do
    let v ← define scope f params body
    assign scope f v
    define scope f params body

def evalArgs (call : Caller) (scope : Nat) : List Expr → Eval (List Val)
  | [] => pure []
  | e :: es => do
    let v ← evalExpr call scope e
    let vs ← evalArgs call scope es
    pure (v :: vs)

end

/-- Rounds of a loop, until its test fails or the activation is left. -/
def rounds (test : Eval Val) (body : Eval Flow) : Nat → Eval Flow
  | 0 => stop
  | limit + 1 => do
    let v ← test
    if v.view.isTrue then
      match ← body with
      | .next => rounds test body limit
      | .leave v => pure (.leave v)
    else pure .next

mutual

def evalStmt (call : Caller) (limit scope : Nat) : Stmt → Eval Flow
  | .expr e => do
    let _ ← evalExpr call scope e
    pure .next
  | .assign x e => do
    let v ← evalExpr call scope e
    assign scope x v
    pure .next
  | .branch test body => do
    let v ← evalExpr call scope test
    if v.view.isTrue then evalBlock call limit scope body else pure .next
  | .loop test body => rounds (evalExpr call scope test) (evalBlock call limit scope body) limit
  | .ret none => pure (.leave .undefined)
  | .ret (some e) => do
    let v ← evalExpr call scope e
    pure (.leave v)

def evalBlock (call : Caller) (limit scope : Nat) : List Stmt → Eval Flow
  | [] => pure .next
  | s :: ss => do
    match ← evalStmt call limit scope s with
    | .next => evalBlock call limit scope ss
    | .leave v => pure (.leave v)

end

/-- Calls a function of the script while `depth` calls are active. The body runs in a scope of its
own, inside the scope in which the function was made. -/
def invoke (maxDepth : Nat) : (limit depth : Nat) → Caller
  | 0, _, _, _ => stop
  | limit + 1, depth, f, args =>
    if maxDepth ≤ depth then fail (.callDepthExceeded maxDepth)
    else do
      let scope ← enclose f.scope (Env.bind f.params args)
      let flow ← evalBlock (invoke maxDepth limit (depth + 1)) limit scope f.body
      pure flow.value

/-- Evaluates a script in the global scope. The evaluation is stopped when a loop is not left after
`limit` rounds, or when `limit` calls are active and another one is made. -/
def evalProgram (maxDepth limit : Nat) (p : Program) : Eval Val := do
  let flow ← evalBlock (invoke maxDepth limit 0) limit Machine.globalScope p.body
  pure flow.value

end Scriptlet.Direct
