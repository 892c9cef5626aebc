import Scriptlet.Number.Arithmetic
import Scriptlet.Syntax.Basic

/-! Equality of syntax trees, with number literals compared by value. -/
namespace Scriptlet

mutual

def Expr.agrees : Expr → Expr → Bool
  | .number v, .number w => v.eq w
  | .boolean v, .boolean w => v == w
  | .text v, .text w => v == w
  | .name x, .name y => x == y
  | .binary op l r, .binary op' l' r' => op == op' && l.agrees l' && r.agrees r'
  | .call f args, .call f' args' => f.agrees f' && exprsAgree args args'
  | .function f ps body, .function f' ps' body' => f == f' && ps == ps' && stmtsAgree body body'
  | _, _ => false

def exprsAgree : List Expr → List Expr → Bool
  | [], [] => true
  | e :: es, e' :: es' => e.agrees e' && exprsAgree es es'
  | _, _ => false

def Stmt.agrees : Stmt → Stmt → Bool
  | .expr e, .expr e' => e.agrees e'
  | .assign x e, .assign y e' => x == y && e.agrees e'
  | .loop test body, .loop test' body' => test.agrees test' && stmtsAgree body body'
  | .branch test body, .branch test' body' => test.agrees test' && stmtsAgree body body'
  | .ret none, .ret none => true
  | .ret (some e), .ret (some e') => e.agrees e'
  | _, _ => false

def stmtsAgree : List Stmt → List Stmt → Bool
  | [], [] => true
  | s :: ss, s' :: ss' => s.agrees s' && stmtsAgree ss ss'
  | _, _ => false

end

def Program.agrees (p q : Program) : Bool := stmtsAgree p.body q.body

end Scriptlet
