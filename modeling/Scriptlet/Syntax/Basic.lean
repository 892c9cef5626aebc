import Scriptlet.Number.Basic

/-! Syntax trees of scripts. -/
namespace Scriptlet

inductive BinaryOp where
  | add | sub | mul | div | mod
  | eq | ne | lt | le | gt | ge
deriving DecidableEq

namespace BinaryOp

def all : List BinaryOp := [add, sub, mul, div, mod, eq, ne, lt, le, gt, ge]

/-- How the operator is written in a script. -/
def symbol : BinaryOp → String
  | add => "+"
  | sub => "-"
  | mul => "*"
  | div => "/"
  | mod => "%"
  | eq => "=="
  | ne => "!="
  | lt => "<"
  | le => "<="
  | gt => ">"
  | ge => ">="

def ofSymbol? (s : String) : Option BinaryOp := all.find? (·.symbol == s)

/-- The operator's name in a written tree. -/
def name : BinaryOp → String
  | add => "Add"
  | sub => "Sub"
  | mul => "Mul"
  | div => "Div"
  | mod => "Mod"
  | eq => "Eq"
  | ne => "Ne"
  | lt => "Lt"
  | le => "Le"
  | gt => "Gt"
  | ge => "Ge"

def ofName? (s : String) : Option BinaryOp := all.find? (·.name == s)

end BinaryOp

mutual

inductive Expr where
  | number (value : Number)
  | boolean (value : Bool)
  | text (value : String)
  | name (name : String)
  | binary (op : BinaryOp) (left right : Expr)
  | call (callee : Expr) (args : List Expr)
  | function (name : String) (params : List String) (body : List Stmt)

inductive Stmt where
  | expr (expr : Expr)
  | assign (name : String) (expr : Expr)
  | loop (test : Expr) (body : List Stmt)
  | branch (test : Expr) (body : List Stmt)
  | ret (value : Option Expr)

end

instance : Inhabited Expr := ⟨.boolean false⟩
instance : Inhabited Stmt := ⟨.ret none⟩

structure Program where
  body : List Stmt
deriving Inhabited

end Scriptlet
