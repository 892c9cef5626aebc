import Scriptlet.Syntax.Basic
import Scriptlet.Reader.Layout
import Scriptlet.Reader.Token

/-! The grammar of scripts. A rule takes the readers for what stands inside its brackets, so that
the recursion goes from one bracket to the next. -/
namespace Scriptlet.Grammar

open Reader

/-- Readers for expressions and statements inside brackets. -/
structure Nested where
  expr : Reader Expr
  statement : Reader Stmt

def name : Reader String := named .identifier (token Token.identifier)

def keyword (r : Rule) (w : String) : Reader Unit := named r (token (Token.word w))

/-- One of several operators, the first that matches. -/
def operator : List BinaryOp → Reader BinaryOp
  | [] => fail
  | op :: ops => (do symbol op.symbol; pure op) <|> operator ops

def comparisons : Reader BinaryOp := operator [.eq, .ne, .ge, .le, .gt, .lt]
def additions : Reader BinaryOp := operator [.add, .sub]
def multiplications : Reader BinaryOp := operator [.mul, .div, .mod]

/-- Items with commas between them. -/
def commaSeparated {α : Type} (limit : Nat) (item : Reader α) : Reader (List α) := do
  let x ← item
  layout
  let xs ← spaced limit (do symbol ","; layout; item)
  pure (x :: xs)

/-- Operands joined by operators of one level, grouped from the left. -/
def chain (limit : Nat) (op : Reader BinaryOp) (operand : Reader Expr) : Reader Expr := do
  let first ← operand
  layout
  let more ← spaced limit (do
    let o ← op
    layout
    let e ← operand
    pure (o, e))
  pure (more.foldl (fun e (o, e') => .binary o e e') first)

def block (limit : Nat) (inner : Nested) : Reader (List Stmt) := named .block do
  symbol "\x7b"
  layout
  let body ← spaced limit inner.statement
  layout
  symbol "\x7d"
  pure body

def parameters (limit : Nat) : Reader (List String) :=
  named .paramList (commaSeparated limit name)

def functionDef (limit : Nat) (inner : Nested) : Reader Expr := named .functionDef do
  keyword .kwFunction "function"
  layout
  let f ← name
  layout
  symbol "("
  layout
  let params ← maybe (parameters limit)
  layout
  symbol ")"
  layout
  let body ← block limit inner
  pure (.function f (params.getD []) body)

def parenthesized (inner : Nested) : Reader Expr := do
  symbol "("
  layout
  let e ← inner.expr
  layout
  symbol ")"
  pure e

def primary (inner : Nested) : Reader Expr := named .primary (
  parenthesized inner
  <|> (do let v ← named .number (token Token.number); pure (.number v))
  <|> (do let s ← named .string (token Token.text); pure (.text s))
  <|> (do let b ← named .boolean (token Token.boolean); pure (.boolean b))
  <|> (do let x ← name; pure (.name x)))

def callee (limit : Nat) (inner : Nested) : Reader Expr :=
  named .fndef (functionDef limit inner <|> primary inner)

def arguments (limit : Nat) (inner : Nested) : Reader (List Expr) := named .callArgs do
  symbol "("
  layout
  let args ← maybe (commaSeparated limit inner.expr)
  layout
  symbol ")"
  pure (args.getD [])

def call (limit : Nat) (inner : Nested) : Reader Expr := named .call do
  let f ← callee limit inner
  layout
  let calls ← spaced limit (arguments limit inner)
  pure (calls.foldl .call f)

def multiplicative (limit : Nat) (inner : Nested) : Reader Expr :=
  named .multitive (chain limit (named .mulOp multiplications) (call limit inner))

def additive (limit : Nat) (inner : Nested) : Reader Expr :=
  named .additive (chain limit (named .addOp additions) (multiplicative limit inner))

def expr (limit : Nat) (inner : Nested) : Reader Expr :=
  named .expr (chain limit (named .compOp comparisons) (additive limit inner))

/-- A condition in parentheses and the block that it governs. -/
def guarded (limit : Nat) (inner : Nested) (r : Rule) (w : String) : Reader (Expr × List Stmt) := do
  keyword r w
  layout
  symbol "("
  layout
  let test ← expr limit inner
  layout
  symbol ")"
  layout
  let body ← block limit inner
  pure (test, body)

def loopStmt (limit : Nat) (inner : Nested) : Reader Stmt := named .whileStmt do
  let (test, body) ← guarded limit inner .kwWhile "while"
  pure (.loop test body)

def branchStmt (limit : Nat) (inner : Nested) : Reader Stmt := named .ifStmt do
  let (test, body) ← guarded limit inner .kwIf "if"
  pure (.branch test body)

def returnStmt (limit : Nat) (inner : Nested) : Reader Stmt := named .returnStmt do
  keyword .kwReturn "return"
  layout
  let value ← maybe (expr limit inner)
  layout
  symbol ";"
  pure (.ret value)

/-- What may not follow a definition that stands as a statement: there it is an operand. -/
def continuation : Reader Unit :=
  symbol "("
  <|> (do let _ ← barred .compOp comparisons; pure ())
  <|> (do let _ ← barred .addOp additions; pure ())
  <|> (do let _ ← barred .mulOp multiplications; pure ())

def functionStmt (limit : Nat) (inner : Nested) : Reader Stmt := named .functionStmt do
  let f ← functionDef limit inner
  layout
  absent continuation
  layout
  let _ ← maybe (symbol ";")
  pure (.expr f)

def assignStmt (limit : Nat) (inner : Nested) : Reader Stmt := named .assignStmt do
  let x ← name
  layout
  symbol "="
  layout
  absent (symbol "=")
  layout
  let e ← expr limit inner
  layout
  symbol ";"
  pure (.assign x e)

def exprStmt (limit : Nat) (inner : Nested) : Reader Stmt := named .exprStmt do
  let e ← expr limit inner
  layout
  symbol ";"
  pure (.expr e)

def statement (limit : Nat) (inner : Nested) : Reader Stmt := named .statement (
  loopStmt limit inner
  <|> branchStmt limit inner
  <|> returnStmt limit inner
  <|> functionStmt limit inner
  <|> assignStmt limit inner
  <|> exprStmt limit inner)

/-- Readers for text with at most the given number of brackets inside one another. -/
def nested (limit : Nat) : Nat → Nested
  | 0 => ⟨fail, fail⟩
  | depth + 1 =>
    ⟨fun c a => expr limit (nested limit depth) c a,
      fun c a => statement limit (nested limit depth) c a⟩

/-- A whole script. No text has more brackets or repetitions than characters, so a limit above its
length is never met. -/
def program (limit : Nat) : Reader Program := named .program do
  layout
  let body ← spaced limit (nested limit limit).statement
  layout
  named .endOfInput endOfText
  pure ⟨body⟩

end Scriptlet.Grammar
