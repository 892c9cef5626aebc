import Scriptlet.Reader.Parse

/-! Reading in two steps: a text is derived from the grammar, and a tree is built from the
derivation. -/
namespace Scriptlet

/-- A rule, the text that it matched, and the derivations of its parts. -/
inductive Derivation where
  | node (rule : Rule) (text : String) (parts : List Derivation)

/-- Readers for the derivations inside brackets. -/
structure Derivation.Nested where
  expr : Reader (List Derivation)
  statement : Reader (List Derivation)

/-- The text between two places. -/
def Cursor.textTo (c c' : Cursor) : String := String.ofList (c.rest.take (c'.pos - c.pos))

namespace Derivation

open Reader

def here : Reader Cursor := fun c a => (some (c, c), a)

/-- The rules that have a name in the grammar leave a node. -/
def derived (r : Rule) (p : Reader (List Derivation)) : Reader (List Derivation) := named r do
  let c ← here
  let parts ← p
  let c' ← here
  pure [.node r (c.textTo c') parts]

/-- A rule for a token has no parts. -/
def leaf {α : Type} (r : Rule) (p : Reader α) : Reader (List Derivation) :=
  derived r (do let _ ← p; pure [])

def name : Reader (List Derivation) := leaf .identifier (token Token.identifier)

def keyword (r : Rule) (w : String) : Reader (List Derivation) := leaf r (token (Token.word w))

def commaSeparated (limit : Nat) (item : Reader (List Derivation)) : Reader (List Derivation) := do
  let first ← item
  layout
  let more ← spaced limit (do symbol ","; layout; item)
  pure (first ++ more.flatten)

def chain (limit : Nat) (op operand : Reader (List Derivation)) : Reader (List Derivation) := do
  let first ← operand
  layout
  let more ← spaced limit (do
    let o ← op
    layout
    let e ← operand
    pure (o ++ e))
  pure (first ++ more.flatten)

def block (limit : Nat) (inner : Nested) : Reader (List Derivation) := derived .block do
  symbol "\x7b"
  layout
  let body ← spaced limit inner.statement
  layout
  symbol "\x7d"
  pure body.flatten

def parameters (limit : Nat) : Reader (List Derivation) :=
  derived .paramList (commaSeparated limit name)

def functionDef (limit : Nat) (inner : Nested) : Reader (List Derivation) := derived .functionDef do
  let k ← keyword .kwFunction "function"
  layout
  let f ← name
  layout
  symbol "("
  layout
  let params ← maybe (parameters limit)
  layout
  symbol ")"
  layout
  let body ← block limit inner
  pure (k ++ f ++ params.getD [] ++ body)

def parenthesized (inner : Nested) : Reader (List Derivation) := do
  symbol "("
  layout
  let e ← inner.expr
  layout
  symbol ")"
  pure e

def quoted : Reader (List Derivation) :=
  derived .string (do let s ← token Token.text; pure [.node .stringContent s []])

def primary (inner : Nested) : Reader (List Derivation) := derived .primary (
  parenthesized inner
  <|> leaf .number (token Token.number)
  <|> quoted
  <|> leaf .boolean (token Token.boolean)
  <|> name)

def callee (limit : Nat) (inner : Nested) : Reader (List Derivation) :=
  derived .fndef (functionDef limit inner <|> primary inner)

def arguments (limit : Nat) (inner : Nested) : Reader (List Derivation) := derived .callArgs do
  symbol "("
  layout
  let args ← maybe (commaSeparated limit inner.expr)
  layout
  symbol ")"
  pure (args.getD [])

def call (limit : Nat) (inner : Nested) : Reader (List Derivation) := derived .call do
  let f ← callee limit inner
  layout
  let calls ← spaced limit (arguments limit inner)
  pure (f ++ calls.flatten)

def multiplicative (limit : Nat) (inner : Nested) : Reader (List Derivation) :=
  derived .multitive (chain limit (leaf .mulOp Grammar.multiplications) (call limit inner))

def additive (limit : Nat) (inner : Nested) : Reader (List Derivation) :=
  derived .additive (chain limit (leaf .addOp Grammar.additions) (multiplicative limit inner))

def expr (limit : Nat) (inner : Nested) : Reader (List Derivation) :=
  derived .expr (chain limit (leaf .compOp Grammar.comparisons) (additive limit inner))

def guarded (limit : Nat) (inner : Nested) (r : Rule) (w : String) : Reader (List Derivation) := do
  let k ← keyword r w
  layout
  symbol "("
  layout
  let test ← expr limit inner
  layout
  symbol ")"
  layout
  let body ← block limit inner
  pure (k ++ test ++ body)

def loopStmt (limit : Nat) (inner : Nested) : Reader (List Derivation) :=
  derived .whileStmt (guarded limit inner .kwWhile "while")

def branchStmt (limit : Nat) (inner : Nested) : Reader (List Derivation) :=
  derived .ifStmt (guarded limit inner .kwIf "if")

def returnStmt (limit : Nat) (inner : Nested) : Reader (List Derivation) := derived .returnStmt do
  let k ← keyword .kwReturn "return"
  layout
  let value ← maybe (expr limit inner)
  layout
  symbol ";"
  pure (k ++ value.getD [])

def functionStmt (limit : Nat) (inner : Nested) : Reader (List Derivation) :=
  derived .functionStmt do
    let f ← functionDef limit inner
    layout
    absent Grammar.continuation
    layout
    let _ ← maybe (symbol ";")
    pure f

def assignStmt (limit : Nat) (inner : Nested) : Reader (List Derivation) := derived .assignStmt do
  let x ← name
  layout
  symbol "="
  layout
  absent (symbol "=")
  layout
  let e ← expr limit inner
  layout
  symbol ";"
  pure (x ++ e)

def exprStmt (limit : Nat) (inner : Nested) : Reader (List Derivation) := derived .exprStmt do
  let e ← expr limit inner
  layout
  symbol ";"
  pure e

def statement (limit : Nat) (inner : Nested) : Reader (List Derivation) := derived .statement (
  loopStmt limit inner
  <|> branchStmt limit inner
  <|> returnStmt limit inner
  <|> functionStmt limit inner
  <|> assignStmt limit inner
  <|> exprStmt limit inner)

def nested (limit : Nat) : Nat → Nested
  | 0 => ⟨fail, fail⟩
  | depth + 1 =>
    ⟨fun c a => expr limit (nested limit depth) c a,
      fun c a => statement limit (nested limit depth) c a⟩

def program (limit : Nat) : Reader (List Derivation) := derived .program do
  layout
  let body ← spaced limit (nested limit limit).statement
  layout
  let last ← leaf .endOfInput endOfText
  pure (body.flatten ++ last)

end Derivation

/-- Why a derivation stands for no tree. -/
inductive BuildError where
  | expected (what : String)
  | unexpected (rule : Rule)
  | badNumber (text : String)
  | unknownOperator (text : String)

def BuildError.message : BuildError → String
  | expected what => "Expected " ++ what
  | unexpected r => "Unexpected rule: " ++ r.name
  | badNumber s => "Failed to parse number '" ++ s ++ "': " ++
    (if s.isEmpty then "cannot parse float from empty string" else "invalid float literal")
  | unknownOperator s => "Unknown operator '" ++ s ++ "'"

/-- What a derivation stands for, depending on what is looked for there. -/
structure Meaning where
  rule : Rule
  text : String
  /-- The texts of the parts. -/
  names : List String
  expression : Except BuildError Expr
  statement : Except BuildError Stmt
  function : Except BuildError Expr
  /-- The parts as expressions. -/
  expressions : Except BuildError (List Expr)
  /-- The parts as statements. -/
  statements : Except BuildError (List Stmt)
  /-- Those of the parts that are statements. -/
  program : Except BuildError Program

namespace Meaning

def isKeyword (m : Meaning) : Bool :=
  match m.rule with
  | .kwWhile | .kwIf | .kwReturn | .kwFunction => true
  | _ => false

def next (what : String) : List Meaning → Except BuildError Meaning
  | [] => throw (.expected what)
  | m :: _ => pure m

/-- Operators and right operands in turn, grouped from the left. -/
def chainFrom (left : Expr) : List Meaning → Except BuildError Expr
  | [] => pure left
  | o :: ms =>
    match BinaryOp.ofSymbol? o.text with
    | none => throw (.unknownOperator o.text)
    | some op =>
      match ms with
      | [] => throw (.expected "right operand")
      | m :: ms => do
        let right ← m.expression
        chainFrom (.binary op left right) ms

def chainOf (ms : List Meaning) : Except BuildError Expr := do
  let first ← next "operand" ms
  chainFrom (← first.expression) ms.tail

def callOf (ms : List Meaning) : Except BuildError Expr := do
  let callee ← next "callee" ms
  let f ← callee.expression
  ms.tail.foldlM (fun f m => do pure (.call f (← m.expressions))) f

/-- One more part of a definition behind its name. -/
def signature (found : List String × List Stmt) (m : Meaning) :
    Except BuildError (List String × List Stmt) :=
  match m.rule with
  | .paramList => pure (m.names, found.2)
  | .block => do pure (found.1, ← m.statements)
  | r => throw (.unexpected r)

def functionOf (ms : List Meaning) : Except BuildError Expr := do
  let parts := ms.filter (!·.isKeyword)
  let name ← next "function name" parts
  let (params, body) ← parts.tail.foldlM signature ([], [])
  pure (.function name.text params body)

def numberOf (s : String) : Except BuildError Expr :=
  match Number.ofText? s with
  | some v => pure (.number v)
  | none => throw (.badNumber s)

def expressionOf (r : Rule) (s : String) (ms : List Meaning) : Except BuildError Expr :=
  match r with
  | .expr | .additive | .multitive => chainOf ms
  | .call => callOf ms
  | .fndef | .primary => do (← next "expression" ms).expression
  | .functionDef => functionOf ms
  | .identifier => pure (.name s)
  | .number => numberOf s
  | .boolean => pure (.boolean (s == "true"))
  | .string => do pure (.text (← next "string content" ms).text)
  | r => throw (.unexpected r)

def guardedOf (ms : List Meaning) : Except BuildError (Expr × List Stmt) := do
  let parts := ms.filter (!·.isKeyword)
  let test ← (← next "condition" parts).expression
  let body ← (← next "block" parts.tail).statements
  pure (test, body)

def statementOf (r : Rule) (ms : List Meaning) : Except BuildError Stmt :=
  match r with
  | .statement => do (← next "statement" ms).statement
  | .whileStmt => do
    let (test, body) ← guardedOf ms
    pure (.loop test body)
  | .ifStmt => do
    let (test, body) ← guardedOf ms
    pure (.branch test body)
  | .returnStmt =>
    match ms.find? (·.rule = .expr) with
    | none => pure (.ret none)
    | some m => do pure (.ret (some (← m.expression)))
  | .functionStmt => do pure (.expr (← (← next "function definition" ms).function))
  | .assignStmt => do
    let x ← next "variable name" ms
    let e ← next "expression" ms.tail
    pure (.assign x.text (← e.expression))
  | .exprStmt => do pure (.expr (← (← next "expression" ms).expression))
  | r => throw (.unexpected r)

def ofParts (r : Rule) (s : String) (ms : List Meaning) : Meaning where
  rule := r
  text := s
  names := ms.map (·.text)
  expression := expressionOf r s ms
  statement := statementOf r ms
  function := functionOf ms
  expressions := ms.mapM (·.expression)
  statements := ms.mapM (·.statement)
  program := do
    let body ← (ms.filter (·.rule = .statement)).mapM (·.statement)
    pure ⟨body⟩

end Meaning

/-- The meaning of a derivation is put together from those of its parts. -/
def Derivation.meaning : Derivation → Meaning
  | node r s parts => .ofParts r s (parts.map meaning)

namespace Program

def build (ds : List Derivation) : Except BuildError Program := do
  (← Meaning.next "program" (ds.map (·.meaning))).program

end Program

/-- Why a text is not read: it does not match the grammar, or no tree is built from its
derivation. -/
inductive ReadError where
  | mismatch (error : SyntaxError)
  | build (error : BuildError)

/-- The syntax tree of a script, by way of its derivation. -/
def Program.parseInSteps (source : String) : Except ReadError Program :=
  let cs := source.toList
  match Derivation.program (cs.length + 1) (.start cs) .none with
  | (some (ds, _), _) => (build ds).mapError .build
  | (none, a) => .error (.mismatch (.ofAttempts cs a))

end Scriptlet
