/-! Grammar rules by name, and the report of a script that does not match the grammar. -/
namespace Scriptlet

/-- The rules that a report may name. -/
inductive Rule where
  | endOfInput | program | statement | whileStmt | ifStmt | returnStmt | functionStmt | assignStmt
  | exprStmt | block | expr | additive | multitive | compOp | addOp | mulOp | call | callArgs
  | fndef | functionDef | paramList | primary | number | string | stringContent | boolean
  | kwWhile | kwIf | kwReturn | kwFunction | keyword | identifier
deriving DecidableEq

namespace Rule

/-- All rules, in the order in which a report lists them. -/
def all : List Rule :=
  [endOfInput, program, statement, whileStmt, ifStmt, returnStmt, functionStmt, assignStmt,
    exprStmt, block, expr, additive, multitive, compOp, addOp, mulOp, call, callArgs,
    fndef, functionDef, paramList, primary, number, string, stringContent, boolean,
    kwWhile, kwIf, kwReturn, kwFunction, keyword, identifier]

def name : Rule → String
  | endOfInput => "EOI"
  | program => "program"
  | statement => "statement"
  | whileStmt => "while_stmt"
  | ifStmt => "if_stmt"
  | returnStmt => "return_stmt"
  | functionStmt => "function_stmt"
  | assignStmt => "assign_stmt"
  | exprStmt => "expr_stmt"
  | block => "block"
  | expr => "expr"
  | additive => "additive"
  | multitive => "multitive"
  | compOp => "comp_op"
  | addOp => "add_op"
  | mulOp => "mul_op"
  | call => "call"
  | callArgs => "call_args"
  | fndef => "fndef"
  | functionDef => "function_def"
  | paramList => "param_list"
  | primary => "primary"
  | number => "number"
  | string => "string"
  | stringContent => "string_content"
  | boolean => "boolean"
  | kwWhile => "kw_while"
  | kwIf => "kw_if"
  | kwReturn => "kw_return"
  | kwFunction => "kw_function"
  | keyword => "keyword"
  | identifier => "identifier"

/-- The rules of a list, each once, in the order of a report. -/
def ordered (rules : List Rule) : List Rule := all.filter (rules.contains ·)

/-- The names of at least one rule: `a`, `a or b`, `a, b, or c`. -/
def enumerate (rules : List Rule) : String :=
  match (ordered rules).map name with
  | [] => ""
  | [a] => a
  | [a, b] => a ++ " or " ++ b
  | names => ", ".intercalate names.dropLast ++ ", or " ++ names.getLastD ""

end Rule

/-- Why a text is no script: the farthest place that the grammar reached, and the rules that were
tried there in vain, or that matched where they must not. -/
structure SyntaxError where
  line : Nat
  column : Nat
  expected : List Rule
  unexpected : List Rule

namespace SyntaxError

def cause (e : SyntaxError) : String :=
  match e.unexpected, e.expected with
  | [], [] => "unknown parsing error"
  | [], ps => "expected " ++ Rule.enumerate ps
  | ns, [] => "unexpected " ++ Rule.enumerate ns
  | ns, ps => "unexpected " ++ Rule.enumerate ns ++ "; expected " ++ Rule.enumerate ps

def message (e : SyntaxError) : String :=
  "line " ++ toString e.line ++ ", column " ++ toString e.column ++ ": " ++ e.cause

end SyntaxError
end Scriptlet
