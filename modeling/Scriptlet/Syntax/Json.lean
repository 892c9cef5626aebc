import Scriptlet.Json.Printer
import Scriptlet.Json.Reader
import Scriptlet.Number.Scaled
import Scriptlet.Number.Text
import Scriptlet.Syntax.Basic

/-! Syntax trees as JSON. A node is an object whose field `type` names its kind. -/
namespace Scriptlet

/-- Infinite numbers have no JSON form and are written as null. -/
def Number.toJson (x : Number) : Json :=
  match x.shortest? Json.numberLayout.tie with
  | some d => .number d
  | none => .null

/-- A number is read only if it is within range. -/
def Number.ofJson? : Json → Option Number
  | .number d => Number.ofScaled? d
  | _ => none

def Json.node (kind : String) (fields : List (String × Json)) : Json :=
  .object (("type", .string kind) :: fields)

mutual

def Expr.toJson : Expr → Json
  | .number v => .node "LitNum" [("v", v.toJson)]
  | .boolean v => .node "LitBool" [("v", .boolean v)]
  | .text v => .node "LitStr" [("v", .string v)]
  | .name x => .node "Ident" [("name", .string x)]
  | .binary op l r =>
    .node "BinOp" [("op", .string op.name), ("left", l.toJson), ("right", r.toJson)]
  | .call f args => .node "Call" [("callee", f.toJson), ("args", .array (exprsToJson args))]
  | .function f params body =>
    .node "Function" [("name", .string f), ("params", .array (params.map .string)),
      ("body", .array (stmtsToJson body))]

def exprsToJson : List Expr → List Json
  | [] => []
  | e :: es => e.toJson :: exprsToJson es

def Stmt.toJson : Stmt → Json
  | .expr e => .node "Expr" [("expr", e.toJson)]
  | .assign x e => .node "Assign" [("name", .string x), ("expr", e.toJson)]
  | .loop test body => .node "While" [("test", test.toJson), ("body", .array (stmtsToJson body))]
  | .branch test body => .node "If" [("test", test.toJson), ("body", .array (stmtsToJson body))]
  | .ret none => .node "Return" [("value", .null)]
  | .ret (some e) => .node "Return" [("value", e.toJson)]

def stmtsToJson : List Stmt → List Json
  | [] => []
  | s :: ss => s.toJson :: stmtsToJson ss

end

def Program.toJson (p : Program) : Json := .object [("body", .array (stmtsToJson p.body))]

namespace Json

/-- The fields of a node, by name or, for a node given as an array, by place. -/
inductive Fields where
  | named (fields : List (String × Json))
  | listed (items : List Json)

/-- The kind that a tag names. An index into `kinds` stands for the kind there. -/
def kind? (kinds : List String) : Json → Option String
  | string kind => some kind
  | number ⟨false, index, 0⟩ => kinds[index]?
  | _ => none

/-- The kind of a node and its fields. -/
def node? (kinds : List String) : Json → Option (String × Fields)
  | object fields => do
    let (_, tag) ← fields.find? (·.1 == "type")
    return (← tag.kind? kinds, .named fields)
  | array (tag :: items) => (tag.kind? kinds).map (·, .listed items)
  | _ => none

/-- The values of exactly these fields, in this order. Further named fields do not matter. -/
def Fields.values? (names : List String) : Fields → Option (List Json)
  | named fields => names.mapM fun name => (fields.find? (·.1 == name)).map (·.2)
  | listed items => if items.length = names.length then some items else none

def array? : Json → Option (List Json)
  | array items => some items
  | _ => none

def string? : Json → Option String
  | string s => some s
  | _ => none

/-- A name, given as a text or as the only field of an object, with nothing in it. -/
def name? : Json → Option String
  | string s => some s
  | object [(s, null)] => some s
  | object [(s, object [])] => some s
  | _ => none

end Json

/-- The kinds of expressions, in the order of their indices. -/
def Expr.kinds : List String :=
  ["LitNum", "LitBool", "LitStr", "Ident", "BinOp", "Call", "Function"]

/-- The kinds of statements, in the order of their indices. -/
def Stmt.kinds : List String := ["Expr", "Assign", "While", "If", "Return"]

mutual

/-- Reads an expression that is at most this deep. -/
def Expr.ofJson? : Nat → Json → Option Expr
  | 0, _ => none
  | depth + 1, j => do
    let (kind, fields) ← j.node? Expr.kinds
    match kind with
    | "LitNum" =>
      let [v] ← fields.values? ["v"] | none
      return .number (← Number.ofJson? v)
    | "LitBool" =>
      let [.boolean v] ← fields.values? ["v"] | none
      return .boolean v
    | "LitStr" =>
      let [.string v] ← fields.values? ["v"] | none
      return .text v
    | "Ident" =>
      let [.string x] ← fields.values? ["name"] | none
      return .name x
    | "BinOp" =>
      let [op, l, r] ← fields.values? ["op", "left", "right"] | none
      return .binary (← BinaryOp.ofName? (← op.name?)) (← Expr.ofJson? depth l) (← Expr.ofJson? depth r)
    | "Call" =>
      let [f, .array args] ← fields.values? ["callee", "args"] | none
      return .call (← Expr.ofJson? depth f) (← args.mapM (Expr.ofJson? depth))
    | "Function" =>
      let [.string f, .array params, .array body] ← fields.values? ["name", "params", "body"] | none
      return .function f (← params.mapM Json.string?) (← body.mapM (Stmt.ofJson? Stmt.kinds depth))
    | _ => none

/-- Reads a statement that is at most this deep and whose kind may be given by an index into
`kinds`. A missing return value is none. -/
def Stmt.ofJson? (kinds : List String) : Nat → Json → Option Stmt
  | 0, _ => none
  | depth + 1, j => do
    let (kind, fields) ← j.node? kinds
    match kind with
    | "Expr" =>
      let [e] ← fields.values? ["expr"] | none
      return .expr (← Expr.ofJson? depth e)
    | "Assign" =>
      let [.string x, e] ← fields.values? ["name", "expr"] | none
      return .assign x (← Expr.ofJson? depth e)
    | "While" =>
      let [test, .array body] ← fields.values? ["test", "body"] | none
      return .loop (← Expr.ofJson? depth test) (← body.mapM (Stmt.ofJson? Stmt.kinds depth))
    | "If" =>
      let [test, .array body] ← fields.values? ["test", "body"] | none
      return .branch (← Expr.ofJson? depth test) (← body.mapM (Stmt.ofJson? Stmt.kinds depth))
    | "Return" =>
      match fields, fields.values? ["value"] with
      | _, some [.null] => return .ret none
      | _, some [e] => return .ret (some (← Expr.ofJson? depth e))
      | .named _, _ => return .ret none
      | _, _ => none
    | _ => none

end

namespace Program

/-- A script may be an object with the field `body`, or an array that holds the body alone. Its own
statements name their kinds; those within them may use indices. -/
def ofJson? (j : Json) : Option Program := do
  let body ← match j with
    | .object _ => j.get? "body"
    | .array [body] => some body
    | _ => none
  let items ← body.array?
  return ⟨← items.mapM (Stmt.ofJson? [] j.depth)⟩

/-- The tree as text over several lines. -/
def toText (p : Program) : String := p.toJson.pretty 0

def ofText? (s : String) : Option Program := do ofJson? (← Json.parse? s)

end Program
end Scriptlet
