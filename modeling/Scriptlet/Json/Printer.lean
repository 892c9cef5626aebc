import Scriptlet.Json.Basic
import Scriptlet.Number.Text

/-! JSON written over several lines, two blanks for each level. -/
namespace Scriptlet.Json

/-- Numbers are positional from `1e-5` up to, but not including, `1e16`, and always show a point. -/
def numberLayout : NumberLayout where
  positional place := -5 ≤ place && place < 16
  keepPoint := true
  tie := .even

/-- One character of a string: quotes, backslashes and controls are escaped. -/
def escapeChar (c : Char) : String :=
  match c with
  | '"' => "\\\""
  | '\\' => "\\\\"
  | '\n' => "\\n"
  | '\r' => "\\r"
  | '\t' => "\\t"
  | '\x08' => "\\b"
  | '\x0c' => "\\f"
  | c =>
    if c.toNat < 0x10 then "\\u000" ++ String.ofList (Nat.toDigits 16 c.toNat)
    else if c.toNat < 0x20 then "\\u00" ++ String.ofList (Nat.toDigits 16 c.toNat)
    else c.toString

def quoted (s : String) : String := "\"" ++ String.join (s.toList.map escapeChar) ++ "\""

/-- A line end and the indentation of a level. -/
def newline (level : Nat) : String := "\n" ++ String.ofList (List.replicate (2 * level) ' ')

mutual

/-- The text of a value that stands at the given level. -/
def pretty (level : Nat) : Json → String
  | null => "null"
  | boolean b => if b then "true" else "false"
  | number d => d.render numberLayout
  | string s => quoted s
  | array [] => "[]"
  | array (j :: js) =>
    "[" ++ newline (level + 1) ++ j.pretty (level + 1) ++ prettyItems (level + 1) js
      ++ newline level ++ "]"
  | object [] => "\x7b\x7d"
  | object ((k, j) :: fs) =>
    "\x7b" ++ newline (level + 1) ++ quoted k ++ ": " ++ j.pretty (level + 1)
      ++ prettyFields (level + 1) fs ++ newline level ++ "\x7d"

/-- Further items of an array. -/
def prettyItems (level : Nat) : List Json → String
  | [] => ""
  | j :: js => "," ++ newline level ++ j.pretty level ++ prettyItems level js

/-- Further fields of an object. -/
def prettyFields (level : Nat) : List (String × Json) → String
  | [] => ""
  | (k, j) :: fs => "," ++ newline level ++ quoted k ++ ": " ++ j.pretty level ++ prettyFields level fs

end

end Scriptlet.Json
