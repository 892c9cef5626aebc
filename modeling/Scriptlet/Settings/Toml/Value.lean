import Scriptlet.Settings.Toml.Moment
import Scriptlet.Settings.Toml.Number
import Scriptlet.Settings.Toml.Table
import Scriptlet.Settings.Toml.Text

/-! Values in TOML. -/
namespace Scriptlet.Toml

/-- Skips what may stand between the items of an array: space, line ends and comments. -/
def skipLines (inComment : Bool) : List Char → Option (List Char)
  | [] => some []
  | '\n' :: cs => skipLines false cs
  | '\r' :: '\n' :: cs => skipLines false cs
  | c :: cs =>
    if inComment then if isPlain c then skipLines true cs else none
    else if isBlank c then skipLines false cs
    else if c = '#' then skipLines true cs
    else some (c :: cs)

/-- A value that holds no other. -/
def scalar? (cs : List Char) : Option (Setting × List Char) :=
  match text? cs, moment? cs with
  | some (s, rest), _ => some (.text s, rest)
  | none, some (s, rest) => some (.text s, rest)
  | none, none =>
    let token := cs.takeWhile fun c => isBare c || c = '.' || c = '+'
    let rest := cs.drop token.length
    if token = ['t', 'r', 'u', 'e'] then some (.boolean true, rest)
    else if token = ['f', 'a', 'l', 's', 'e'] then some (.boolean false, rest)
    else match integer? token with
      | some i => some (.integer i, rest)
      | none => (float? token).map fun x => (.float x, rest)

/-- The items of an array up to its closing bracket. A comma may follow the last one. -/
def itemsRest (value : List Char → Option (Setting × List Char)) :
    Nat → List Char → Option (List Setting × List Char)
  | 0, _ => none
  | limit + 1, cs => do
    match ← skipLines false cs with
    | ']' :: cs => some ([], cs)
    | cs =>
      let (v, cs) ← value cs
      match ← skipLines false cs with
      | ',' :: cs =>
        let (vs, cs) ← itemsRest value limit cs
        some (v :: vs, cs)
      | ']' :: cs => some ([v], cs)
      | _ => none

/-- An entry: its path, its key and its value. -/
def entry? (value : List Char → Option (Setting × List Char)) (limit : Nat) (cs : List Char) :
    Option ((List String × String × Setting) × List Char) := do
  let (path, cs) ← path? limit cs
  match path.getLast?, cs with
  | some key, '=' :: cs =>
    let (v, cs) ← value (skipBlanks cs)
    some ((path.dropLast, key, v), cs)
  | _, _ => none

/-- The entries of a table within a line, at least one, up to the closing brace. -/
def entriesRest (value : List Char → Option (Setting × List Char)) :
    Nat → Nodes → List Char → Option (Nodes × List Char)
  | 0, _, _ => none
  | limit + 1, t, cs => do
    let ((path, key, v), cs) ← entry? value (limit + 1) cs
    let t ← t.define? path key v
    match skipBlanks cs with
    | ',' :: cs => entriesRest value limit t cs
    | '\x7d' :: cs => some (t, cs)
    | _ => none

/-- Arrays and tables may stand inside one another up to this depth. -/
def maxDepth : Nat := 79

/-- A value with at most the given number of arrays and tables inside one another. -/
def value? (limit : Nat) : Nat → List Char → Option (Setting × List Char)
  | 0, cs => scalar? cs
  | depth + 1, cs =>
    match cs with
    | '[' :: cs => (itemsRest (value? limit depth) limit cs).map fun (vs, cs) => (.list vs, cs)
    | '\x7b' :: cs =>
      match skipBlanks cs with
      | '\x7d' :: cs => some (.table [], cs)
      | cs =>
        (entriesRest (value? limit depth) limit [] cs).map fun (t, cs) =>
          (.table (nodeSettings t), cs)
    | cs => scalar? cs

end Scriptlet.Toml
