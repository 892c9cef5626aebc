import Scriptlet.Settings.Toml.Value

/-! Settings files in the TOML notation: entries, and headers of the tables to which they belong. -/
namespace Scriptlet.Toml

/-- The rest of a file behind a line of which nothing but a comment is left. -/
def lineEnd? (cs : List Char) : Option (List Char) :=
  match skipBlanks cs with
  | '#' :: cs => newline? (cs.dropWhile isPlain)
  | cs => newline? cs

/-- What was read of a file. -/
structure Document where
  root : Nodes
  /-- The table to which entries belong. -/
  here : List String

namespace Document

def empty : Document := ⟨[], []⟩

def entry? (d : Document) (path : List String) (key : String) (v : Setting) : Option Document :=
  (d.root.update? d.here fun t => t.define? path key v).map fun root => { d with root }

/-- Goes on with another table. `change?` says what becomes of the one around it. -/
def header? (d : Document) (path : List String) (change? : Nodes → String → Option Nodes) :
    Option Document := do
  let key ← path.getLast?
  let root ← d.root.update? path.dropLast fun t => change? t key
  return ⟨root, path⟩

/-- Reads a header, up to the end of its line. -/
def readHeader? (d : Document) (limit : Nat) (cs : List Char) : Option (Document × List Char) := do
  match cs with
  | '[' :: cs =>
    match ← path? limit cs with
    | (path, ']' :: ']' :: cs) => return (← d.header? path Nodes.extend?, ← lineEnd? cs)
    | _ => none
  | cs =>
    match ← path? limit cs with
    | (path, ']' :: cs) => return (← d.header? path Nodes.open?, ← lineEnd? cs)
    | _ => none

def readEntry? (d : Document) (limit : Nat) (cs : List Char) : Option (Document × List Char) := do
  let ((path, key, v), cs) ← Toml.entry? (value? limit maxDepth) limit cs
  return (← d.entry? path key v, ← lineEnd? cs)

/-- Reads a file that has fewer than `limit` lines. -/
def read? : (limit : Nat) → Document → List Char → Option Document
  | 0, _, _ => none
  | limit + 1, d, cs =>
    match skipBlanks cs with
    | [] => some d
    | '[' :: cs => do
      let (d, cs) ← d.readHeader? (cs.length + 1) cs
      read? limit d cs
    | cs =>
      match lineEnd? cs with
      | some cs => read? limit d cs
      | none => do
        let (d, cs) ← d.readEntry? (cs.length + 1) cs
        read? limit d cs

end Document

/-- The tables of a settings file; `none` if it is malformed. -/
def parse? (s : String) : Option SettingTable :=
  let cs := s.toList
  (Document.empty.read? (cs.length + 1) cs).map fun d => nodeSettings d.root

end Scriptlet.Toml
