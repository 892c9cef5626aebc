import Scriptlet.Settings.Variables
import Scriptlet.Text.Blank

/-! Files that define environment variables, a name and a value on each line. -/
namespace Scriptlet.Dotenv

/-- Where in an entry a line can end: inside quotes it goes on. -/
inductive Place where
  | plain
  | blank
  | escape
  | weak
  | weakEscape
  | strong
  | strongEscape
deriving DecidableEq

/-- The place after a character outside quotes. -/
def Place.outside : Char → Place
  | '\\' => escape
  | '"' => weak
  | '\'' => strong
  | _ => plain

/-- The place after a character; `none` where a comment starts. -/
def Place.next (c : Char) : Place → Option Place
  | plain => some (if Text.isBlank c && c ≠ '\n' && c ≠ '\r' then blank else outside c)
  | blank => if c = '#' then none else some (outside c)
  | escape => some plain
  | weak => some (if c = '\\' then weakEscape else if c = '"' then plain else weak)
  | weakEscape => some weak
  | strong => some (if c = '\\' then strongEscape else if c = '\'' then plain else strong)
  | strongEscape => some strong

/-- The part of a line before a comment, and the place at its end if there is no comment. -/
def scan (place : Place) : List Char → List Char × Option Place
  | [] => ([], some place)
  | c :: cs =>
    match place.next c with
    | none => ([], none)
    | some place =>
      let (before, place) := scan place cs
      (c :: before, place)

/-- Splits a text behind every line feed. -/
def cutLines : List Char → List (List Char)
  | [] => []
  | c :: cs =>
    if c = '\n' then [c] :: cutLines cs
    else match cutLines cs with
      | [] => [[c]]
      | l :: ls => (c :: l) :: ls

/-- Joins the lines of each entry; `before` and `place` are from lines that an entry has already.
An entry that never ends is left out. -/
def entriesFrom (before : List Char) (place : Place) : List (List Char) → List (List Char)
  | [] => []
  | l :: ls =>
    if ((before ++ l).dropWhile Text.isBlank).head? = some '#' then entriesFrom [] .plain ls
    else match scan place l with
      | (front, none) => (before ++ front) :: entriesFrom [] .plain ls
      | (_, some .plain) => (before ++ l) :: entriesFrom [] .plain ls
      | (_, some place) => entriesFrom (before ++ l) place ls

def entries (s : String) : List (List Char) := entriesFrom [] .plain (cutLines s.toList)

/-- What the next character of a value belongs to. The flag says whether it is in double quotes. -/
inductive Mode where
  | text (weak : Bool)
  | strong
  | escape (weak : Bool)
  /-- The name of a variable whose value is put in, last character first. -/
  | name (weak : Bool) (done : List Char)
  | braced (weak : Bool) (done : List Char)
  /-- Only a comment may follow. -/
  | closed

/-- What a character after a backslash stands for. -/
def escape? (c : Char) : Option Char :=
  if ['\\', '\'', '"', '$', ' '].contains c then some c
  else if c = 'n' then some '\n'
  else none

/-- The value of a variable whose name was read backwards; empty if there is none. -/
def known (vars : Variables) (done : List Char) : List Char :=
  ((vars.lookup (String.ofList done.reverse)).getD "").toList

/-- Reads a value on; `done` is what it has so far. -/
def valueFrom (vars : Variables) (mode : Mode) (done : List Char) : List Char → Option (List Char)
  | [] =>
    match mode with
    | .name false name => some (done ++ known vars name)
    | .text false | .escape false | .closed => some done
    | _ => none
  | c :: cs =>
    match mode with
    | .closed =>
      if c = ' ' || c = '\t' then valueFrom vars .closed done cs
      else if c = '#' then some done
      else none
    | .escape weak =>
      match escape? c with
      | some c => valueFrom vars (.text weak) (done ++ [c]) cs
      | none => none
    | .strong =>
      if c = '\'' then valueFrom vars (.text false) done cs
      else valueFrom vars .strong (done ++ [c]) cs
    | .name weak name =>
      if c.isAlphanum then valueFrom vars (.name weak (c :: name)) done cs
      else if c = '\x7b' && name.isEmpty then valueFrom vars (.braced weak []) done cs
      else if c = '$' then valueFrom vars (.name weak []) (done ++ known vars name) cs
      else valueFrom vars (.text weak) (done ++ known vars name ++ [c]) cs
    | .braced weak name =>
      if c = '\x7d' then valueFrom vars (.text weak) (done ++ known vars name) cs
      else valueFrom vars (.braced weak (c :: name)) done cs
    | .text weak =>
      if c = '$' then valueFrom vars (.name weak []) done cs
      else if c = '\\' then valueFrom vars (.escape weak) done cs
      else if c = '"' then valueFrom vars (.text !weak) done cs
      else if weak then valueFrom vars (.text true) (done ++ [c]) cs
      else if c = '\'' then valueFrom vars .strong done cs
      else if c = ' ' || c = '\t' then valueFrom vars .closed done cs
      else valueFrom vars (.text false) (done ++ [c]) cs

def skipBlanks (cs : List Char) : List Char := cs.dropWhile Text.isBlank

def name? (cs : List Char) : Option (String × List Char) :=
  if (cs.head?.any fun c => c.isAlpha || c = '_') then
    let name := cs.takeWhile fun c => c.isAlphanum || c = '_' || c = '.'
    some (String.ofList name, skipBlanks (cs.drop name.length))
  else none

/-- The name before an equals sign, and what follows. The word `export` may stand before the name. -/
def binding? (cs : List Char) : Option (String × List Char) := do
  match ← name? cs with
  | (name, '=' :: cs) => return (name, skipBlanks cs)
  | (name, cs) =>
    if name ≠ "export" then none
    match ← name? cs with
    | (name, '=' :: cs) => return (name, skipBlanks cs)
    | _ => none

/-- Adds the variable that an entry defines, if it defines one; `none` if it is malformed. -/
def add? (vars : Variables) (entry : List Char) : Option Variables := do
  let cs := skipBlanks (Text.trim (String.ofList entry)).toList
  if cs.isEmpty || cs.head? = some '#' then return vars
  let (name, cs) ← binding? cs
  if cs.head? = some '#' then return vars.default name ""
  let value ← valueFrom vars (.text false) [] cs
  return vars.default name (String.ofList value)

/-- Adds variables up to the first malformed entry. -/
def addAll (vars : Variables) : List (List Char) → Variables
  | [] => vars
  | entry :: entries =>
    match add? vars entry with
    | some vars => addAll vars entries
    | none => vars

/-- The variables together with those that a file defines; variables that are there already stay. -/
def extend (vars : Variables) (file : String) : Variables := addAll vars (entries file)

end Scriptlet.Dotenv
