import Scriptlet.Text.Hex

/-! Texts and keys in TOML. Every scanner gives what it read and the characters behind it. -/
namespace Scriptlet.Toml

def isBlank (c : Char) : Bool := c = ' ' || c = '\t'

def skipBlanks (cs : List Char) : List Char := cs.dropWhile isBlank

/-- Characters that need no escape. -/
def isPlain (c : Char) : Bool := c = '\t' || (' ' ≤ c && c ≠ '\x7f')

/-- The end of a line, or of the file. -/
def newline? : List Char → Option (List Char)
  | [] => some []
  | '\n' :: cs => some cs
  | '\r' :: '\n' :: cs => some cs
  | _ => none

/-- What a letter after a backslash stands for. -/
def escape? : Char → Option Char
  | '"' => some '"'
  | '\\' => some '\\'
  | 'b' => some '\x08'
  | 'f' => some '\x0c'
  | 'n' => some '\n'
  | 'r' => some '\r'
  | 't' => some '\t'
  | _ => none

/-- The rest of a text in double quotes; `done` is what was read, last character first. -/
def basicRest (done : List Char) : List Char → Option (String × List Char)
  | [] => none
  | '"' :: cs => some (String.ofList done.reverse, cs)
  | '\\' :: 'u' :: a :: b :: c :: d :: cs => do
    basicRest ((← Hex.char? [a, b, c, d]) :: done) cs
  | '\\' :: 'U' :: a :: b :: c :: d :: e :: f :: g :: h :: cs => do
    basicRest ((← Hex.char? [a, b, c, d, e, f, g, h]) :: done) cs
  | '\\' :: e :: cs => do basicRest ((← escape? e) :: done) cs
  | c :: cs => if isPlain c then basicRest (c :: done) cs else none

/-- The rest of a text in single quotes, which has no escapes. -/
def literalRest (cs : List Char) : Option (String × List Char) :=
  let inside := cs.takeWhile (· ≠ '\'')
  match cs.drop inside.length with
  | [] => none
  | _ :: rest => if inside.all isPlain then some (String.ofList inside, rest) else none

/-- A line feed at the start of a text over several lines does not belong to it. -/
def skipNewline : List Char → List Char
  | '\n' :: cs => cs
  | '\r' :: '\n' :: cs => cs
  | cs => cs

/-- Whether nothing is left of a line. -/
def isLineEnd (cs : List Char) : Bool :=
  match skipBlanks cs with
  | [] => false
  | cs => (newline? cs).isSome

/-- The rest of a text in three double quotes. Up to two quotes may stand before the closing ones.
`skip` says that a backslash at the end of a line takes away the space that follows. -/
def longBasicRest (skip : Bool) (done : List Char) : List Char → Option (String × List Char)
  | [] => none
  | '"' :: '"' :: '"' :: '"' :: '"' :: cs => some (String.ofList ('"' :: '"' :: done).reverse, cs)
  | '"' :: '"' :: '"' :: '"' :: cs => some (String.ofList ('"' :: done).reverse, cs)
  | '"' :: '"' :: '"' :: cs => some (String.ofList done.reverse, cs)
  | '\\' :: 'u' :: a :: b :: c :: d :: cs => do
    longBasicRest false ((← Hex.char? [a, b, c, d]) :: done) cs
  | '\\' :: 'U' :: a :: b :: c :: d :: e :: f :: g :: h :: cs => do
    longBasicRest false ((← Hex.char? [a, b, c, d, e, f, g, h]) :: done) cs
  | '\\' :: e :: cs => do
    if isLineEnd (e :: cs) then longBasicRest true done (e :: cs)
    else longBasicRest false ((← escape? e) :: done) cs
  | '\r' :: '\n' :: cs => longBasicRest skip (if skip then done else '\n' :: done) cs
  | c :: cs =>
    if skip && (isBlank c || c = '\n') then longBasicRest true done cs
    else if isPlain c || c = '\n' then longBasicRest false (c :: done) cs
    else none

/-- The rest of a text in three single quotes. -/
def longLiteralRest (done : List Char) : List Char → Option (String × List Char)
  | [] => none
  | '\'' :: '\'' :: '\'' :: '\'' :: '\'' :: cs =>
    some (String.ofList ('\'' :: '\'' :: done).reverse, cs)
  | '\'' :: '\'' :: '\'' :: '\'' :: cs => some (String.ofList ('\'' :: done).reverse, cs)
  | '\'' :: '\'' :: '\'' :: cs => some (String.ofList done.reverse, cs)
  | '\r' :: '\n' :: cs => longLiteralRest ('\n' :: done) cs
  | c :: cs => if isPlain c || c = '\n' then longLiteralRest (c :: done) cs else none

/-- A text in quotes of any kind. -/
def text? : List Char → Option (String × List Char)
  | '"' :: '"' :: '"' :: cs => longBasicRest false [] (skipNewline cs)
  | '"' :: cs => basicRest [] cs
  | '\'' :: '\'' :: '\'' :: cs => longLiteralRest [] (skipNewline cs)
  | '\'' :: cs => literalRest cs
  | _ => none

def isBare (c : Char) : Bool := c.isAlphanum || c = '_' || c = '-'

def key? (cs : List Char) : Option (String × List Char) :=
  match cs with
  | '"' :: cs => basicRest [] cs
  | '\'' :: cs => literalRest cs
  | cs =>
    let name := cs.takeWhile isBare
    if name.isEmpty then none else some (String.ofList name, cs.drop name.length)

/-- Keys with points between them, at most `limit` of them. -/
def path? : (limit : Nat) → List Char → Option (List String × List Char)
  | 0, _ => none
  | limit + 1, cs => do
    let (key, cs) ← key? (skipBlanks cs)
    match skipBlanks cs with
    | '.' :: cs =>
      let (path, cs) ← path? limit cs
      return (key :: path, cs)
    | cs => return ([key], cs)

end Scriptlet.Toml
