import Scriptlet.Number.Numeral
import Scriptlet.Reader.Basic

/-! Tokens of scripts. Each scanner gives the token's meaning and its length. -/
namespace Scriptlet.Token

def isNameChar (c : Char) : Bool := c.isAlphanum || c = '_'

def isNameStart (c : Char) : Bool := c.isAlpha || c = '_'

def keywords : List String := ["while", "if", "return", "function", "true", "false"]

/-- The given word, not followed by a further character of a name. -/
def word (w : String) (cs : List Char) : Option (Unit × Nat) :=
  if w.toList.isPrefixOf cs && !((cs.drop w.length).head?.any isNameChar) then some ((), w.length)
  else none

/-- A name is no keyword, but may begin with one. -/
def identifier (cs : List Char) : Option (String × Nat) :=
  let name := cs.takeWhile isNameChar
  if cs.head?.any isNameStart && !keywords.contains (String.ofList name) then
    some (String.ofList name, name.length)
  else none

def boolean (cs : List Char) : Option (Bool × Nat) :=
  match word "true" cs with
  | some (_, n) => some (true, n)
  | none => (word "false" cs).map fun (_, n) => (false, n)

/-- A text runs to the next quote and may hold line ends. -/
def text (cs : List Char) : Option (String × Nat) :=
  match cs with
  | '"' :: cs =>
    let content := cs.takeWhile (· ≠ '"')
    if (cs.drop content.length).isEmpty then none
    else some (String.ofList content, content.length + 2)
  | _ => none

/-- Digits with an optional point among or after them, or with a point before them. -/
def unsigned (cs : List Char) : Option (Decimal × Nat) :=
  let whole := cs.takeWhile Char.isDigit
  match cs.drop whole.length with
  | '.' :: cs =>
    let fraction := cs.takeWhile Char.isDigit
    if whole.isEmpty && fraction.isEmpty then none
    else
      some (⟨false, Decimal.digitsValue (whole ++ fraction), -fraction.length⟩,
        whole.length + 1 + fraction.length)
  | _ =>
    if whole.isEmpty then none else some (⟨false, Decimal.digitsValue whole, 0⟩, whole.length)

/-- A numeral; a sign directly before the digits belongs to it. -/
def numeral (cs : List Char) : Option (Decimal × Nat) :=
  match cs with
  | '+' :: cs => (unsigned cs).map fun (d, n) => (d, n + 1)
  | '-' :: cs => (unsigned cs).map fun (d, n) => ({ d with negative := true }, n + 1)
  | cs => unsigned cs

def number (cs : List Char) : Option (Number × Nat) :=
  (numeral cs).map fun (d, n) => (Number.ofDecimal d, n)

end Scriptlet.Token
