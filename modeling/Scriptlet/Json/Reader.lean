import Scriptlet.Json.Basic
import Scriptlet.Number.Numeral
import Scriptlet.Text.Hex

/-! Reading JSON. Every scanner gives a value and the text behind it. -/
namespace Scriptlet.Json

/-- Arrays and objects may stand inside one another up to this depth. -/
def maxDepth : Nat := 127

def isBlank (c : Char) : Bool := c = ' ' || c = '\n' || c = '\t' || c = '\r'

def skipBlanks (cs : List Char) : List Char := cs.dropWhile isBlank

/-- Four hexadecimal digits. -/
def codeUnit? : List Char → Option (Nat × List Char)
  | a :: b :: c :: d :: cs => do
    let a ← Hex.value? a
    let b ← Hex.value? b
    let c ← Hex.value? c
    let d ← Hex.value? d
    some (a * 4096 + b * 256 + c * 16 + d, cs)
  | _ => none

/-- The character given by one code unit, or by two that form a pair. -/
def escapedChar? (cs : List Char) : Option (Char × List Char) := do
  let (high, cs) ← codeUnit? cs
  if 0xd800 ≤ high ∧ high < 0xdc00 then
    match cs with
    | '\\' :: 'u' :: cs =>
      let (low, cs) ← codeUnit? cs
      if 0xdc00 ≤ low ∧ low < 0xe000 then
        some (Char.ofNat (0x10000 + (high - 0xd800) * 0x400 + (low - 0xdc00)), cs)
      else none
    | _ => none
  else if 0xdc00 ≤ high ∧ high < 0xe000 then none
  else some (Char.ofNat high, cs)

/-- What a letter after a backslash stands for. -/
def simpleEscape? : Char → Option Char
  | '"' => some '"'
  | '\\' => some '\\'
  | '/' => some '/'
  | 'b' => some '\x08'
  | 'f' => some '\x0c'
  | 'n' => some '\n'
  | 'r' => some '\r'
  | 't' => some '\t'
  | _ => none

/-- The rest of a string up to its closing quote; `done` is what was read, last character first. -/
def stringRest : Nat → List Char → List Char → Option (String × List Char)
  | 0, _, _ => none
  | limit + 1, done, cs =>
    match cs with
    | [] => none
    | '"' :: cs => some (String.ofList done.reverse, cs)
    | '\\' :: 'u' :: cs => do
      let (c, cs) ← escapedChar? cs
      stringRest limit (c :: done) cs
    | '\\' :: e :: cs => do
      let c ← simpleEscape? e
      stringRest limit (c :: done) cs
    | c :: cs => if c.toNat < 0x20 || c = '\\' then none else stringRest limit (c :: done) cs

/-- Appends digits to a coefficient for as long as it fits into a word; gives what is left over. -/
def fill (coefficient : Nat) : List Char → Nat × List Char
  | [] => (coefficient, [])
  | d :: ds =>
    let next := 10 * coefficient + (d.toNat - '0'.toNat)
    if next ≤ Numeral.maxWord then fill next ds else (coefficient, d :: ds)

/-- A numeral without sign. Digits beyond those that fit into a word do not count; a coefficient
cut short before the point is filled up from behind it. -/
def unsigned (cs : List Char) : Option (Decimal × List Char) := do
  let whole := cs.takeWhile Char.isDigit
  let cs := cs.drop whole.length
  if whole.isEmpty || (whole.head? = some '0' && whole.length ≠ 1) then none
  let (fraction, cs) ← match cs with
    | '.' :: cs =>
      let fraction := cs.takeWhile Char.isDigit
      if fraction.isEmpty then none else some (fraction, cs.drop fraction.length)
    | cs => some ([], cs)
  let (e, cs) ← Decimal.exponent? (whole.length + fraction.length) cs
  let (coefficient, wholeLeft) := fill 0 whole
  let (coefficient, fractionLeft) := fill coefficient fraction
  let places : Int := fraction.length - fractionLeft.length
  some (⟨false, coefficient, e + wholeLeft.length - places⟩, cs)

/-- A value that holds no other. -/
def scalar (limit : Nat) (cs : List Char) : Option (Json × List Char) :=
  match cs with
  | 'n' :: 'u' :: 'l' :: 'l' :: cs => some (null, cs)
  | 't' :: 'r' :: 'u' :: 'e' :: cs => some (boolean true, cs)
  | 'f' :: 'a' :: 'l' :: 's' :: 'e' :: cs => some (boolean false, cs)
  | '"' :: cs => (stringRest limit [] cs).map fun (s, cs) => (string s, cs)
  | '-' :: cs => (unsigned cs).map fun (d, cs) => (number { d with negative := true }, cs)
  | cs => (unsigned cs).map fun (d, cs) => (number d, cs)

/-- The items of an array that is not empty, up to its closing bracket. -/
def itemsRest (value : List Char → Option (Json × List Char)) :
    Nat → List Char → Option (List Json × List Char)
  | 0, _ => none
  | limit + 1, cs => do
    let (j, cs) ← value (skipBlanks cs)
    match skipBlanks cs with
    | ',' :: cs =>
      let (js, cs) ← itemsRest value limit cs
      some (j :: js, cs)
    | ']' :: cs => some ([j], cs)
    | _ => none

/-- The fields of an object that is not empty, up to its closing brace. -/
def fieldsRest (value : List Char → Option (Json × List Char)) :
    Nat → List Char → Option (List (String × Json) × List Char)
  | 0, _ => none
  | limit + 1, cs => do
    match skipBlanks cs with
    | '"' :: cs =>
      let (k, cs) ← stringRest limit [] cs
      match skipBlanks cs with
      | ':' :: cs =>
        let (j, cs) ← value (skipBlanks cs)
        match skipBlanks cs with
        | ',' :: cs =>
          let (fs, cs) ← fieldsRest value limit cs
          some ((k, j) :: fs, cs)
        | '\x7d' :: cs => some ([(k, j)], cs)
        | _ => none
      | _ => none
    | _ => none

/-- A value with at most the given number of arrays and objects inside one another. -/
def value (limit : Nat) : Nat → List Char → Option (Json × List Char)
  | 0, cs => scalar limit cs
  | depth + 1, cs =>
    match cs with
    | '[' :: cs =>
      match skipBlanks cs with
      | ']' :: cs => some (array [], cs)
      | cs => (itemsRest (value limit depth) limit cs).map fun (js, cs) => (array js, cs)
    | '\x7b' :: cs =>
      match skipBlanks cs with
      | '\x7d' :: cs => some (object [], cs)
      | cs => (fieldsRest (value limit depth) limit cs).map fun (fs, cs) => (object fs, cs)
    | cs => scalar limit cs

/-- The value that a text denotes. -/
def parse? (s : String) : Option Json :=
  let cs := s.toList
  match value (cs.length + 1) maxDepth (skipBlanks cs) with
  | some (j, rest) => if (skipBlanks rest).isEmpty then some j else none
  | none => none

end Scriptlet.Json
