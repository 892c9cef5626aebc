import Scriptlet.Number.Numeral
import Scriptlet.Text.Hex

/-! Numbers in TOML. Underscores may stand between digits. -/
namespace Scriptlet.Toml

/-- Digits, with single underscores between them taken out. -/
def ungroup (isDigit : Char → Bool) : List Char → Option (List Char)
  | [] => none
  | [c] => if isDigit c then some [c] else none
  | c :: '_' :: cs => if isDigit c then (ungroup isDigit cs).map (c :: ·) else none
  | c :: cs => if isDigit c then (ungroup isDigit cs).map (c :: ·) else none

/-- Decimal digits that do not start with a needless zero. -/
def whole? (cs : List Char) : Option (List Char) := do
  let ds ← ungroup Char.isDigit cs
  if ds.head? = some '0' && ds.length ≠ 1 then none else some ds

def inBase? (base : Nat) (cs : List Char) : Option Nat := do
  let isDigit (c : Char) : Bool := match Hex.value? c with
    | some d => d < base
    | none => false
  return Hex.valueIn base (← ungroup isDigit cs)

def integer? (cs : List Char) : Option Int := do
  let i ← match cs with
    | '0' :: 'x' :: cs => (inBase? 16 cs).map Int.ofNat
    | '0' :: 'o' :: cs => (inBase? 8 cs).map Int.ofNat
    | '0' :: 'b' :: cs => (inBase? 2 cs).map Int.ofNat
    | cs =>
      let (negative, cs) := Decimal.signed cs
      (whole? cs).map fun ds =>
        let n : Int := Decimal.digitsValue ds
        if negative then -n else n
  if Numeral.fitsWord i then some i else none

/-- The part after the point and the power of ten of a number; one of them must be there. -/
def floatTail? (cs : List Char) : Option (List Char) := do
  let power? (cs : List Char) : Option (List Char) := match cs with
    | [] => some []
    | e :: cs =>
      if e = 'e' || e = 'E' then
        let (negative, cs) := Decimal.signed cs
        (ungroup Char.isDigit cs).map fun ds => 'e' :: if negative then '-' :: ds else ds
      else none
  match cs with
  | [] => none
  | '.' :: cs =>
    let fraction := cs.takeWhile fun c => c.isDigit || c = '_'
    let power ← power? (cs.drop fraction.length)
    return '.' :: (← ungroup Char.isDigit fraction) ++ power
  | cs => power? cs

/-- A number with a point or a power of ten. One too large to be finite is refused. -/
def float? (cs : List Char) : Option Number := do
  let (negative, cs) := Decimal.signed cs
  let x ←
    if cs = ['i', 'n', 'f'] then some (Number.infinity false)
    else if cs = ['n', 'a', 'n'] then some .nan
    else
      let front := cs.takeWhile fun c => c.isDigit || c = '_'
      let d ← Decimal.ofUnsigned? ((← whole? front) ++ (← floatTail? (cs.drop front.length)))
      let x := Number.ofDecimal d
      if x = .infinity false && !negative then none else some x
  return if negative then x.neg else x

end Scriptlet.Toml
