import Scriptlet.Number.Rounding

/-! How numbers are read from text. -/
namespace Scriptlet
namespace Decimal

/-- The value of a sequence of decimal digits. -/
def digitsValue (ds : List Char) : Nat := ds.foldl (fun n d => 10 * n + (d.toNat - '0'.toNat)) 0

def allDigits (ds : List Char) : Bool := !ds.isEmpty && ds.all Char.isDigit

/-- Takes off a sign; the flag says whether it is a minus. -/
def signed : List Char → Bool × List Char
  | '-' :: cs => (true, cs)
  | '+' :: cs => (false, cs)
  | cs => (false, cs)

/-- The power of ten of a numeral of so many digits. One that takes the numeral out of range is cut
down to a smaller one that does so as well. -/
def power (digits : Nat) (negative : Bool) (ds : List Char) : Int :=
  let e : Int := min (digitsValue ds) (20000 + digits)
  if negative then -e else e

/-- Splits off the power of ten of a numeral of so many digits, if there is one; `none` if it is
incomplete. -/
def exponent? (digits : Nat) (cs : List Char) : Option (Int × List Char) :=
  match cs with
  | [] => some (0, [])
  | c :: rest =>
    if c = 'e' || c = 'E' then
      let (negative, rest) := signed rest
      let ds := rest.takeWhile Char.isDigit
      if ds.isEmpty then none else some (power digits negative ds, rest.drop ds.length)
    else some (0, cs)

/-- A numeral without sign: digits, of which some may stand after a point, and a power of ten. -/
def ofUnsigned? (cs : List Char) : Option Decimal := do
  let whole := cs.takeWhile Char.isDigit
  let rest := cs.drop whole.length
  let (fraction, rest) := match rest with
    | '.' :: cs => (cs.takeWhile Char.isDigit, cs.dropWhile Char.isDigit)
    | cs => ([], cs)
  if whole.isEmpty && fraction.isEmpty then none
  let (e, rest) ← exponent? (whole.length + fraction.length) rest
  if rest.isEmpty then some ⟨false, digitsValue (whole ++ fraction), e - fraction.length⟩ else none

end Decimal

namespace Number

/-- A number without sign; those that are not finite are given by name, in any case. -/
def ofUnsigned? (cs : List Char) : Option Number :=
  let name := (String.ofList cs).toLower
  if name == "inf" || name == "infinity" then some (infinity false)
  else if name == "nan" then some nan
  else (Decimal.ofUnsigned? cs).map ofDecimal

/-- A number with an optional sign. -/
def ofText? (s : String) : Option Number :=
  match s.toList with
  | '-' :: cs => (ofUnsigned? cs).map neg
  | '+' :: cs => ofUnsigned? cs
  | cs => ofUnsigned? cs

end Number

namespace Numeral

/-- Decimal digits with an optional plus sign. -/
def nat? (s : String) : Option Nat :=
  let ds := match s.toList with
    | '+' :: ds => ds
    | ds => ds
  if Decimal.allDigits ds then some (Decimal.digitsValue ds) else none

/-- The greatest number that a word holds. -/
def maxWord : Nat := UInt64.size - 1

/-- A natural number that fits into a word. -/
def word? (s : String) : Option Nat := (nat? s).filter (· ≤ maxWord)

/-- Whether an integer fits into a signed word. -/
def fitsWord (i : Int) : Bool := Int64.minValue.toInt ≤ i && i ≤ Int64.maxValue.toInt

/-- An integer that fits into a signed word. -/
def int? (s : String) : Option Int :=
  let i? := match s.toList with
    | '-' :: ds =>
      if Decimal.allDigits ds then some (-(Decimal.digitsValue ds : Int)) else none
    | _ => (nat? s).map Int.ofNat
  i?.filter fitsWord

end Numeral
end Scriptlet
