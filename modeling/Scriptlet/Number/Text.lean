import Scriptlet.Number.Shortest

/-! How numbers are written. -/
namespace Scriptlet

/-- Choices of a number format. -/
structure NumberLayout where
  /-- Whether a numeral whose leading digit stands at this power of ten is written without exponent. -/
  positional : Int → Bool
  /-- Whether a whole number is written with a final `.0`. -/
  keepPoint : Bool
  /-- How the last of the shortest digits is chosen where two would do. -/
  tie : Tie

namespace Decimal

def digits (x : Decimal) : String := toString x.coefficient

/-- The power of ten at which the leading digit stands. -/
def leadingPlace (x : Decimal) : Int := (x.digits.length : Int) + x.exponent - 1

def sign (x : Decimal) : String := if x.negative then "-" else ""

def zeros (n : Nat) : String := String.ofList (List.replicate n '0')

/-- Plain digits with a decimal point where one is needed. -/
def positional (keepPoint : Bool) (x : Decimal) : String :=
  let ds := x.digits.toList
  let whole := (x.leadingPlace + 1).toNat
  if 0 ≤ x.exponent then
    x.digits ++ zeros x.exponent.toNat ++ (if keepPoint then ".0" else "")
  else if 0 ≤ x.leadingPlace then
    String.ofList (ds.take whole) ++ "." ++ String.ofList (ds.drop whole)
  else "0." ++ zeros (-x.leadingPlace - 1).toNat ++ x.digits

/-- One digit, the others after a point, and a signed power of ten. -/
def scientific (x : Decimal) : String :=
  let ds := x.digits.toList
  let fraction := if ds.length ≤ 1 then "" else "." ++ String.ofList (ds.drop 1)
  let power := (if 0 ≤ x.leadingPlace then "e+" else "e-") ++ toString x.leadingPlace.natAbs
  String.ofList (ds.take 1) ++ fraction ++ power

def render (layout : NumberLayout) (x : Decimal) : String :=
  x.sign ++
    (if layout.positional x.leadingPlace then x.positional layout.keepPoint else x.scientific)

end Decimal

namespace Number

/-- Scripts print numbers positionally from `1e-6` up to, but not including, `1e21`. -/
def displayLayout : NumberLayout where
  positional place := -6 ≤ place && place < 21
  keepPoint := false
  tie := .upper

/-- All digits, a whole number with or without a final `.0`. -/
def plainLayout (keepPoint : Bool) : NumberLayout where
  positional _ := true
  keepPoint := keepPoint
  tie := .upper

/-- The text of a number without exponent. -/
def plainText (keepPoint : Bool) (x : Number) : String :=
  match x.shortest? (plainLayout keepPoint).tie with
  | some d => d.render (plainLayout keepPoint)
  | none => if x.isNaN then "NaN" else if x.isNegative then "-inf" else "inf"

def plain (x : Number) : String := x.plainText false

def pointed (x : Number) : String := x.plainText true

/-- The text of a number as scripts see it; both zeros are `0`. -/
def display (x : Number) : String :=
  if x.isZero then "0"
  else match x.shortest? displayLayout.tie with
    | some d => d.render displayLayout
    | none => if x.isNaN then "NaN" else if x.isNegative then "-Infinity" else "Infinity"

end Number
end Scriptlet
