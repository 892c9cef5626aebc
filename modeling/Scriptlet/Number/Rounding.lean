import Scriptlet.Number.Basic

/-! Rounding of exact ratios to the nearest double, ties to even. -/
namespace Scriptlet

/-- A decimal numeral: `± coefficient * 10 ^ exponent`. -/
structure Decimal where
  negative : Bool
  coefficient : Nat
  exponent : Int
deriving DecidableEq, Inhabited

/-- The natural number nearest to `num / den`, the even one of two equally near. -/
def roundHalfEven (num den : Nat) : Nat :=
  let q := num / den
  let r := num % den
  if 2 * r < den then q
  else if den < 2 * r then q + 1
  else q + q % 2

/-- A fraction equal to `num / den * base ^ exponent`, as numerator and denominator. -/
def scaleRatio (base : Nat) (num den : Nat) (exponent : Int) : Nat × Nat :=
  if 0 ≤ exponent then (num * base.pow exponent.toNat, den)
  else (num, den * base.pow (-exponent).toNat)

namespace Number

/-- The exponent of the grid to which a positive ratio is rounded: the quotient by `2 ^ gridExponent`
is below `2 ^ 53`, and at least `2 ^ 52` unless the grid is the finest one. -/
def gridExponent (num den : Nat) : Int :=
  let e := max minExponent ((num.log2 : Int) - den.log2 - 53)
  let (n, d) := scaleRatio 2 num den (-e)
  if d <<< 53 ≤ n then e + 1 else e

/-- The double nearest to `± num / den`. A grid exponent and a rounded significand add up to the
bits, since a significand that reaches `2 ^ 53` carries into the exponent field. -/
def ofRatio (negative : Bool) (num den : Nat) : Number :=
  if num = 0 then zero negative
  else
    let e := gridExponent num den
    let (n, d) := scaleRatio 2 num den (-e)
    ofMagnitude negative ((e - minExponent).toNat <<< 52 + roundHalfEven n d)

/-- The double nearest to `± m * 2 ^ e`. -/
def ofDyadic (negative : Bool) (m : Nat) (e : Int) : Number :=
  let (n, d) := scaleRatio 2 m 1 e
  ofRatio negative n d

def ofInt (i : Int) : Number := ofRatio (i < 0) i.natAbs 1

def ofNat (n : Nat) : Number := ofInt n

/-- The double nearest to a decimal numeral; a zero keeps its sign. -/
def ofDecimal (x : Decimal) : Number :=
  let (n, d) := scaleRatio 10 x.coefficient 1 x.exponent
  ofRatio x.negative n d

end Number
end Scriptlet
