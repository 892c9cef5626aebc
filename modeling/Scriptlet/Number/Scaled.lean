import Scriptlet.Number.Arithmetic

/-! Numbers times powers of ten, in steps each of which rounds. -/
namespace Scriptlet.Number

/-- The greatest power of ten that is in range. -/
def maxTenExponent : Nat := 308

/-- The double nearest to a power of ten. -/
def tenTo (k : Nat) : Number := ofDecimal ⟨false, 1, k⟩

/-- `x * 10 ^ e`, rounded once for every multiplication or division by a power of ten; `none` if it
is out of range. -/
def scaled? (x : Number) (e : Int) : Option Number :=
  if maxTenExponent < e then
    if x.isZero then some x else none
  else if 0 ≤ e then
    let y := x * tenTo e.toNat
    if y.isFinite then some y else none
  else if -maxTenExponent ≤ e then some (x / tenTo (-e).toNat)
  else if x.isZero then some x
  else scaled? (x / tenTo maxTenExponent) (e + maxTenExponent)
termination_by (-e).toNat
decreasing_by
  simp only [maxTenExponent] at *
  omega

/-- A numeral in two steps: the coefficient is rounded to a double, which is then scaled. The result
may be a neighbour of the nearest double. -/
def ofScaled? (d : Decimal) : Option Number :=
  (scaled? (ofNat d.coefficient) d.exponent).map fun x => if d.negative then x.neg else x

end Scriptlet.Number
