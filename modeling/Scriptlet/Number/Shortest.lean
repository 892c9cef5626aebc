import Scriptlet.Number.Rounding

/-! The shortest decimal numeral that reads back as a given double. -/
namespace Scriptlet

/-- The positive reals that round to one double, over a common denominator: all of them lie between
`low / den` and `high / den`, and the ends belong to them when `closed`. -/
structure Basin where
  low : Nat
  value : Nat
  high : Nat
  den : Nat
  closed : Bool

/-- Which of two equally near decimals is taken: the upper one, or the one with an even last digit. -/
inductive Tie where
  | upper
  | even
deriving DecidableEq

namespace Basin

/-- The basin of `m * 2 ^ e`. Half a unit lies on either side, but below the least significand of
a normal number the next double is only half as far away. -/
def ofDyadic (m : Nat) (e : Int) : Basin :=
  let below := if m = 1 <<< 52 ∧ Number.minExponent < e then 1 else 2
  let scale := (scaleRatio 2 1 1 (e - 2)).1
  { low := (4 * m - below) * scale
    value := 4 * m * scale
    high := (4 * m + 2) * scale
    den := (scaleRatio 2 1 1 (e - 2)).2
    closed := m % 2 = 0 }

/-- Whether `num / den'` is in the basin, where `den' = basin.den * unit`. -/
def holds (b : Basin) (unit num : Nat) : Bool :=
  if b.closed then b.low * unit ≤ num && num ≤ b.high * unit
  else b.low * unit < num && num < b.high * unit

/-- The multiple of `10 ^ place` in the basin that is nearest to its value, if there is one.
It is one of the value's two neighbours. -/
def pick (tie : Tie) (b : Basin) (place : Int) : Option Nat :=
  let (unit, den) := scaleRatio 10 1 b.den (-place)
  let below := b.value * unit / den
  let rest := b.value * unit % den
  let goesUp := den < 2 * rest || (den = 2 * rest && (tie = .upper || below % 2 = 1))
  if b.holds unit ((below + 1) * den) && (goesUp || !b.holds unit (below * den)) then
    some (below + 1)
  else if b.holds unit (below * den) then some below
  else none

/-- The first place, going down from the given one, at which the basin has a multiple. -/
def search (tie : Tie) (b : Basin) : Nat → Int → Decimal
  | 0, place => ⟨false, 0, place⟩
  | fuel + 1, place =>
    match b.pick tie place with
    | some c => ⟨false, c, place⟩
    | none => b.search tie fuel (place - 1)

end Basin

namespace Decimal

/-- Moves trailing zeros of the coefficient into the exponent. -/
def stripZeros : Nat → Decimal → Decimal
  | 0, x => x
  | fuel + 1, x =>
    if x.coefficient ≠ 0 ∧ x.coefficient % 10 = 0 then
      stripZeros fuel { x with coefficient := x.coefficient / 10, exponent := x.exponent + 1 }
    else x

end Decimal

namespace Number

/-- A place above the leading digit of `m * 2 ^ e`: three decimal digits hold more than nine bits. -/
def topPlace (m : Nat) (e : Int) : Int := Int.fdiv (((m.log2 : Int) + e + 1) * 30103) 100000 + 2

/-- Of the decimals that read back as the number, those with the fewest digits, and of these the
nearest. Seventeen digits always suffice. Infinities and not-a-numbers have none. -/
def shortest? (tie : Tie) (x : Number) : Option Decimal :=
  match x.unpack with
  | .finite s m e =>
    if m = 0 then some ⟨s, 0, 0⟩
    else
      let d := ((Basin.ofDyadic m e).search tie 22 (topPlace m e)).stripZeros 22
      some { d with negative := s }
  | _ => none

end Number
end Scriptlet
