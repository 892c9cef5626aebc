/-! Sums over a range of words, by a loop and in closed form. -/
namespace Scriptlet.Sums

/-- Goes over `left` numbers from `i` on and adds up those to keep. -/
def sumFrom (keep : UInt64 → Bool) : Nat → UInt64 → UInt64 → UInt64
  | 0, _, sum => sum
  | left + 1, i, sum => sumFrom keep left (i + 1) (if keep i then sum + i else sum)

/-- The sum of the numbers below `n` that are to be kept. -/
def sumBelow (keep : UInt64 → Bool) (n : UInt64) : UInt64 := sumFrom keep n.toNat 0 0

/-- The sum of the numbers below half of `n`. -/
def lowerHalf (n : UInt64) : UInt64 := sumBelow (fun i => 2 * i < n) n

/-- The sum of the numbers below `n` that three does not divide. -/
def nonMultiples (n : UInt64) : UInt64 := sumBelow (fun i => i % 3 != 0) n

/-- A product that fits into a word. -/
def mul? (a b : UInt64) : Option UInt64 :=
  if a.toNat * b.toNat < UInt64.size then some (a * b) else none

/-- A difference that is not negative. -/
def sub? (a b : UInt64) : Option UInt64 := if b ≤ a then some (a - b) else none

/-- The quotient rounded up, for a divisor above zero. -/
def ceilDiv (n d : UInt64) : UInt64 := if n % d = 0 then n / d else n / d + 1

/-- The sum of the numbers below `k`, if it fits into a word. -/
def triangle? (k : UInt64) : Option UInt64 :=
  if k = 0 then some 0
  else if k % 2 = 0 then mul? (k / 2) (k - 1)
  else mul? k ((k - 1) / 2)

/-- Closed form of `lowerHalf`. -/
def lowerHalf? (n : UInt64) : Option UInt64 := triangle? (ceilDiv n 2)

/-- Closed form of `nonMultiples`: all numbers less the multiples of three. -/
def nonMultiples? (n : UInt64) : Option UInt64 := do
  let multiples ← mul? (← triangle? (ceilDiv n 3)) 3
  sub? (← triangle? n) multiples

end Scriptlet.Sums
