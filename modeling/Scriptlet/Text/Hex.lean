/-! Digits beyond nine. -/
namespace Scriptlet.Hex

/-- The value of a hexadecimal digit in either case. -/
def value? (c : Char) : Option Nat :=
  if c.isDigit then some (c.toNat - '0'.toNat)
  else if 'a' ≤ c ∧ c ≤ 'f' then some (c.toNat - 'a'.toNat + 10)
  else if 'A' ≤ c ∧ c ≤ 'F' then some (c.toNat - 'A'.toNat + 10)
  else none

/-- The number with these digits. -/
def valueIn (base : Nat) (ds : List Char) : Nat :=
  ds.foldl (fun n d => base * n + (value? d).getD 0) 0

/-- The character with this code point, unless it is no character. -/
def char? (ds : List Char) : Option Char :=
  let n := valueIn 16 ds
  if (ds.all fun d => (value? d).isSome) && n.isValidChar then some (Char.ofNat n) else none

end Scriptlet.Hex
