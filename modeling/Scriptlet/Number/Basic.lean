/-! Double-precision numbers as sixty-four bits, and the exact value that the bits stand for. -/
namespace Scriptlet

/-- A double-precision number. It is kept as its bits, so that the two zeros and the many
not-a-number patterns stay apart; arithmetic never looks at a not-a-number's payload. -/
structure Number where
  bits : UInt64
deriving DecidableEq, Inhabited

/-- What the bits of a number stand for; `finite` is `± significand * 2 ^ exponent`. -/
inductive Unpacked where
  | nan
  | infinite (negative : Bool)
  | finite (negative : Bool) (significand : Nat) (exponent : Int)
deriving DecidableEq

namespace Number

/-- Weight of the lowest bit of a subnormal number, as a power of two. -/
def minExponent : Int := -1074

/-- The bits of positive infinity; every greater magnitude is a not-a-number. -/
def infinityBits : Nat := 0x7ff <<< 52

/-- The number with the given sign whose other bits are `magnitude`, cut off at infinity. -/
def ofMagnitude (negative : Bool) (magnitude : Nat) : Number :=
  ⟨UInt64.ofNat ((if negative then 1 <<< 63 else 0) + min magnitude infinityBits)⟩

def isNegative (x : Number) : Bool := 1 <<< 63 ≤ x.bits.toNat

/-- The bits below the sign. -/
def magnitude (x : Number) : Nat := x.bits.toNat % 1 <<< 63

def nan : Number := ⟨0x7ff8000000000000⟩

def zero (negative : Bool) : Number := ofMagnitude negative 0

def infinity (negative : Bool) : Number := ofMagnitude negative infinityBits

def unpack (x : Number) : Unpacked :=
  let field := x.magnitude >>> 52
  let fraction := x.magnitude % 1 <<< 52
  if field = 0x7ff then
    if fraction = 0 then .infinite x.isNegative else .nan
  else if field = 0 then .finite x.isNegative fraction minExponent
  else .finite x.isNegative (1 <<< 52 + fraction) (minExponent + (field - 1 : Nat))

def isNaN (x : Number) : Bool := infinityBits < x.magnitude

def isFinite (x : Number) : Bool := x.magnitude < infinityBits

def isZero (x : Number) : Bool := x.magnitude = 0

/-- The same magnitude with the other sign. -/
def neg (x : Number) : Number := ⟨x.bits ^^^ 0x8000000000000000⟩

instance : Neg Number := ⟨neg⟩

end Number
end Scriptlet
