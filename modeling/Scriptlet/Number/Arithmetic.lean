import Scriptlet.Number.Rounding

/-! Arithmetic on doubles: every finite result is the exact result rounded once. -/
namespace Scriptlet
namespace Number

/-- `± m` as an integer. -/
def signed (negative : Bool) (m : Nat) : Int := if negative then -(m : Int) else m

/-- Two dyadic integers brought to their smaller exponent. -/
def align (m₁ : Nat) (e₁ : Int) (m₂ : Nat) (e₂ : Int) : Nat × Nat × Int :=
  let e := min e₁ e₂
  (m₁ <<< (e₁ - e).toNat, m₂ <<< (e₂ - e).toNat, e)

/-- An exact zero sum is negative only when both terms are. -/
def add (x y : Number) : Number :=
  match x.unpack, y.unpack with
  | .nan, _ => nan
  | _, .nan => nan
  | .infinite s, .infinite t => if s = t then infinity s else nan
  | .infinite s, _ => infinity s
  | _, .infinite t => infinity t
  | .finite s m₁ e₁, .finite t m₂ e₂ =>
    let (a, b, e) := align m₁ e₁ m₂ e₂
    let sum := signed s a + signed t b
    if sum = 0 then zero (s && t) else ofDyadic (sum < 0) sum.natAbs e

def sub (x y : Number) : Number := x.add y.neg

def mul (x y : Number) : Number :=
  match x.unpack, y.unpack with
  | .nan, _ => nan
  | _, .nan => nan
  | .infinite s, .infinite t => infinity (s != t)
  | .infinite s, .finite t m _ => if m = 0 then nan else infinity (s != t)
  | .finite s m _, .infinite t => if m = 0 then nan else infinity (s != t)
  | .finite s m₁ e₁, .finite t m₂ e₂ => ofDyadic (s != t) (m₁ * m₂) (e₁ + e₂)

def div (x y : Number) : Number :=
  match x.unpack, y.unpack with
  | .nan, _ => nan
  | _, .nan => nan
  | .infinite _, .infinite _ => nan
  | .infinite s, .finite t _ _ => infinity (s != t)
  | .finite s _ _, .infinite t => zero (s != t)
  | .finite s m₁ e₁, .finite t m₂ e₂ =>
    if m₂ = 0 then if m₁ = 0 then nan else infinity (s != t)
    else
      let (n, d) := scaleRatio 2 m₁ m₂ (e₁ - e₂)
      ofRatio (s != t) n d

instance : Add Number := ⟨add⟩
instance : Sub Number := ⟨sub⟩
instance : Mul Number := ⟨mul⟩
instance : Div Number := ⟨div⟩

/-- Order of the exact values; a not-a-number compares with nothing. -/
def compare? (x y : Number) : Option Ordering :=
  match x.unpack, y.unpack with
  | .nan, _ => none
  | _, .nan => none
  | .infinite s, .infinite t => some (compare t s)
  | .infinite s, _ => some (if s then .lt else .gt)
  | _, .infinite t => some (if t then .gt else .lt)
  | .finite s m₁ e₁, .finite t m₂ e₂ =>
    let (a, b, _) := align m₁ e₁ m₂ e₂
    some (compare (signed s a) (signed t b))

/-- Equality of values: the two zeros are equal, a not-a-number differs even from itself. -/
def eq (x y : Number) : Bool := x.compare? y = some .eq
def lt (x y : Number) : Bool := x.compare? y = some .lt
def le (x y : Number) : Bool := x.lt y || x.eq y

/-- The integer part, toward zero; a zero result keeps the sign. -/
def trunc (x : Number) : Number :=
  match x.unpack with
  | .finite s m e =>
    let (n, d) := scaleRatio 2 m 1 e
    ofRatio s (n / d) 1
  | _ => x

/-- The exact remainder of the division truncated toward zero; it takes the sign of the dividend. -/
def rem (x y : Number) : Number :=
  match x.unpack, y.unpack with
  | .finite s m₁ e₁, .finite _ m₂ e₂ =>
    if m₂ = 0 then nan
    else
      let (a, b, e) := align m₁ e₁ m₂ e₂
      ofDyadic s (a % b) e
  | .finite _ _ _, .infinite _ => x
  | _, _ => nan

/-- Remainder of the integer parts with the sign of the divisor. -/
def floorMod (x y : Number) : Number :=
  if !x.isFinite || !y.isFinite then nan
  else
    let a := x.trunc
    let b := y.trunc
    if b.isZero then nan
    else
      let r := a.rem b
      if !r.isZero && r.isNegative != b.isNegative then r + b else r

end Number
end Scriptlet
