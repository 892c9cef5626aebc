/-! Where scripts print: bytes, up to a capacity if there is one. -/
namespace Scriptlet

structure Output where
  bytes : Array UInt8
  capacity : Option Nat

namespace Output

def unlimited : Output := ⟨#[], none⟩

def limited (capacity : Nat) : Output := ⟨#[], some capacity⟩

/-- Why a write fails. -/
def full : String := "sink full"

/-- Adds bytes as far as they fit, and says whether all of them did. -/
def append (out : Output) (bytes : Array UInt8) : Bool × Output :=
  match out.capacity with
  | none => (true, { out with bytes := out.bytes ++ bytes })
  | some n =>
    if out.bytes.size + bytes.size ≤ n then (true, { out with bytes := out.bytes ++ bytes })
    else (false, { out with bytes := out.bytes ++ bytes.extract 0 (n - out.bytes.size) })

def write (out : Output) (s : String) : Bool × Output := out.append s.toUTF8.data

/-- The bytes from a place on, as text. A character that the capacity cut in two is left out. -/
def textFrom (out : Output) (start : Nat) : String :=
  let bytes := out.bytes.extract start out.bytes.size
  let cut (n : Nat) : Option String := String.fromUTF8? ⟨bytes.extract 0 (bytes.size - n)⟩
  (cut 0 <|> cut 1 <|> cut 2 <|> cut 3).getD ""

def text (out : Output) : String := out.textFrom 0

end Output
end Scriptlet
