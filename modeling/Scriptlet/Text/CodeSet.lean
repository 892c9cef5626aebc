/-! Sets of characters, as tables. -/
namespace Scriptlet.Text

/-- A set of characters, by the code points at which membership changes: those from the first entry
on belong to it, those from the second on do not, and so forth. -/
structure CodeSet where
  changes : Array Nat

/-- Whether an odd number of changes lies at or below a character. -/
def CodeSet.contains (s : CodeSet) (c : Char) : Bool := s.changes.countP (· ≤ c.toNat) % 2 = 1

end Scriptlet.Text
