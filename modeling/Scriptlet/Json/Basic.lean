import Scriptlet.Number.Rounding

/-! JSON values. Numbers are kept as exact decimals, and fields in the order in which they stand. -/
namespace Scriptlet

inductive Json where
  | null
  | boolean (value : Bool)
  | number (value : Decimal)
  | string (value : String)
  | array (items : List Json)
  | object (fields : List (String × Json))

namespace Json

instance : Inhabited Json := ⟨null⟩

/-- The value of the first field with the given name. -/
def get? : Json → String → Option Json
  | object fields, key => (fields.find? (·.1 == key)).map (·.2)
  | _, _ => none

mutual

/-- How many arrays and objects stand inside one another. -/
def depth : Json → Nat
  | array items => depthItems items + 1
  | object fields => depthFields fields + 1
  | _ => 0

def depthItems : List Json → Nat
  | [] => 0
  | j :: js => max j.depth (depthItems js)

def depthFields : List (String × Json) → Nat
  | [] => 0
  | (_, j) :: fs => max j.depth (depthFields fs)

end

end Json
end Scriptlet
