import Scriptlet.Number.Numeral
import Scriptlet.Number.Text

/-! Values of settings. Those that are read from text may stand for one another. -/
namespace Scriptlet

inductive Setting where
  | null
  | boolean (b : Bool)
  | integer (i : Int)
  | float (x : Number)
  | text (s : String)
  | list (items : List Setting)
  | table (entries : List (String × Setting))

/-- The entries of a table; every key stands once. -/
abbrev SettingTable := List (String × Setting)

namespace SettingTable

def set (t : SettingTable) (key : String) (v : Setting) : SettingTable :=
  match t with
  | [] => [(key, v)]
  | (k, w) :: t => if k == key then (key, v) :: t else (k, w) :: set t key v

/-- The entries of the table at a key, if there is one. -/
def inner (t : SettingTable) (key : String) : SettingTable :=
  match t.lookup key with
  | some (.table entries) => entries
  | _ => []

mutual

/-- Sets the value of a key, whose case does not matter. A table is added to what is there. -/
def merge (t : SettingTable) (key : String) : Setting → SettingTable
  | .table entries => t.set key.toLower (.table (mergeAll (t.inner key.toLower) entries))
  | v => t.set key.toLower v

def mergeAll (t : SettingTable) : List (String × Setting) → SettingTable
  | [] => t
  | (key, v) :: entries => mergeAll (t.merge key v) entries

end

/-- Sets the value at the end of a path. What stands on the way and is no table makes room for one. -/
def put (t : SettingTable) : List String → Setting → SettingTable
  | [], _ => t
  | [key], v => t.merge key v
  | key :: path, v => t.set key.toLower (.table (put (t.inner key.toLower) path v))

def isKey (s : String) : Bool :=
  !s.isEmpty && s.toList.all fun c => c.isAlphanum || c = '_' || c = '-' || c = ' '

/-- The path that a name gives: keys with points between them. -/
def path? (name : String) : Option (List String) :=
  let keys := name.splitOn "."
  if keys.all isKey then some keys else none

/-- The settings of a file. The keys of its outermost table may be paths. -/
def ofFile (entries : SettingTable) : SettingTable :=
  entries.foldl (fun t (name, v) => t.put ((path? name).getD [name]) v) []

end SettingTable

namespace Setting

/-- Words that stand for a truth value, in any case. -/
def ofWord? (s : String) : Option Bool :=
  let s := s.toLower
  if ["true", "on", "yes"].contains s then some true
  else if ["false", "off", "no"].contains s then some false
  else none

/-- A truth value; a number is true unless it is zero. -/
def toBool? : Setting → Option Bool
  | boolean b => some b
  | integer i => some (i != 0)
  | float x => some !x.isZero
  | text "1" => some true
  | text "0" => some false
  | text s => ofWord? s
  | null | list _ | table _ => none

/-- The nearest natural number that a word holds, a half going up; zero for what is no number. -/
def nearestWord (x : Number) : Nat :=
  match x.unpack with
  | .finite false m e =>
    let (n, d) := scaleRatio 2 m 1 e
    min ((2 * n + d) / (2 * d)) Numeral.maxWord
  | .infinite false => Numeral.maxWord
  | _ => 0

/-- A natural number; a truth value counts as zero or one. -/
def toWord? : Setting → Option Nat
  | boolean b => some b.toNat
  | integer i => if 0 ≤ i then some i.toNat else none
  | float x => some (nearestWord x)
  | text s =>
    match ofWord? s with
    | some b => some b.toNat
    | none => Numeral.word? s
  | null | list _ | table _ => none

def toText? : Setting → Option String
  | boolean b => some (toString b)
  | integer i => some (toString i)
  | float x => some x.plain
  | text s => some s
  | null | list _ | table _ => none

/-- A text, or none at all. -/
def toOptionalText? : Setting → Option (Option String)
  | null => some none
  | v => v.toText?.map some

end Setting
end Scriptlet
