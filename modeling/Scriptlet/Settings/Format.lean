import Scriptlet.Json.Reader
import Scriptlet.Number.Scaled
import Scriptlet.Settings.Toml.Document

/-! The notations of settings files. -/
namespace Scriptlet

mutual

/-- The setting that a JSON value gives. A number without point and power of ten is an integer, if it
fits into a signed word. -/
def Setting.ofJson? : Json → Option Setting
  | .null => some .null
  | .boolean b => some (.boolean b)
  | .number d =>
    let i : Int := if d.negative then -d.coefficient else d.coefficient
    if d.exponent = 0 && d != ⟨true, 0, 0⟩ && Numeral.fitsWord i then some (.integer i)
    else (Number.ofScaled? d).map .float
  | .string s => some (.text s)
  | .array items => (Setting.itemsOfJson? items).map .list
  | .object fields => (Setting.entriesOfJson? fields).map .table

def Setting.itemsOfJson? : List Json → Option (List Setting)
  | [] => some []
  | j :: js => do return (← Setting.ofJson? j) :: (← Setting.itemsOfJson? js)

/-- Of several fields with one name the last one counts. -/
def Setting.entriesOfJson? : List (String × Json) → Option SettingTable
  | [] => some []
  | (key, j) :: fields => do
    let v ← Setting.ofJson? j
    let t ← Setting.entriesOfJson? fields
    return if (t.lookup key).isSome then t else (key, v) :: t

end

/-- A notation of settings files. -/
inductive Format where
  | toml
  | json
deriving DecidableEq

namespace Format

def all : List Format := [toml, json]

/-- The ending of the names of files in a notation. -/
def ending : Format → String
  | toml => "toml"
  | json => "json"

def ofEnding? (ending : String) : Option Format := all.find? (·.ending == ending)

/-- The outermost table of a file; `none` if it is malformed. -/
def parse? (s : String) : Format → Option SettingTable
  | toml => Toml.parse? s
  | json => do
    match ← Setting.ofJson? (← Json.parse? s) with
    | .table entries => some entries
    | _ => none

end Format
end Scriptlet
