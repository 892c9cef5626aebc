import Scriptlet.Settings.Value

/-! Settings given by environment variables. -/
namespace Scriptlet

/-- Environment variables with their values. -/
abbrev Variables := List (String × String)

namespace Variables

/-- Names of settings start with this, in any case. -/
def mark : String := "jss_"

/-- Stands between the keys of a path in a name. -/
def separator : String := "__"

/-- A value in the form in which it can be read: a truth value, an integer, a number or a text. -/
def typed (s : String) : Setting :=
  if s.toLower == "true" then .boolean true
  else if s.toLower == "false" then .boolean false
  else match Numeral.int? s with
    | some i => .integer i
    | none =>
      match Number.ofText? s with
      | some x => .float x
      | none => .text s

/-- The path of the setting that a variable gives, if it is one. -/
def path? (name : String) : Option (List String) :=
  let name := name.toLower
  if name.startsWith mark then
    SettingTable.path? ((name.drop mark.length).toString.replace separator ".")
  else none

/-- Puts the settings among the variables into a table. -/
def apply (vars : Variables) (t : SettingTable) : SettingTable :=
  vars.foldl (fun t (name, value) =>
    match path? name with
    | some path => t.put path (typed value)
    | none => t) t

/-- Adds a variable, unless it is there already. -/
def default (vars : Variables) (name value : String) : Variables :=
  if (vars.lookup name).isSome then vars else vars ++ [(name, value)]

end Variables
end Scriptlet
