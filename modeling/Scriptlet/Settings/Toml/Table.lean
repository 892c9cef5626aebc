import Scriptlet.Settings.Value

/-! The tables of a TOML file while it is read: a table can be opened up to a point only. -/
namespace Scriptlet.Toml

/-- How a table came about. -/
inductive Origin where
  /-- By a header of its own. -/
  | header
  /-- By the header of a table within it. -/
  | implied
  /-- By an entry whose key has points in it. -/
  | dotted
deriving DecidableEq

inductive Node where
  | value (v : Setting)
  | table (origin : Origin) (entries : List (String × Node))
  /-- A list of tables, the last of which is open. -/
  | tables (before : List (List (String × Node))) (last : List (String × Node))

abbrev Nodes := List (String × Node)

namespace Nodes

/-- Sets the node of a key. -/
def set (t : Nodes) (key : String) (n : Node) : Nodes :=
  match t with
  | [] => [(key, n)]
  | (k, m) :: t => if k == key then (key, n) :: t else (k, m) :: set t key n

/-- Adds a value to the table at a path, which must be one that dotted keys make. Neither may the
value be there already. -/
def define? (t : Nodes) (path : List String) (key : String) (v : Setting) : Option Nodes :=
  match path with
  | [] => if (t.lookup key).isSome then none else some (t.set key (.value v))
  | k :: path =>
    match t.lookup k with
    | none => (define? [] path key v).map fun inner => t.set k (.table .dotted inner)
    | some (.table .dotted inner) =>
      (define? inner path key v).map fun inner => t.set k (.table .dotted inner)
    | some (.table .implied inner) =>
      if path.isEmpty then none
      else (define? inner path key v).map fun inner => t.set k (.table .implied inner)
    | some (.tables before last) =>
      if path.isEmpty then none
      else (define? last path key v).map fun last => t.set k (.tables before last)
    | some (.table .header _) | some (.value _) => none

/-- Changes the table at a path, making those on the way that are missing. -/
def update? (t : Nodes) (path : List String) (f : Nodes → Option Nodes) : Option Nodes :=
  match path with
  | [] => f t
  | k :: path =>
    match t.lookup k with
    | none => (update? [] path f).map fun inner => t.set k (.table .implied inner)
    | some (.table origin inner) =>
      (update? inner path f).map fun inner => t.set k (.table origin inner)
    | some (.tables before last) =>
      (update? last path f).map fun last => t.set k (.tables before last)
    | some (.value _) => none

/-- Opens the table of a header, which may be implied by others only. -/
def open? (t : Nodes) (key : String) : Option Nodes :=
  match t.lookup key with
  | none => some (t.set key (.table .header []))
  | some (.table .implied inner) => some (t.set key (.table .header inner))
  | some _ => none

/-- Adds a table to a list of tables. -/
def extend? (t : Nodes) (key : String) : Option Nodes :=
  match t.lookup key with
  | none => some (t.set key (.tables [] []))
  | some (.tables before last) => some (t.set key (.tables (before ++ [last]) []))
  | some _ => none

end Nodes

mutual

/-- The setting that a node gives. -/
def Node.setting : Node → Setting
  | .value v => v
  | .table _ entries => .table (nodeSettings entries)
  | .tables before last => .list (rowSettings before ++ [.table (nodeSettings last)])

def nodeSettings : List (String × Node) → SettingTable
  | [] => []
  | (key, n) :: t => (key, n.setting) :: nodeSettings t

def rowSettings : List (List (String × Node)) → List Setting
  | [] => []
  | t :: ts => .table (nodeSettings t) :: rowSettings ts

end

end Scriptlet.Toml
