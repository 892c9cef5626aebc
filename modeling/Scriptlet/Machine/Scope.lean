import Scriptlet.Value.Basic

/-! Variable scopes. A scope holds the variables of one call, or the global ones; a variable that
was never assigned is looked for in the enclosing scope, by its name. -/
namespace Scriptlet

structure Scope where
  names : Array String
  /-- A value for each name, none before the first assignment. -/
  vars : Array (Option Value)
  /-- The place of the enclosing scope in the store. -/
  parent : Option Nat

namespace Scope

def ofNames (names : Array String) (parent : Option Nat) : Scope :=
  ⟨names, Array.replicate names.size none, parent⟩

/-- The value assigned in this scope itself. -/
def get? (s : Scope) (slot : Nat) : Option Value := (s.vars[slot]?).join

/-- The value of a name in this scope itself, at its first slot. -/
def named? (s : Scope) (name : String) : Option Value := do s.get? (← s.names.idxOf? name)

def set? (s : Scope) (slot : Nat) (v : Value) : Option Scope :=
  if slot < s.vars.size then some { s with vars := s.vars.setIfInBounds slot (some v) } else none

/-- Takes over other names and keeps values by name. Names that only continue the old ones keep
every value where it is. -/
def adopt (s : Scope) (names : Array String) : Scope :=
  if s.names.isPrefixOf names then
    { s with names, vars := s.vars ++ Array.replicate (names.size - s.vars.size) none }
  else { s with names, vars := names.map s.named? }

/-- Forgets every value. -/
def clear (s : Scope) : Scope := { s with vars := s.vars.map fun _ => none }

/-- Names with their values. -/
def slots (s : Scope) : List (String × Option Value) := s.names.toList.zip s.vars.toList

end Scope

/-- All scopes ever made. A scope's parent is older than the scope itself. -/
structure Store where
  scopes : Array Scope

namespace Store

/-- The value of a name in the innermost scope that assigns it, from the given scope outward. -/
def named? (s : Store) (name : String) (id : Nat) : Option Value :=
  match s.scopes[id]? with
  | none => none
  | some scope =>
    match scope.named? name, scope.parent with
    | some v, _ => some v
    | none, some parent => if parent < id then s.named? name parent else none
    | none, none => none
termination_by id

/-- The value of a slot: its own, or else that of its name further outward. -/
def slot? (s : Store) (id slot : Nat) : Option Value := do
  let scope ← s.scopes[id]?
  match scope.get? slot with
  | some v => some v
  | none => s.named? (← scope.names[slot]?) (← scope.parent)

/-- Assigns a slot of one scope. -/
def set? (s : Store) (id slot : Nat) (v : Value) : Option Store := do
  let scope ← s.scopes[id]?
  let scope ← scope.set? slot v
  return ⟨s.scopes.setIfInBounds id scope⟩

def modify (s : Store) (id : Nat) (f : Scope → Scope) : Store := ⟨s.scopes.modify id f⟩

/-- Adds a scope and gives its place. -/
def push (s : Store) (scope : Scope) : Store × Nat := (⟨s.scopes.push scope⟩, s.scopes.size)

end Store
end Scriptlet
