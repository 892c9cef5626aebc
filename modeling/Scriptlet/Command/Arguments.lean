import Scriptlet.Command.Basic
import Scriptlet.Number.Numeral

/-! Reading of command-line arguments. -/
namespace Scriptlet

/-- What an option takes. -/
inductive OptionKind where
  | flag
  | path
  | number
deriving DecidableEq

/-- Options by name, and what else may stand among the arguments. -/
structure Grammar where
  options : List (String × OptionKind)
  /-- Whether a file is named. -/
  operand : Bool
  /-- Commands, which have arguments of their own. -/
  commands : List String
  /-- Whether the version can be asked for. -/
  version : Bool

/-- A place for a value. -/
inductive Slot where
  | option (name : String) (kind : OptionKind)
  | operand

/-- What was read of the arguments. -/
structure Arguments where
  options : List (String × String) := []
  operand : Option String := none
  /-- The last slot, as long as its value is not checked. -/
  pending : Option (Slot × Option String) := none

namespace Arguments

/-- Whether a value is fit for a slot. A name must not be empty, a number must be one. -/
def checkValue (kind : OptionKind) (value : String) : Except UsageError Unit :=
  match kind with
  | .flag => .ok ()
  | .path => if value.isEmpty then .error .missingValue else .ok ()
  | .number => if (Numeral.word? value).isSome then .ok () else .error .invalidValue

/-- Gives an option its value; it can have only one. -/
def addOption (a : Arguments) (name : String) (kind : OptionKind) (value : String) :
    Except UsageError Arguments := do
  if (a.options.lookup name).isSome then throw .repeatedOption
  checkValue kind value
  return { a with options := a.options ++ [(name, value)] }

/-- Checks the last slot. -/
def settle (a : Arguments) : Except UsageError Arguments :=
  match a.pending with
  | none => .ok a
  | some (_, none) => .error .missingValue
  | some (.option name kind, some value) => addOption { a with pending := none } name kind value
  | some (.operand, some value) => do
    checkValue .path value
    return { a with operand := some value, pending := none }

/-- Whether an operand was given, checked or not. -/
def hasOperand (a : Arguments) : Bool :=
  a.operand.isSome || (match a.pending with
    | some (.operand, _) => true
    | _ => false)

end Arguments

/-- An argument by its form. -/
inductive ArgumentForm where
  /-- Two dashes, behind which no options follow. -/
  | divider
  | long (name : String) (value : Option String)
  | short (letter : Char)
  | word (text : String)

def ArgumentForm.ofText (s : String) : ArgumentForm :=
  match s.toList with
  | ['-', '-'] => divider
  | '-' :: '-' :: cs =>
    let name := cs.takeWhile (· ≠ '=')
    match cs.drop name.length with
    | [] => long (String.ofList name) none
    | _ :: value => long (String.ofList name) (some (String.ofList value))
  | '-' :: c :: _ => short c
  | _ => word s

namespace Grammar

open Arguments

/-- Takes an option with two dashes. -/
def takeLong (g : Grammar) (a : Arguments) (name : String) (value : Option String) :
    Except UsageError Arguments := do
  let asks : Option UsageError :=
    if name == "help" then some .helpWanted
    else if name == "version" && g.version then some .versionWanted
    else none
  match asks, g.options.lookup name, value with
  | some _, _, some _ => throw .unexpectedValue
  | some e, _, none => do
    discard a.settle
    throw e
  | none, none, _ => throw .unknownArgument
  | none, some .flag, some _ => throw .unexpectedValue
  | none, some .flag, none => do addOption (← a.settle) name .flag ""
  | none, some kind, some value => do addOption (← a.settle) name kind value
  | none, some kind, none => do return { ← a.settle with pending := some (.option name kind, none) }

/-- Takes an option with one dash. -/
def takeShort (g : Grammar) (a : Arguments) (letter : Char) : Except UsageError Arguments := do
  if letter = 'h' then
    discard a.settle
    throw .helpWanted
  if letter = 'V' && g.version then
    discard a.settle
    throw .versionWanted
  throw .unknownArgument

/-- Takes a word that is no option and no value of one. -/
def takeOperand (g : Grammar) (a : Arguments) (divided : Bool) (word : String) :
    Except UsageError Arguments := do
  if g.operand && !a.hasOperand then
    return { ← a.settle with pending := some (.operand, some word) }
  else if g.commands.isEmpty || (divided && g.commands.contains word) then throw .unknownArgument
  else throw .unknownCommand

/-- Reads arguments up to a command, which is given with its own arguments. `divided` is true behind
the divider. -/
def read (g : Grammar) (a : Arguments) (divided : Bool) :
    List String → Except UsageError (Arguments × Option (String × List String))
  | [] => .ok (a, none)
  | s :: rest =>
    if divided then do g.read (← g.takeOperand a true s) true rest
    else
      let awaits := match a.pending with
        | some (_, none) => true
        | _ => false
      if !awaits && g.commands.contains s then .ok (a, some (s, rest))
      else match ArgumentForm.ofText s with
        | .divider => g.read a true rest
        | .long name value => do g.read (← g.takeLong a name value) false rest
        | .short letter => do g.read (← g.takeShort a letter) false rest
        | .word w =>
          match a.pending with
          | some (slot, none) => g.read { a with pending := some (slot, some w) } false rest
          | _ => do g.read (← g.takeOperand a false w) false rest

end Grammar
end Scriptlet
