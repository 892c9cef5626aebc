import Scriptlet.Host
import Scriptlet.Session
import Scriptlet.Settings.Format
import Scriptlet.Settings.Variables
import Scriptlet.Text.Quoted

/-! Settings come from a file, then from variables, then from the command; the later ones win. -/
namespace Scriptlet

structure Settings where
  limits : Limits := {}
  ps1 : String := ">>> "
  /-- Shown while an entry is incomplete. -/
  ps2 : String := "... "
  /-- Where the history is kept, if anywhere. -/
  historyFile : Option String := none

/-- Why there are no settings. -/
inductive SettingsError where
  | noFile
  | malformedFile
  | wrongType
  /-- A value where a table is expected. -/
  | noTable (found : Setting) (expected : String)
  | noCalls

/-- A value as errors name it. -/
def Setting.summary : Setting → String
  | .null => "unit value"
  | .boolean b => "boolean `" ++ toString b ++ "`"
  | .integer i => "integer `" ++ toString i ++ "`"
  | .float x => "floating point `" ++ x.pointed ++ "`"
  | .text s => "string " ++ Text.quote s
  | .list _ => "sequence"
  | .table _ => "map"

/-- The wording, for errors that have one of their own. -/
def SettingsError.message? : SettingsError → Option String
  | noTable found expected =>
    some ("invalid type: " ++ found.summary ++ ", expected struct " ++ expected)
  | noCalls => some "vm.max_call_depth must be at least 1"
  | noFile | malformedFile | wrongType => none

namespace Settings

/-- A table within the settings; empty if it is not given. A list gives the values of the keys in
their order. -/
def table (t : SettingTable) (name kind : String) (keys : List String) :
    Except SettingsError SettingTable :=
  match t.lookup name with
  | none => .ok []
  | some (.table inner) => .ok inner
  | some (.list items) => .ok (keys.zip items)
  | some v => .error (.noTable v kind)

/-- A value of a table, or its default. -/
def value {α : Type} (t : SettingTable) (key : String) (convert? : Setting → Option α) (absent : α) :
    Except SettingsError α :=
  match t.lookup key with
  | none => .ok absent
  | some v =>
    match convert? v with
    | some a => .ok a
    | none => .error .wrongType

/-- The settings that a table gives; keys that are none of theirs do not matter. -/
def ofTable (t : SettingTable) : Except SettingsError Settings := do
  let base : Settings := {}
  let vm ← table t "vm" "VmConfig" ["max_call_depth", "debug"]
  let maxCallDepth ← value vm "max_call_depth" Setting.toWord? base.limits.maxCallDepth
  let debug ← value vm "debug" Setting.toBool? base.limits.debug
  let repl ← table t "repl" "ReplConfig" ["ps1", "ps2", "history_file"]
  let ps1 ← value repl "ps1" Setting.toText? base.ps1
  let ps2 ← value repl "ps2" Setting.toText? base.ps2
  let historyFile ← value repl "history_file" Setting.toOptionalText? base.historyFile
  return ⟨⟨maxCallDepth, debug⟩, ps1, ps2, historyFile⟩

/-- What a command sets itself. -/
structure Overrides where
  maxCallDepth : Option Nat := none
  debug : Option Bool := none

/-- Settings after all that sets them. At least one call must be possible. -/
def override (s : Settings) (o : Overrides) : Except SettingsError Settings :=
  let limits := ⟨o.maxCallDepth.getD s.limits.maxCallDepth, o.debug.getD s.limits.debug⟩
  if limits.maxCallDepth = 0 then .error .noCalls else .ok { s with limits }

/-- The variable that names a settings file. -/
def fileVariable : String := "JSS_CONFIG_PATH"

/-- The variables that settings are read from. -/
def variableNames : List String :=
  [fileVariable, "JSS_VM__MAX_CALL_DEPTH", "JSS_VM__DEBUG", "JSS_REPL__PS1", "JSS_REPL__PS2",
    "JSS_REPL__HISTORY_FILE"]

/-- The settings file, without its ending, if none is named. -/
def defaultFile : String := "jss"

/-- What follows the last point of a file's name, if something stands before that point. -/
def ending (path : String) : Option String :=
  let name := (path.splitOn "/").getLastD ""
  match (name.splitOn ".").reverse with
  | [] | [_] | [_, ""] => none
  | last :: _ => some last

/-- A path without what follows the name at its end; `none` if there is no name. -/
def named? (path : String) : Option String :=
  let parts := (path.splitOn "/").reverse.dropWhile fun part => part = "" || part = "."
  match parts with
  | [] => none
  | last :: _ => if last = ".." then none else some ("/".intercalate parts.reverse)

/-- Reads a settings file. -/
def ofFile (text : String) (format : Format) : Except SettingsError SettingTable :=
  let cs := text.toList
  let cs := if cs.head? = some '\ufeff' then cs.drop 1 else cs
  match format.parse? (String.ofList cs) with
  | some t => .ok (.ofFile t)
  | none => .error .malformedFile

variable {m : Type → Type} [Monad m]

/-- The first file, in the order of the notations, whose name is a path with an ending. -/
def findNamed (host : Host m) (name : String) : List Format → m (Option (String × Format))
  | [] => return none
  | format :: formats => do
    match ← host.read (name ++ "." ++ format.ending) with
    | .ok text => return some (text, format)
    | .error _ => findNamed host name formats

/-- The text of the settings file at a path, with its ending or without; `none` if there is no such
file, or one whose ending is not known. -/
def find (host : Host m) (path : String) : m (Option (String × Format)) := do
  match ← host.read path with
  | .ok text => return ((ending path).bind Format.ofEnding?).map (text, ·)
  | .error _ =>
    match named? path with
    | some name => findNamed host name Format.all
    | none => return none

/-- The table that the file gives. A file that is named must be there, the default one need not. -/
def fileTable (host : Host m) (path : Option String) : m (Except SettingsError SettingTable) := do
  match ← find host (path.getD defaultFile) with
  | some (text, format) => return ofFile text format
  | none => return if path.isSome then .error .noFile else .ok []

/-- All settings: `path` is the file that the command names. -/
def load (host : Host m) (vars : Variables) (path : Option String) (o : Overrides) :
    m (Except SettingsError Settings) := do
  match ← fileTable host (path <|> vars.lookup fileVariable) with
  | .error e => return .error e
  | .ok t => return (ofTable (vars.apply t)).bind (override · o)

end Settings
end Scriptlet
