import Scriptlet.Workload.Measure

/-! Commands of the program. -/
namespace Scriptlet

inductive Command where
  /-- Runs a script, after printing its listing if that is asked for. -/
  | run (file : String) (listing : Bool) (maxCallDepth : Option Nat)
  /-- Prints the listing of a script. -/
  | list (file : String)
  /-- Prints the syntax tree of a script. -/
  | tree (file : String)
  /-- Starts a prompt. -/
  | prompt
  /-- Measures the workload. -/
  | measure (params : Workload.Params)

/-- A command together with the settings file that is named for it. -/
structure Invocation where
  settingsFile : Option String
  command : Command

/-- Why arguments give no invocation. -/
inductive UsageError where
  | helpWanted
  | versionWanted
  | noArguments
  | noCommand
  | unknownCommand
  | unknownArgument
  | missingOperand
  | missingValue
  | invalidValue
  | unexpectedValue
  | repeatedOption
deriving DecidableEq

/-- Asking for help or the version is no failure. -/
def UsageError.exitCode : UsageError → UInt8
  | helpWanted | versionWanted => 0
  | _ => 2

end Scriptlet
