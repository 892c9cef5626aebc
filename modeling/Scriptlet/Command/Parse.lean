import Scriptlet.Command.Arguments

/-! From arguments to commands. -/
namespace Scriptlet.Invocation

/-- The option that names a settings file; every command takes it. -/
def settingsOption : String × OptionKind := ("config", .path)

/-- The command that tells about the others. -/
def helpName : String := "help"

/-- The arguments of each command. -/
def grammars : List (String × Grammar) :=
  let grammar (options : List (String × OptionKind)) (operand : Bool) : Grammar :=
    ⟨settingsOption :: options, operand, [], false⟩
  [("run", grammar [("dis", .flag), ("max-call-depth", .number)] true),
    ("dis", grammar [] true),
    ("parse", grammar [] true),
    ("repl", grammar [] false),
    ("bench", grammar [("n", .number), ("runs", .number), ("script", .path)] false)]

/-- What stands before the command. -/
def opening : Grammar := ⟨[settingsOption], false, grammars.map (·.1) ++ [helpName], true⟩

def file (a : Arguments) : Except UsageError String :=
  match a.operand with
  | some file => .ok file
  | none => .error .missingOperand

def number? (a : Arguments) (name : String) : Option Nat :=
  (a.options.lookup name).bind Numeral.word?

/-- The command of this name. -/
def commandOf (name : String) (a : Arguments) : Except UsageError Command :=
  match name with
  | "run" => do
    return .run (← file a) (a.options.lookup "dis").isSome (number? a "max-call-depth")
  | "dis" => do return .list (← file a)
  | "parse" => do return .tree (← file a)
  | "repl" => .ok .prompt
  | "bench" =>
    let base : Workload.Params := {}
    .ok (.measure ⟨(number? a "n").getD base.n, (number? a "runs").getD base.runs,
      a.options.lookup "script"⟩)
  | _ => .error .unknownCommand

/-- Help can be had for the program and for every command. -/
def help : List String → UsageError
  | [] => .helpWanted
  | name :: rest =>
    if opening.commands.contains name && rest.isEmpty then .helpWanted else .unknownCommand

/-- Reads all arguments. What is wrong with those of a command is told before what is wrong before it. -/
def parse (args : List String) : Except UsageError Invocation := do
  let (before, rest) ← opening.read {} false args
  match rest with
  | none =>
    let before ← before.settle
    throw (if before.options.isEmpty then .noArguments else .noCommand)
  | some (name, args) =>
    if name == helpName then throw (help args)
    let some grammar := grammars.lookup name | throw .unknownCommand
    let (own, _) ← grammar.read {} false args
    let own ← own.settle
    let command ← commandOf name own
    let before ← before.settle
    return ⟨own.options.lookup settingsOption.1 <|> before.options.lookup settingsOption.1, command⟩

end Scriptlet.Invocation
