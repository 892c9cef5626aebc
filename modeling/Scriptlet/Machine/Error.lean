/-! What can go wrong while code runs. -/
namespace Scriptlet

inductive ConstantKind where
  | number | text | function
deriving DecidableEq

/-- Faults of the code itself; compiled scripts have none. -/
inductive CodeFault where
  | pcOutOfRange (pc : Nat) (code : String)
  | constantOutOfRange (kind : ConstantKind) (index : Nat)
  | slotOutOfRange (slot : Nat)
  | stackUnderflow
  | missingArguments (count : Nat)
deriving DecidableEq

inductive RuntimeError where
  | undefinedVariable (name : String)
  | notANumber (typeName : String)
  | notCallable (typeName : String)
  | callDepthExceeded (limit : Nat)
  | assertionFailed
  | invalidCode (fault : CodeFault)
  | outputFailed (cause : String)
deriving DecidableEq

def ConstantKind.name : ConstantKind → String
  | number => "float"
  | text => "string"
  | function => "function"

def CodeFault.message : CodeFault → String
  | pcOutOfRange pc code => "pc " ++ toString pc ++ " out of range in " ++ code
  | constantOutOfRange kind i => kind.name ++ " constant " ++ toString i ++ " out of range"
  | slotOutOfRange slot => "variable slot " ++ toString slot ++ " out of range"
  | stackUnderflow => "value stack underflow"
  | missingArguments n => "call expects " ++ toString n ++ " arguments on the stack"

def RuntimeError.message : RuntimeError → String
  | undefinedVariable x => "Variable \"" ++ x ++ "\" is not defined"
  | notANumber t => "Expected a number, got " ++ t
  | notCallable t => t ++ " is not a function"
  | callDepthExceeded limit => "Maximum call depth of " ++ toString limit ++ " exceeded"
  | assertionFailed => "Assertion failed"
  | invalidCode fault => "Invalid bytecode: " ++ fault.message
  | outputFailed cause => "Failed to write output: " ++ cause

end Scriptlet
