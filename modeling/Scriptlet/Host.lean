/-! What a command needs from the outside, for any monad that can provide it. -/
namespace Scriptlet

/-- Why a file cannot be read. -/
inductive FileFault where
  | notFound
  | isDirectory
  | notADirectory
  | nameTooLong
  /-- A name with the character whose number is zero. -/
  | nameWithNul
  | notText
  | other (cause : String)
deriving DecidableEq

def FileFault.message : FileFault → String
  | notFound => "No such file or directory (os error 2)"
  | isDirectory => "Is a directory (os error 21)"
  | notADirectory => "Not a directory (os error 20)"
  | nameTooLong => "File name too long (os error 36)"
  | nameWithNul => "file name contained an unexpected NUL byte"
  | notText => "stream did not contain valid UTF-8"
  | other cause => cause

structure Host (m : Type → Type) where
  /-- The text of a file. -/
  read : String → m (Except FileFault String)
  /-- Replaces the text of a file, if that is possible. -/
  write : String → String → m Unit
  /-- A value and the time, in nanoseconds, that it took to compute. -/
  timed : {α : Type} → (Unit → α) → m (α × Nat)

end Scriptlet
