import Scriptlet.Syntax.Error

/-! Readers: matchers that either pass over a piece of the text or fail, and that remember which
rules were tried at the farthest place. A reader that fails leaves the cursor where it was. -/
namespace Scriptlet

/-- A place in a text. -/
structure Cursor where
  /-- The text from here on. -/
  rest : List Char
  /-- How many characters lie before. -/
  pos : Nat

namespace Cursor

def start (source : List Char) : Cursor := ⟨source, 0⟩

def advance (c : Cursor) (n : Nat) : Cursor := ⟨c.rest.drop n, c.pos + n⟩

end Cursor

/-- The rules tried at the farthest place so far. -/
structure Attempts where
  pos : Nat
  expected : List Rule
  unexpected : List Rule

namespace Attempts

def none : Attempts := ⟨0, [], []⟩

def countAt (a : Attempts) (pos : Nat) : Nat :=
  if a.pos = pos then a.expected.length + a.unexpected.length else 0

/-- Adds what `record` adds for a rule tried at `pos`, where `before` are the attempts from before
the rule was tried. A rule stands for the rules tried inside it at the same place, unless there
was exactly one, which says more than the rule itself. -/
def note (record : Attempts → Attempts) (before : Attempts) (pos : Nat) (a : Attempts) : Attempts :=
  if a.countAt pos = before.countAt pos + 1 then a
  else if pos < a.pos then a
  else if a.pos < pos then record ⟨pos, [], []⟩
  else if before.pos = pos then
    record ⟨pos, a.expected.take before.expected.length, a.unexpected.take before.unexpected.length⟩
  else record ⟨pos, [], []⟩

def expect (r : Rule) (a : Attempts) : Attempts := { a with expected := a.expected ++ [r] }

def reject (r : Rule) (a : Attempts) : Attempts := { a with unexpected := a.unexpected ++ [r] }

end Attempts

def Reader (α : Type) : Type := Cursor → Attempts → Option (α × Cursor) × Attempts

namespace Reader

variable {α β : Type}

def fail : Reader α := fun _ a => (none, a)

instance : Monad Reader where
  pure x := fun c a => (some (x, c), a)
  bind p f := fun c a =>
    match p c a with
    | (some (x, c'), a') => f x c' a'
    | (none, a') => (none, a')

/-- Ordered choice. What the first reader tried is remembered. -/
def orElse (p : Reader α) (q : Unit → Reader α) : Reader α := fun c a =>
  match p c a with
  | (some r, a') => (some r, a')
  | (none, a') => q () c a'

instance : OrElse (Reader α) := ⟨orElse⟩

/-- Succeeds without passing over anything where `p` fails. -/
def absent (p : Reader α) : Reader Unit := fun c a =>
  match p c a with
  | (some _, a') => (none, a')
  | (none, a') => (some ((), c), a')

/-- A grammar rule: its failure is remembered. -/
def named (r : Rule) (p : Reader α) : Reader α := fun c a =>
  match p c a with
  | (some x, a') => (some x, a')
  | (none, a') => (none, Attempts.note (.expect r) a c.pos a')

/-- A grammar rule that must not match: its success is remembered. -/
def barred (r : Rule) (p : Reader α) : Reader α := fun c a =>
  match p c a with
  | (some x, a') => (some x, Attempts.note (.reject r) a c.pos a')
  | (none, a') => (none, a')

/-- A token, given by what it means and how many characters it takes. -/
def token (scan : List Char → Option (α × Nat)) : Reader α := fun c a =>
  match scan c.rest with
  | some (x, n) => (some (x, c.advance n), a)
  | none => (none, a)

/-- A fixed piece of text. -/
def symbol (s : String) : Reader Unit :=
  token fun cs => if s.toList.isPrefixOf cs then some ((), s.length) else none

/-- The end of the text. -/
def endOfText : Reader Unit :=
  token fun cs => if cs.isEmpty then some ((), 0) else none

def maybe (p : Reader α) : Reader (Option α) :=
  (do let x ← p; pure (some x)) <|> pure none

/-- As many repetitions as match, up to a limit. -/
def repeated (p : Reader α) : Nat → Reader (List α)
  | 0 => pure []
  | limit + 1 => (do let x ← p; let xs ← repeated p limit; pure (x :: xs)) <|> pure []

end Reader
end Scriptlet
