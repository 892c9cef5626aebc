import Scriptlet.Reader.Grammar

/-! Reading a script. -/
namespace Scriptlet

/-- Line and column, from one, of the place behind the given text. A line ends with a line feed, so
that a carriage return counts as a column unless a line feed follows it. -/
def lineColumn : List Char → Nat × Nat :=
  List.foldl (fun (line, column) c => if c = '\n' then (line + 1, 1) else (line, column + 1)) (1, 1)

def SyntaxError.ofAttempts (source : List Char) (a : Attempts) : SyntaxError :=
  let (line, column) := lineColumn (source.take a.pos)
  ⟨line, column, a.expected, a.unexpected⟩

namespace Program

/-- The syntax tree of a script. -/
def parse (source : String) : Except SyntaxError Program :=
  let cs := source.toList
  match Grammar.program (cs.length + 1) (.start cs) .none with
  | (some (p, _), _) => .ok p
  | (none, a) => .error (.ofAttempts cs a)

end Program
end Scriptlet
