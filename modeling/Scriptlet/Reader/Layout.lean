import Scriptlet.Reader.Basic

/-! Layout between tokens: blanks and comments. -/
namespace Scriptlet

namespace Layout

def isBlank (c : Char) : Bool := c = ' ' || c = '\t' || c = '\r' || c = '\n'

mutual

/-- The place after all blanks and comments from here on. -/
def skip (pos : Nat) : List Char → Cursor
  | [] => ⟨[], pos⟩
  | '/' :: '/' :: cs => skipLine (pos + 2) cs
  | '/' :: '*' :: cs => skipBlock ⟨'/' :: '*' :: cs, pos⟩ (pos + 2) cs
  | c :: cs => if isBlank c then skip (pos + 1) cs else ⟨c :: cs, pos⟩

/-- Inside a comment that ends with its line. -/
def skipLine (pos : Nat) : List Char → Cursor
  | [] => ⟨[], pos⟩
  | c :: cs => if c = '\n' then skip (pos + 1) cs else skipLine (pos + 1) cs

/-- Inside a bracketed comment. If it never ends it is no layout, so that the place before it is
the answer. -/
def skipBlock (opening : Cursor) (pos : Nat) : List Char → Cursor
  | [] => opening
  | '*' :: '/' :: cs => skip (pos + 2) cs
  | _ :: cs => skipBlock opening (pos + 1) cs

end

end Layout

namespace Reader

/-- Passes over layout; it never fails. -/
def layout : Reader Unit := fun c a => (some ((), Layout.skip c.pos c.rest), a)

/-- As many repetitions as match, with layout between them. -/
def spaced {α : Type} (limit : Nat) (p : Reader α) : Reader (List α) :=
  (do
    let x ← p
    let xs ← repeated (do layout; p) limit
    pure (x :: xs)) <|> pure []

end Reader
end Scriptlet
