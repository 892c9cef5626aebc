import Scriptlet.Text.Grapheme.Cluster

/-! Lines that are typed with backspaces. -/
namespace Scriptlet

/-- What a line shows so far. -/
structure Typed where
  /-- Last character first. -/
  shown : List Char
  /-- The sizes of its visible characters in bytes, each cut down to a byte, the last one first. -/
  sizes : List Nat

namespace Typed

def empty : Typed := ⟨[], []⟩

/-- The key that takes back the visible character before it. -/
def backspace : Char := '\x08'

def dropBytes : Nat → List Char → List Char
  | _, [] => []
  | n, c :: cs => if n = 0 then c :: cs else dropBytes (n - c.utf8Size) cs

def size (cluster : List Char) : Nat := cluster.foldl (fun n c => n + c.utf8Size) 0

/-- Types a visible character. A backspace at the start of a line does nothing. -/
def add (t : Typed) (cluster : List Char) : Typed :=
  if cluster = [backspace] then
    match t.sizes with
    | [] => t
    | n :: sizes => ⟨dropBytes n t.shown, sizes⟩
  else ⟨cluster.reverse ++ t.shown, size cluster % 256 :: t.sizes⟩

/-- The line that typing the characters of a text gives. -/
def line (s : String) : String :=
  String.ofList ((Text.clusters s.toList).foldl add empty).shown.reverse

end Typed
end Scriptlet
