/-! Lines of a text. -/
namespace Scriptlet.Text

/-- Takes off the carriage return that may stand before a line feed. -/
def withoutReturn (l : List Char) : List Char :=
  if l.getLast? = some '\r' then l.dropLast else l

/-- Splits at line feeds. The last line ends with the text and keeps a final carriage return. -/
def splitLines (cs : List Char) : List (List Char) :=
  match (cs.splitOn '\n').reverse with
  | [] => []
  | last :: before => (last :: before.map withoutReturn).reverse

/-- The lines of a text. A line feed at the end of the text starts no line of its own. -/
def lines (s : String) : List String :=
  let ls := splitLines s.toList
  (if ls.getLast? = some [] then ls.dropLast else ls).map String.ofList

end Scriptlet.Text
