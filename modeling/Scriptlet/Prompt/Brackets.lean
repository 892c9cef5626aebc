/-! Open brackets of a text. -/
namespace Scriptlet.Brackets

mutual

/-- Counts on from `depth`: brackets in texts and comments do not count. -/
def scan (depth : Int) : List Char → Int
  | [] => depth
  | '/' :: '/' :: cs => scanLine depth cs
  | '/' :: '*' :: cs => scanBlock depth cs
  | c :: cs =>
    if c = '"' then scanText depth cs
    else if c = '(' || c = '\x7b' then scan (depth + 1) cs
    else if c = ')' || c = '\x7d' then scan (depth - 1) cs
    else scan depth cs

/-- Inside a text, which may run to the end. -/
def scanText (depth : Int) : List Char → Int
  | [] => depth
  | c :: cs => if c = '"' then scan depth cs else scanText depth cs

/-- Inside a comment that ends with its line. -/
def scanLine (depth : Int) : List Char → Int
  | [] => depth
  | c :: cs => if c = '\n' then scan depth cs else scanLine depth cs

/-- Inside a bracketed comment, which may run to the end. -/
def scanBlock (depth : Int) : List Char → Int
  | [] => depth
  | '*' :: '/' :: cs => scan depth cs
  | _ :: cs => scanBlock depth cs

end

/-- Opening brackets minus closing ones. -/
def depth (source : String) : Int := scan 0 source.toList

end Scriptlet.Brackets
