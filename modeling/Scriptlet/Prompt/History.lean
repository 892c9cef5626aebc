import Scriptlet.Text.Blank
import Scriptlet.Text.Lines

/-! The lines entered at the prompt, kept from one start to the next. -/
namespace Scriptlet

structure History where
  /-- Oldest first. -/
  entries : List String
  /-- Whether there are entries that were not in the file. -/
  grown : Bool

namespace History

def empty : History := ⟨[], false⟩

/-- The number of entries that are kept. -/
def capacity : Nat := 100

/-- The first line of a written history. -/
def header : String := "#V2"

/-- Adds an entry, unless it is empty or repeats the last one. The oldest makes room for it. -/
def add (h : History) (entry : String) : History :=
  if entry.isEmpty || h.entries.getLast? == some entry then h
  else
    let entries := if h.entries.length = capacity then h.entries.drop 1 else h.entries
    ⟨entries ++ [entry], true⟩

/-- Adds a line that was entered, unless it is blank. -/
def enter (h : History) (line : String) : History :=
  if Text.isAllBlank line then h else h.add line

/-- An entry as one line. -/
def escape (cs : List Char) : List Char :=
  cs.flatMap fun c => if c = '\\' then ['\\', '\\'] else if c = '\n' then ['\\', 'n'] else [c]

/-- The entry that is written so; `none` if it is written by other rules. -/
def unescape? : List Char → Option (List Char)
  | [] => some []
  | '\\' :: '\\' :: cs => (unescape? cs).map ('\\' :: ·)
  | '\\' :: 'n' :: cs => (unescape? cs).map ('\n' :: ·)
  | c :: cs => if c = '\\' then none else (unescape? cs).map (c :: ·)

/-- The entry of a line. A line that is not written by the rules stands for itself. -/
def ofLine (line : String) : String :=
  match unescape? line.toList with
  | some cs => String.ofList cs
  | none => line

/-- Reads a history. Without the header every line stands for itself. -/
def ofText (s : String) : History :=
  let entries := match Text.lines s with
    | [] => []
    | first :: rest => if first == header then rest.map ofLine else first :: rest
  { entries.foldl add empty with grown := false }

def toText (h : History) : String :=
  let line (entry : String) : String := String.ofList (escape entry.toList) ++ "\n"
  header ++ "\n" ++ String.join (h.entries.map line)

end History
end Scriptlet
