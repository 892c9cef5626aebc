import Scriptlet.Number.Numeral

/-! Dates and times in TOML. They are kept as texts of one form. -/
namespace Scriptlet.Toml

def isLeap (year : Nat) : Bool := year % 4 = 0 && (year % 100 ≠ 0 || year % 400 = 0)

def daysIn (year month : Nat) : Nat :=
  if month = 2 then if isLeap year then 29 else 28
  else if [4, 6, 9, 11].contains month then 30
  else 31

/-- A number of exactly so many digits. -/
def digits? (count : Nat) (cs : List Char) : Option (Nat × List Char) :=
  let ds := cs.take count
  if ds.length = count && ds.all Char.isDigit then
    some (Decimal.digitsValue ds, cs.drop count)
  else none

def date? (cs : List Char) : Option (String × List Char) := do
  let (year, '-' :: rest) ← digits? 4 cs | none
  let (month, '-' :: rest) ← digits? 2 rest | none
  let (day, rest) ← digits? 2 rest
  if 1 ≤ month && month ≤ 12 && 1 ≤ day && day ≤ daysIn year month then
    some (String.ofList (cs.take 10), rest)
  else none

/-- The fraction of a second, to nine places and without needless zeros. -/
def fraction : List Char → String × List Char
  | '.' :: cs =>
    let ds := cs.takeWhile Char.isDigit
    let kept := ((ds.take 9).reverse.dropWhile (· = '0')).reverse
    if ds.isEmpty then ("", '.' :: cs)
    else (if kept.isEmpty then "" else String.ofList ('.' :: kept), cs.drop ds.length)
  | cs => ("", cs)

def time? (cs : List Char) : Option (String × List Char) := do
  let (hour, ':' :: rest) ← digits? 2 cs | none
  let (minute, ':' :: rest) ← digits? 2 rest | none
  let (second, rest) ← digits? 2 rest
  if hour ≤ 23 && minute ≤ 59 && second ≤ 60 then
    let (f, rest) := fraction rest
    some (String.ofList (cs.take 8) ++ f, rest)
  else none

/-- The distance of a clock from the common one, if it is given. It is not negative when it is
none. -/
def offset (cs : List Char) : String × List Char :=
  let distance? (sign : Char) (rest : List Char) : Option (String × List Char) := do
    let (hour, ':' :: after) ← digits? 2 rest | none
    let (minute, after) ← digits? 2 after
    if hour ≤ 23 && minute ≤ 59 then
      let sign := if hour = 0 && minute = 0 then '+' else sign
      some (String.ofList (sign :: rest.take 5), after)
    else none
  match cs with
  | [] => ("", [])
  | c :: rest =>
    if c = 'Z' || c = 'z' then ("Z", rest)
    else if c = '+' || c = '-' then (distance? c rest).getD ("", cs)
    else ("", cs)

/-- A date, a time, or both. -/
def moment? (cs : List Char) : Option (String × List Char) :=
  match date? cs with
  | none => time? cs
  | some (date, []) => some (date, [])
  | some (date, c :: rest) =>
    if c = 'T' || c = 't' || c = ' ' then
      match time? rest with
      | some (time, rest) =>
        let (distance, rest) := offset rest
        some (date ++ "T" ++ time ++ distance, rest)
      | none => some (date, c :: rest)
    else some (date, c :: rest)

end Scriptlet.Toml
