import Scriptlet.Number.Text

/-! The outcome of a measurement. Times are in nanoseconds. -/
namespace Scriptlet.Workload

structure Report where
  n : Nat
  /-- What the script printed, without blanks at the ends. -/
  output : String
  expected : Nat
  interpreted : List Nat
  native : Nat

/-- The shortest time, zero if there is none. -/
def best (times : List Nat) : Nat := times.min?.getD 0

/-- The mean time rounded down, zero if there is none. -/
def mean (times : List Nat) : Nat := times.foldl (· + ·) 0 / times.length

/-- A ratio with a fixed number of decimal places. -/
def fixed (places num den : Nat) : String :=
  let unit := Nat.pow 10 places
  let n := roundHalfEven (num * unit) den
  let whole := toString (n / unit)
  if places = 0 then whole
  else
    let digits := toString (n % unit)
    whole ++ "." ++ Decimal.zeros (places - digits.length) ++ digits

def rule : String := String.ofList (List.replicate 40 '━')

/-- The lines that announce a measurement. -/
def announcement (n runs : Nat) (script : Option String) : List String :=
  ["🚀 Starting jss Benchmark", rule, "", "📋 Configuration:", "   N: " ++ toString n,
    "   Runs: " ++ toString runs,
    "   Script: " ++ (script.getD "demos/loop.js (built in)")]

namespace Report

/-- The lines about running times. -/
def timings (r : Report) : List String :=
  let second := 1000000000
  let shortest := best r.interpreted
  ["⏱️  Interpreted: best " ++ fixed 3 shortest second ++ "s, mean "
      ++ fixed 3 (mean r.interpreted) second ++ "s",
    "⏱️  Native:      " ++ fixed 6 r.native second ++ "s"]
    ++ (if 0 < r.native then ["🐢 Slowdown: " ++ fixed 0 shortest r.native ++ "x"] else [])
    ++ (if 0 < shortest then
        ["🚀 Throughput: " ++ fixed 1 (r.n * 1000) shortest ++ " M iterations/sec"]
      else [])

def lines (r : Report) : List String :=
  ["", rule, "📊 Benchmark Results", rule, "",
    "✓ Output: " ++ r.output ++ " (expected " ++ toString r.expected ++ ")", ""]
    ++ r.timings ++ ["", rule]

end Report
end Scriptlet.Workload
