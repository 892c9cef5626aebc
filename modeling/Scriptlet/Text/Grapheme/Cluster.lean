import Scriptlet.Text.Grapheme.Class

/-! Texts as sequences of visible characters, each of which may consist of several characters. -/
namespace Scriptlet.Text

/-- What matters of a visible character that is not at its end yet. -/
structure Cluster where
  /-- Its last part. -/
  last : GraphemeClass
  /-- Whether it ends in a pictograph, with or without marks. -/
  pictograph : Bool
  /-- Whether it ends in a pictograph and a joiner. -/
  joined : Bool
  /-- Whether it ends in a consonant with marks, and if so whether one of them is a linker. -/
  linked : Option Bool
  /-- Whether it ends in the first half of a flag. -/
  halfFlag : Bool

namespace Cluster

open GraphemeClass

def start (k : GraphemeClass) : Cluster where
  last := k
  pictograph := k = .pictograph
  joined := false
  linked := if k = consonant then some false else none
  halfFlag := k = regional

def isMark (k : GraphemeClass) : Bool := k = mark || k = linker || k = nonJoiner

/-- The cluster with one more part. -/
def push (g : Cluster) (k : GraphemeClass) : Cluster where
  last := k
  pictograph := k = .pictograph || (g.pictograph && isMark k)
  joined := g.pictograph && k = joiner
  linked :=
    if k = consonant then some false
    else if k = linker then g.linked.map fun _ => true
    else if k = mark || k = joiner then g.linked
    else none
  halfFlag := k = regional && !g.halfFlag

def isLine (k : GraphemeClass) : Bool := k = carriageReturn || k = lineFeed || k = control

/-- Whether two parts belong together, whatever stands before them. -/
def bound (k l : GraphemeClass) : Bool :=
  match k, l with
  | carriageReturn, lineFeed => true
  | k, l =>
    if isLine k || isLine l then false
    else if isMark l || l = joiner || l = spacingMark || k = leadingSign then true
    else match k, l with
      | jamoL, jamoL | jamoL, jamoV | jamoL, syllableLV | jamoL, syllableLVT => true
      | jamoV, jamoV | jamoV, jamoT | syllableLV, jamoV | syllableLV, jamoT => true
      | jamoT, jamoT | syllableLVT, jamoT => true
      | _, _ => false

/-- Whether a part belongs to the cluster before it. -/
def takes (g : Cluster) (k : GraphemeClass) : Bool :=
  bound g.last k || (g.joined && k = .pictograph) || (g.linked = some true && k = consonant) ||
    (g.halfFlag && k = regional)

/-- The visible characters of a text that goes on inside of one; `done` is what was read of that,
last character first. -/
def split (g : Cluster) (done : List Char) : List Char → List (List Char)
  | [] => [done.reverse]
  | c :: cs =>
    let k := ofChar c
    if g.takes k then split (g.push k) (c :: done) cs
    else done.reverse :: split (start k) [c] cs

end Cluster

/-- The visible characters of a text. -/
def clusters : List Char → List (List Char)
  | [] => []
  | c :: cs => Cluster.split (.start (.ofChar c)) [c] cs

end Scriptlet.Text
