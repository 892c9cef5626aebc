import Scriptlet.Proofs.Collection.Holders
import Scriptlet.Proofs.Session.Validity

/-! Machines and sessions that count holders. When a frame ends, its scope is cleared if only its
own functions refer to it; otherwise it is retained, and retained scopes are swept from time to
time. -/
namespace Scriptlet

open Machine (globalScope)

/-- A scope that is cleared, with all scopes at this moment and what else is held. -/
structure Clearing where
  store : Store
  roots : Roots
  scope : Nat

/-- A machine that clears scopes. -/
structure Collector where
  machine : Machine
  /-- The scopes that are allocated. -/
  live : List Nat
  /-- Scopes of ended calls that were still in use. They are not held here. -/
  retained : List Nat
  /-- The number of retained scopes at which they are swept. -/
  sweepAt : Nat
  /-- The least value of `sweepAt`. -/
  threshold : Nat
  /-- Everything that was cleared, the latest first. -/
  cleared : List Clearing

namespace Collector

def start (threshold maxCallDepth : Nat) (output : Output) : Collector :=
  ⟨.start maxCallDepth output, [globalScope], [], threshold, threshold, []⟩

def heap (c : Collector) : Heap := ⟨c.machine.store, c.live⟩

/-- What is held while the values and scopes are in hand. -/
def roots (c : Collector) (values : List Value) (handles : List Nat) : Roots :=
  ⟨c.machine.frames, values, handles⟩

/-- Goes on with another state of the machine, which may have one scope more. -/
def withMachine (c : Collector) (m : Machine) : Collector :=
  { c with
    machine := m
    live := c.live ++ List.range' c.machine.store.scopes.size
      (m.store.scopes.size - c.machine.store.scopes.size) }

/-- Frees what nothing holds. -/
def settle (c : Collector) (values : List Value) (handles : List Nat) : Collector :=
  { c with live := (c.heap.settle (c.roots values handles)).live }

/-- Whether only the handle in hand and its own functions refer to a scope. -/
def onlySelfReferenced (c : Collector) (values : List Value) (handles : List Nat) (id : Nat) :
    Bool :=
  c.heap.onlySelfReferenced (c.roots values (id :: handles)) id

/-- Clears a scope that is in hand, then lets go of it. -/
def clear (c : Collector) (values : List Value) (handles : List Nat) (id : Nat) : Collector :=
  let c' := c.withMachine { c.machine with store := c.machine.store.modify id Scope.clear }
  let cleared := ⟨c.machine.store, c.roots values handles, id⟩ :: c.cleared
  ({ c' with cleared }.settle values (id :: handles)).settle values handles

/-- Clears retained scopes that only their own functions refer to; gives those still in use. -/
def sweepThrough (values : List Value) (handles : List Nat) :
    List Nat → Collector → List Nat × Collector
  | [], c => ([], c)
  | id :: ids, c =>
    if id ∈ c.live then
      if c.onlySelfReferenced values handles id then
        sweepThrough values handles ids (c.clear values handles id)
      else
        let (kept, c) := sweepThrough values handles ids c
        (id :: kept, c)
    else sweepThrough values handles ids c

def sweep (c : Collector) (values : List Value) (handles : List Nat) : Collector :=
  let (kept, c) := sweepThrough values handles c.retained c
  { c with retained := kept }

/-- Retains a scope that is in hand and sweeps if it is time. -/
def retain (c : Collector) (values : List Value) (id : Nat) : Collector :=
  let c := { c with retained := c.retained ++ [id] }
  if c.sweepAt ≤ c.retained.length then
    let c := c.sweep values [id]
    { c with sweepAt := max (2 * c.retained.length) c.threshold }
  else c

/-- Lets go of the scope of a frame that has ended. -/
def release (c : Collector) (values : List Value) (id : Nat) : Collector :=
  let c := c.settle values [id]
  if c.heap.scopeCount (c.roots values [id]) id = 1 ∨ id = globalScope then c.settle values []
  else if c.onlySelfReferenced values [] id then c.clear values [] id
  else (c.retain values id).settle values []

/-- Drops the frames, the innermost one first. -/
def discardThrough : List Frame → Collector → Collector
  | [], c => c
  | f :: fs, c =>
    discardThrough fs ((c.withMachine { c.machine with frames := fs }).release [] f.scope)

def discard (c : Collector) : Collector := discardThrough c.machine.frames c

/-- Carries out the next instruction. A frame that returns is released while its value is in hand
or on its caller's stack, and at the end of a script the retained scopes are swept. -/
def step (c : Collector) : Status × Collector :=
  match c.machine.frames, c.machine.step with
  | [], (status, m) => (status, c.withMachine m)
  | f :: callers, (.running, m) =>
    if m.frames.length ≤ callers.length then (.running, (c.withMachine m).release [] f.scope)
    else (.running, (c.withMachine m).settle [] [])
  | f :: _, (.done v, m) => (.done v, ((c.withMachine m).release [v] f.scope).sweep [v] [])
  | _ :: _, (.failed e, m) => (.failed e, (c.withMachine m).settle [] [])

def run : Nat → Collector → Finish × Collector
  | 0, c => (.unfinished, c)
  | fuel + 1, c =>
    match c.step with
    | (.running, c) => run fuel c
    | (.done v, c) => (.returned v, c.settle [] [])
    | (.failed e, c) => (.failed e c.machine.location, c.discard)

def load (c : Collector) (code : Code) : Collector :=
  let c := c.discard
  (c.withMachine (c.machine.load code)).settle [] []

end Collector

/-- A session whose machine clears scopes. -/
structure CollectingSession where
  collector : Collector
  debug : Bool

namespace CollectingSession

def start (threshold : Nat) (limits : Limits) (output : Output) : CollectingSession :=
  ⟨.start threshold limits.maxCallDepth output, limits.debug⟩

/-- What can be seen of the session. -/
def session (s : CollectingSession) : Session := ⟨s.collector.machine, s.debug⟩

def execute (fuel : Nat) (s : CollectingSession) (code : Code) :
    Except ScriptError Value × CollectingSession :=
  match (s.collector.load code).run fuel with
  | (.returned v, collector) => (.ok v, { s with collector })
  | (.failed e location, collector) => (.error (.runtime e location), { s with collector })
  | (.unfinished, collector) => (.error .unfinished, { s with collector })

def print (s : CollectingSession) (text : String) : Bool × CollectingSession :=
  let (ok, printed) := s.session.print text
  (ok, { s with collector := s.collector.withMachine printed.machine })

def runProgram (fuel : Nat) (s : CollectingSession) (p : Program) :
    Except ScriptError Value × CollectingSession :=
  match s.session.compile p with
  | .error e => (.error (.compile e), s)
  | .ok code =>
    if s.debug then
      match s.print code.listing with
      | (true, s) => s.execute fuel code
      | (false, s) => (.error (.runtime (.outputFailed Output.full) code.name), s)
    else s.execute fuel code

def redirect (s : CollectingSession) (output : Output) : CollectingSession :=
  { s with collector := s.collector.withMachine { s.collector.machine with output } }

def serve (fuel : Nat) (s : CollectingSession) : Request → Except ScriptError Value × CollectingSession
  | .source text =>
    match Program.parse text with
    | .error e => (.error (.parse e), s)
    | .ok p => s.runProgram fuel p
  | .program p => s.runProgram fuel p
  | .redirect output => (.ok .undefined, s.redirect output)

/-- The session after several requests, each with its number of steps, whatever became of them. -/
def after (s : CollectingSession) (past : List (Nat × Request)) : CollectingSession :=
  past.foldl (fun s r => (s.serve r.1 r.2).2) s

end CollectingSession
end Scriptlet
