import Scriptlet.Machine.Step

/-! Runs of the machine. -/
namespace Scriptlet

/-- How a run ends. -/
inductive Finish where
  | returned (value : Value)
  | failed (error : RuntimeError) (location : String)
  /-- The run was given too few steps. -/
  | unfinished

namespace Machine

/-- The place of the instruction that was fetched last. -/
def location (m : Machine) : String :=
  match m.frames with
  | [] => "<no frame>"
  | f :: _ => f.location

/-- Runs for at most the given number of steps. A failure drops every frame. -/
def run : Nat → Machine → Finish × Machine
  | 0, m => (.unfinished, m)
  | fuel + 1, m =>
    match m.step with
    | (.running, m) => run fuel m
    | (.done v, m) => (.returned v, m)
    | (.failed e, m) => (.failed e m.location, m.discard)

end Machine
end Scriptlet
