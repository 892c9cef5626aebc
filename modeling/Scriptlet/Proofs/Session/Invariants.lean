import Scriptlet.Proofs.Session.Calls

/-! What holds of the machine between scripts, and what holds while one runs. -/
namespace Scriptlet

/-- `Idle` holds of the machine before and after every script, and `Busy` while one runs, as soon as
`Idle` holds once. -/
structure Invariant (Idle Busy : Machine → Prop) : Prop where
  print : ∀ m output, Idle m → Idle { m with output }
  load : ∀ m (p : Program) code, Idle m → p.compileWith m.globalNames = .ok code →
    Busy (m.load code)
  step : ∀ m m', Busy m → m.step = (.running, m') → Busy m'
  /-- A run that is cut off. -/
  pause : ∀ m, Busy m → Idle m
  stop : ∀ m, Busy m → Idle m.step.2
  discard : ∀ m, Idle m → Idle m.discard

namespace Invariant

variable {Idle Busy : Machine → Prop} {m m' : Machine} {s : Session} {p : Program} {code : Code}

theorem steps (h : Invariant Idle Busy) {n : Nat} (hs : Machine.Steps n m m') (hm : Busy m) :
    Busy m' := by
  induction hs with
  | refl => exact hm
  | head first _ ih => exact ih (h.step _ _ hm first)

theorem run (h : Invariant Idle Busy) (fuel : Nat) (hm : Busy m) : Idle (m.run fuel).2 := by
  induction fuel generalizing m with
  | zero => exact h.pause m hm
  | succ fuel ih =>
    have hstop := h.stop m hm
    rw [Machine.run]
    cases hs : m.step with
    | mk status m' =>
      rw [hs] at hstop
      cases status with
      | running => exact ih (h.step m m' hm hs)
      | done v => exact hstop
      | failed e => exact h.discard m' hstop

theorem execute (h : Invariant Idle Busy) (fuel : Nat) (hs : Idle s.machine)
    (hc : p.compileWith s.machine.globalNames = .ok code) :
    Idle (s.execute fuel code).2.machine := by
  have hrun := h.run fuel (h.load _ p code hs hc)
  unfold Session.execute
  cases hr : (s.machine.load code).run fuel with
  | mk finish m =>
    rw [hr] at hrun
    cases finish <;> exact hrun

theorem runProgram (h : Invariant Idle Busy) (fuel : Nat) (p : Program) (hs : Idle s.machine) :
    Idle (s.runProgram fuel p).2.machine := by
  unfold Session.runProgram
  cases hc : s.compile p with
  | error e => exact hs
  | ok code =>
    by_cases hd : s.debug = true
    · have hprinted : Idle (s.print code.listing).2.machine := h.print _ _ hs
      have hnames : (s.print code.listing).2.machine.globalNames = s.machine.globalNames := rfl
      simp only [hd, if_true]
      cases hpr : s.print code.listing with
      | mk ok s' =>
        rw [hpr] at hprinted hnames
        cases ok with
        | true =>
          apply h.execute fuel hprinted
          rw [hnames]
          exact hc
        | false => exact hprinted
    · simpa [hd] using h.execute fuel hs hc

theorem runText (h : Invariant Idle Busy) (fuel : Nat) (source : String) (hs : Idle s.machine) :
    Idle (s.run fuel source).2.machine := by
  unfold Session.run
  cases Program.parse source with
  | error e => exact hs
  | ok p => exact h.runProgram fuel p hs

theorem serve (h : Invariant Idle Busy) (fuel : Nat) (r : Request) (hs : Idle s.machine) :
    Idle (s.serve fuel r).2.machine := by
  cases r with
  | source text =>
    simp only [Session.serve]
    exact h.runText fuel text hs
  | program p =>
    simp only [Session.serve]
    exact h.runProgram fuel p hs
  | redirect output => exact h.print s.machine output hs

theorem after (h : Invariant Idle Busy) (past : List (Nat × Request)) (hs : Idle s.machine) :
    Idle (s.after past).machine := by
  induction past generalizing s with
  | nil => exact hs
  | cons r past ih => exact ih (h.serve r.1 r.2 hs)

theorem reachable (h : Invariant Idle Busy) (hstart : ∀ depth output, Idle (.start depth output))
    (hm : m.Reachable) : Busy m := by
  obtain ⟨limits, output, past, p, code, out, n, hc, hsteps⟩ := hm
  have hidle := h.after past (s := .start limits output) (hstart _ _)
  exact h.steps hsteps (h.load _ p code (h.print _ out hidle) hc)

end Invariant

/-- Scripts leave a valid store behind and run on a valid machine. -/
theorem Machine.valid_invariant : Invariant (fun m => m.store.Valid) Machine.Valid where
  print _ _ h := h
  load _ _ _ h hc := valid_load h hc
  step m m' h hs := by
    have hstep := h.step
    rwa [hs] at hstep
  pause _ h := h.store
  stop m h := by
    have hstep := h.step
    generalize m.step = r at hstep ⊢
    obtain ⟨status, m'⟩ := r
    cases status with
    | running => exact hstep.store
    | done v => exact hstep.1
    | failed e => exact hstep.1
  discard _ h := h

namespace Session

/-- The machine after `n` steps of a script, if the script is still running. -/
def midway? (s : Session) (p : Program) (n : Nat) : Option Machine :=
  match s.compile p with
  | .error _ => none
  | .ok code =>
    match (s.machine.load code).run n with
    | (.unfinished, m) => some m
    | _ => none

theorem midway?_eq_some {s : Session} {p : Program} {n : Nat} {m : Machine}
    (h : s.midway? p n = some m) :
    ∃ code, s.compile p = .ok code ∧ Machine.Steps n (s.machine.load code) m := by
  unfold midway? at h
  cases hc : s.compile p with
  | error e => simp [hc] at h
  | ok code =>
    simp only [hc] at h
    have hsteps := Machine.Steps.of_unfinished (m := s.machine.load code) (n := n)
    cases hr : (s.machine.load code).run n with
    | mk finish m' =>
      rw [hr] at h hsteps
      cases finish with
      | unfinished =>
        cases h
        exact ⟨code, rfl, hsteps rfl⟩
      | returned v => cases h
      | failed e place => cases h

theorem reachable_midway? {limits : Limits} {output : Output} {past : List (Nat × Request)}
    {p : Program} {n : Nat} {m : Machine}
    (h : ((start limits output).after past).midway? p n = some m) : m.Reachable := by
  obtain ⟨code, hc, hsteps⟩ := midway?_eq_some h
  exact ⟨limits, output, past, p, code, _, n, hc, hsteps⟩

end Session
end Scriptlet
