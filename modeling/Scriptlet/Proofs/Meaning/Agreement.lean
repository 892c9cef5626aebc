import Scriptlet.Proofs.Bytecode.Acceptance
import Scriptlet.Proofs.Meaning.Simulation

/-! Compiled scripts mean what direct evaluation says. -/
namespace Scriptlet

namespace Direct

/-- The run ended as the evaluation did, with the same value or the same error, and left a machine
that holds what the world holds: the same variables, functions and output. -/
def Agrees (r : Outcome Val × World) (f : Finish × Machine) : Prop :=
  r.2.Coded f.2 ∧
    match r.1, f.1 with
    | .done v, .returned V => v.Coded r.2.scopes.size V
    | .failed e, .failed e' _ => e = e'
    | _, _ => False

theorem Agrees.finished {r : Outcome Val × World} {f : Finish × Machine} (h : Agrees r f) :
    f.1 ≠ .unfinished := by
  intro hf
  have hr := h.2
  rw [hf] at hr
  cases hv : r.1 <;> simp [hv] at hr

/-- A machine that was just made holds a world without variables. -/
theorem World.coded_start (maxCallDepth : Nat) (output : Output) :
    (World.start output).Coded (.start maxCallDepth output) := by
  refine ⟨by simp [World.start], by simp [World.start, Machine.start], ?_, rfl, rfl⟩
  intro id env sc he hs
  obtain ⟨hid, rfl⟩ := Array.getElem?_eq_some_iff.mp hs
  obtain rfl : id = 0 := by simpa [Machine.start] using hid
  cases he
  refine ⟨rfl, by simp [Machine.start, Scope.ofNames], by simp [Machine.start, Scope.ofNames], ?_⟩
  intro x
  rw [Scope.named?_eq_none (by simp [Machine.start, Scope.ofNames])]
  exact .none

section Script
variable {p : Program} {w : World} {m : Machine} {code : Code}

theorem evalProgram_follows (hw : w.Coded m) (hc : p.compileWith m.globalNames = .ok code)
    (limit : Nat) :
    Follows limit (m.load code) (evalProgram m.maxCallDepth limit p w)
      (Leaving (m.load code) []) := by
  obtain ⟨⟨last, hruns⟩, -⟩ := Program.compileWith_runs hc
  obtain ⟨hw', sc, hs, hsn⟩ := hw.load hc
  have hr : Ready m.maxCallDepth code Machine.globalScope w (m.load code) :=
    ⟨hw', rfl, hruns.nodup, sc, hs, hsn⟩
  exact activation_follows (invoke_follows m.maxCallDepth limit 0) hruns hr

/-- If the evaluation ends, the run does, and they agree. -/
theorem exists_run_agrees (hw : w.Coded m) (hc : p.compileWith m.globalNames = .ok code)
    {limit : Nat} (hf : (evalProgram m.maxCallDepth limit p w).1 ≠ .unfinished) :
    ∃ steps, Agrees (evalProgram m.maxCallDepth limit p w) ((m.load code).run steps) := by
  have h := evalProgram_follows hw hc limit
  match evalProgram m.maxCallDepth limit p w, hf, h with
  | (.done v, w'), _, ⟨n, m₁, hs, m', V, hleave, hV, hw', _⟩ =>
    exact ⟨n + 1, by rw [hs.run_done hleave]; exact ⟨{ hw' with }, hV⟩⟩
  | (.failed e, w'), _, ⟨n, m₁, m', hs, hfail, hw'⟩ =>
    exact ⟨n + 1, by rw [hs.run_failed hfail]; exact ⟨{ hw' with }, rfl⟩⟩
  | (.unfinished, _), hf, _ => exact absurd rfl hf

/-- A run that ends bounds the rounds and calls that the evaluation needs. -/
theorem evalProgram_finished (hw : w.Coded m) (hc : p.compileWith m.globalNames = .ok code)
    {steps : Nat} (hf : ((m.load code).run steps).1 ≠ .unfinished) :
    (evalProgram m.maxCallDepth steps p w).1 ≠ .unfinished := by
  intro hu
  have h := evalProgram_follows hw hc steps
  match evalProgram m.maxCallDepth steps p w, hu, h with
  | (.unfinished, _), _, ⟨_, hs⟩ => exact hf (hs.run_unfinished (Nat.le_refl steps))

end Script

/-- A script in which no function has a parameter twice compiles, whatever variables are there, and
its code does what direct evaluation says: one ends exactly if the other does, with the same value
or error, the same variables and the same output. -/
theorem compiled_script_agrees (p : Program) (w : World) (m : Machine) (hp : p.distinct = true)
    (hw : w.Coded m) :
    ∃ code, p.compileWith m.globalNames = .ok code ∧
      (∀ limit, (evalProgram m.maxCallDepth limit p w).1 ≠ .unfinished →
        ∃ steps, Agrees (evalProgram m.maxCallDepth limit p w) ((m.load code).run steps)) ∧
      (∀ steps, ((m.load code).run steps).1 ≠ .unfinished →
        ∃ limit, Agrees (evalProgram m.maxCallDepth limit p w) ((m.load code).run steps)) := by
  obtain ⟨code, hc⟩ := (p.compileWith_accepts m.globalNames).mpr hp
  refine ⟨code, hc, fun limit => exists_run_agrees hw hc, fun steps hf => ⟨steps, ?_⟩⟩
  obtain ⟨steps', h⟩ := exists_run_agrees hw hc (evalProgram_finished hw hc hf)
  rw [Machine.run_unique hf h.finished]
  exact h

/-- A loop that asks a function for the value with which it ends. -/
def emptyLoop : Program := ⟨[
  .expr (.function "empty" ["v"] [.ret (some (.binary .eq (.name "v") (.text "")))]),
  .assign "x" (.text "go"),
  .loop (.name "x") [.assign "x" (.call (.name "empty") [.name "x"])],
  .ret (some (.name "x"))]⟩

theorem emptyLoop_finishes :
    (evalProgram 1 3 emptyLoop (.start .unlimited)).1 = .done (.plain (.boolean false)) := by
  simp [evalProgram, emptyLoop, evalBlock, evalStmt, evalExpr, evalArgs, rounds, invoke, apply,
    Eval.define, Eval.assign, Eval.resolve, Eval.enclose, Eval.operate, World.lookup, World.start,
    Env.set, Env.bind, bind, pure, Machine.globalScope, Val.view, Value.isTrue, BinaryOp.apply,
    Value.equal, Flow.value]

theorem compiled_script_agrees_emptyLoop :
    emptyLoop.distinct = true ∧ (World.start .unlimited).Coded (.start 1 .unlimited) ∧
      ∃ code, emptyLoop.compileWith [] = .ok code ∧ ∃ steps,
        Agrees (evalProgram 1 3 emptyLoop (.start .unlimited))
          (((Machine.start 1 .unlimited).load code).run steps) := by
  have hw := World.coded_start 1 .unlimited
  obtain ⟨code, hc, h, -⟩ := compiled_script_agrees emptyLoop _ _ rfl hw
  exact ⟨rfl, hw, code, hc, h 3 fun h => nomatch emptyLoop_finishes.symm.trans h⟩

end Direct
end Scriptlet
