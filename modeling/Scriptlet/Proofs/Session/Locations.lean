import Scriptlet.Proofs.Machine.Failures
import Scriptlet.Proofs.Session.Integrity

/-! Runtime errors name the instruction that failed. -/
namespace Scriptlet

namespace Code

theorem location_eq {c : Code} {pc : Nat} {i : Instruction} (h : c.code[pc]? = some i) :
    c.location pc = c.name ++ " #" ++ toString pc ++ " " ++ i.op.name ++ " " ++ toString i.arg := by
  simp [location, h, Instruction.toText, String.append_assoc]

end Code

namespace Session

open Machine (Steps)

theorem machine_listed (s : Session) (code : Code) :
    (s.listed code).machine = { s.machine with output := (s.listed code).output } := by
  unfold listed
  split <;> rfl

theorem execute_runtime {s s' : Session} {fuel : Nat} {code : Code} {e : RuntimeError}
    {place : String} (h : s.execute fuel code = (.error (.runtime e place), s')) :
    (s.machine.load code).run fuel = (.failed e place, s'.machine) := by
  unfold execute at h
  cases hr : (s.machine.load code).run fuel with
  | mk finish m =>
    rw [hr] at h
    cases finish with
    | failed e' place' =>
      cases h
      rfl
    | returned v => cases h
    | unfinished => cases h

/-- A runtime error names the instruction that failed. Whatever the session ran before, the last step
of the run fetched an instruction from the frame that was then innermost; the place that is reported
is the name of that frame's code, the index of the instruction and the instruction itself, and it is
an instruction that can fail so. The output is what the steps before have printed and, of a write
that failed, the bytes that still fitted. -/
theorem errors_name_their_instruction (limits : Limits) (output : Output)
    (past : List (Nat × Request)) {s s' : Session} (hs : s = (start limits output).after past)
    {p : Program} {code : Code} (hc : s.compile p = .ok code) {fuel : Nat} {e : RuntimeError}
    {place : String} (hr : (s.listed code).execute fuel code = (.error (.runtime e place), s')) :
    ∃ n m f cs i, Steps n ((s.listed code).machine.load code) m ∧ (∃ m', m.step = (.failed e, m')) ∧
      m.frames = f :: cs ∧ f.code.code[f.pc]? = some i ∧
      place = f.code.name ++ " #" ++ toString f.pc ++ " " ++ i.op.name ++ " " ++ toString i.arg ∧
      e.Suits f.code i ∧
      s'.output.bytes = (s.listed code).output.bytes ++
        (((s.listed code).machine.load code).printedIn n).toUTF8.data ++
        e.written m.output m.printed := by
  obtain ⟨n, -, m, m', hsteps, hstep, hplace, hlast⟩ :=
    Machine.exists_steps_of_failed (execute_runtime hr)
  have hreach : m.Reachable := by
    rw [machine_listed] at hsteps
    subst hs
    exact ⟨limits, output, past, p, code, _, n, hc, hsteps⟩
  have hsafe := hreach.valid.step
  rw [hstep] at hsafe
  obtain ⟨f, cs, i, hfr, hi, -⟩ := hreach.valid.executable.next
  have hfail := Machine.failure_step hfr hi hstep
  refine ⟨n, m, f, cs, i, hsteps, ⟨m', hstep⟩, hfr, hi, ?_, hfail.suits hsafe.2, ?_⟩
  · rw [← hplace, hfail.location, Code.location_eq hi]
  · have hout : s'.output.bytes = m'.output.bytes := by
      rw [Session.output, ← hlast]
      rfl
    rw [hout, hfail.output, hsteps.output, Machine.printed_of_frames hfr hi]
    rfl

/-- The runtime error in which a script ended, and its place. -/
def runtimeError? : Except ScriptError Value → Option (RuntimeError × String)
  | .error (.runtime e place) => some (e, place)
  | _ => none

theorem runtimeError?_eq_some {r : Except ScriptError Value} {e : RuntimeError} {place : String}
    (h : runtimeError? r = some (e, place)) : r = .error (.runtime e place) := by
  unfold runtimeError? at h
  split at h
  · cases h
    rfl
  · cases h

/-- A session that has room for four bytes and whose first script failed. -/
def shortOfRoom : Session :=
  (start {} (.limited 4)).after [(9, .program ⟨[.assign "x" (.name "y")]⟩)]

/-- Two calls of a function that prints a line of three bytes. -/
def twoLines : Program := ⟨[
  .expr (.function "say" ["v"] [.expr (.call (.name "print") [.name "v"])]),
  .expr (.call (.name "say") [.text "ab"]),
  .expr (.call (.name "say") [.text "cd"])]⟩

/-- The second line breaks off after its first byte, and the error names the call of `print`. -/
theorem errors_name_their_instruction_halfLine :
    ∃ code s' n m f cs i, shortOfRoom.compile twoLines = .ok code ∧
      (shortOfRoom.listed code).execute 40 code =
        (.error (.runtime (.outputFailed Output.full) "say #2 CALL 1"), s') ∧
      Steps n ((shortOfRoom.listed code).machine.load code) m ∧
      m.frames = f :: cs ∧ f.code.code[f.pc]? = some i ∧ i.op = .call ∧
      "say #2 CALL 1" =
        f.code.name ++ " #" ++ toString f.pc ++ " " ++ i.op.name ++ " " ++ toString i.arg ∧
      s'.output.bytes = "ab\nc".toUTF8.data := by
  have hrun : (shortOfRoom.compile twoLines).toOption.map (fun code =>
      let r := (shortOfRoom.listed code).execute 40 code
      (runtimeError? r.1, r.2.output.bytes)) =
      some (some (.outputFailed Output.full, "say #2 CALL 1"), "ab\nc".toUTF8.data) := by
    decide +kernel
  cases hc : shortOfRoom.compile twoLines with
  | error e =>
    rw [hc] at hrun
    cases hrun
  | ok code =>
    rw [hc] at hrun
    obtain ⟨herror, hbytes⟩ := Prod.mk.inj (Option.some.inj hrun)
    cases hr : (shortOfRoom.listed code).execute 40 code with
    | mk result s' =>
      rw [hr] at herror hbytes
      obtain rfl := runtimeError?_eq_some herror
      obtain ⟨n, m, f, cs, i, hsteps, -, hfr, hi, hplace, hsuits, -⟩ :=
        errors_name_their_instruction {} (.limited 4) _ rfl hc hr
      exact ⟨code, s', n, m, f, cs, i, rfl, hr, hsteps, hfr, hi, hsuits, hplace, hbytes⟩

end Session
end Scriptlet
