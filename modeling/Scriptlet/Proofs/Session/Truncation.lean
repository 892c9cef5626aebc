import Scriptlet.Proofs.Machine.Settings
import Scriptlet.Proofs.Session.Locations

/-! A limited output only cuts off: a script cannot see the limit before it prints beyond it, and then it
fails with all that there is room for in the output. -/
namespace Scriptlet

namespace Output

def withCapacity (c : Option Nat) (out : Output) : Output := { out with capacity := c }

variable {out : Output} {room : Nat}

theorem write_of_unlimited (h : out.capacity = none) (text : String) :
    out.write text = (true, { out with bytes := out.bytes ++ text.toUTF8.data }) := by
  unfold write append
  rw [h]

/-- A text that fits is written whole. -/
theorem write_of_le {text : String} (h : out.bytes.size + text.toUTF8.data.size ≤ room) :
    (out.withCapacity (some room)).write text =
      (true, { out with bytes := out.bytes ++ text.toUTF8.data }.withCapacity (some room)) :=
  if_pos h

/-- Of a text that does not fit, what there is room for is written. -/
theorem write_of_lt {text : String} (hroom : out.bytes.size ≤ room)
    (h : room < out.bytes.size + text.toUTF8.data.size) :
    (out.withCapacity (some room)).write text =
      (false, ⟨(out.bytes ++ text.toUTF8.data).extract 0 room, some room⟩) := by
  have hcut : (out.bytes ++ text.toUTF8.data).extract 0 room =
      out.bytes ++ text.toUTF8.data.extract 0 (room - out.bytes.size) := by
    rw [Array.extract_append, Array.extract_eq_self_of_le hroom, Nat.zero_sub]
  rw [hcut]
  exact if_neg (not_le.mpr h)

end Output

namespace Builtin

variable {out : Output} {room : Nat}

/-- A builtin for which there is room answers as if there were no limit. -/
theorem call_of_le (b : Builtin) (args : List Value) (hout : out.capacity = none)
    (h : (b.call args out).2.bytes.size ≤ room) :
    b.call args (out.withCapacity (some room)) =
      ((b.call args out).1, (b.call args out).2.withCapacity (some room)) := by
  cases b with
  | print =>
    simp only [call, Output.write_of_unlimited hout, Array.size_append] at h ⊢
    rw [Output.write_of_le h]
  | typeof => rfl
  | assert =>
    unfold call
    dsimp only
    split <;> rfl

/-- A builtin for which there is no room is `print`. It fails, and has written as much as fits. -/
theorem call_of_lt {b : Builtin} {args : List Value} (hout : out.capacity = none)
    (hroom : out.bytes.size ≤ room) (h : room < (b.call args out).2.bytes.size) :
    b = .print ∧ b.call args (out.withCapacity (some room)) =
      (.error (.outputFailed Output.full), ⟨(b.call args out).2.bytes.extract 0 room, some room⟩) := by
  cases b with
  | print =>
    simp only [call, Output.write_of_unlimited hout, Array.size_append] at h ⊢
    rw [Output.write_of_lt hroom h]
    exact ⟨trivial, rfl⟩
  | typeof => exact absurd h (not_lt.mpr hroom)
  | assert =>
    have hsame : (Builtin.assert.call args out).2 = out := by
      unfold call
      dsimp only
      split <;> rfl
    rw [hsame] at h
    exact absurd h (not_lt.mpr hroom)

/-- Nothing that was printed is taken back. -/
theorem exists_bytes_call (b : Builtin) (args : List Value) (out : Output) :
    ∃ more, (b.call args out).2.bytes = out.bytes ++ more := by
  cases b with
  | print =>
    have hw := out.bytes_write (printLine args)
    refine ⟨_, Eq.trans ?_ hw⟩
    unfold call
    dsimp only
    split
    · next heq => rw [heq]
    · next heq => rw [heq]
  | typeof => exact ⟨#[], Array.append_empty.symm⟩
  | assert =>
    refine ⟨#[], ?_⟩
    unfold call
    dsimp only
    rw [Array.append_empty]
    split <;> rfl

end Builtin

namespace Machine

def withCapacity (c : Option Nat) (m : Machine) : Machine := m.refit id (Output.withCapacity c)

/-- The next instruction calls `print`, which prints more than there is room for. -/
structure Overruns (room : Nat) (m : Machine) (f : Frame) (cs : List Frame) (args rest : List Value) :
    Prop where
  asks : m.Asks .print f cs args rest
  before : m.output.bytes.size ≤ room
  after : room < m.step.2.output.bytes.size

section Steps
variable {m : Machine} {room : Nat} {b : Builtin} {f : Frame} {cs : List Frame} {args rest : List Value}

theorem Asks.output (h : m.Asks b f cs args rest) :
    m.step.2.output = (b.call args m.output).2 := by
  rw [h.step]
  cases b.call args m.output with
  | mk result output => cases result <;> rfl

theorem exists_bytes_step (m : Machine) : ∃ more, m.step.2.output.bytes = m.output.bytes ++ more := by
  by_cases hasks : ∃ b f cs args rest, m.Asks b f cs args rest
  · obtain ⟨b, f, cs, args, rest, hasks⟩ := hasks
    rw [hasks.output]
    exact b.exists_bytes_call args m.output
  · simp only [not_exists] at hasks
    rw [output_of_not_asks hasks]
    exact ⟨#[], Array.append_empty.symm⟩

/-- A step for which there is room is the same under the limit. -/
theorem step_withCapacity (hm : m.output.capacity = none) (h : m.step.2.output.bytes.size ≤ room) :
    (m.withCapacity (some room)).step = (m.step.1, m.step.2.withCapacity (some room)) := by
  by_cases hasks : ∃ b f cs args rest, m.Asks b f cs args rest
  · obtain ⟨b, f, cs, args, rest, hasks⟩ := hasks
    rw [hasks.output] at h
    have hcall : b.call args (m.withCapacity (some room)).output = _ := b.call_of_le args hm h
    have hlimited := (hasks.refit id (Output.withCapacity (some room))).step
    unfold withCapacity at hcall ⊢
    rw [hlimited, hcall, hasks.step]
    cases b.call args m.output with
    | mk result output => cases result <;> rfl
  · simp only [not_exists] at hasks
    exact step_refit hasks _

/-- A step for which there is no room calls `print`. -/
theorem exists_overruns (hm : m.output.capacity = none) (hroom : m.output.bytes.size ≤ room)
    (h : room < m.step.2.output.bytes.size) : ∃ f cs args rest, m.Overruns room f cs args rest := by
  by_cases hasks : ∃ b f cs args rest, m.Asks b f cs args rest
  · obtain ⟨b, f, cs, args, rest, hasks⟩ := hasks
    have hcall := h
    rw [hasks.output] at hcall
    obtain ⟨rfl, -⟩ := Builtin.call_of_lt hm hroom hcall
    exact ⟨f, cs, args, rest, hasks, hroom, h⟩
  · simp only [not_exists] at hasks
    rw [output_of_not_asks hasks] at h
    exact absurd h (not_lt.mpr hroom)

/-- Under the limit it fails. The variables are as before, and the output is full. -/
theorem Overruns.step (h : m.Overruns room f cs args rest) (hm : m.output.capacity = none) :
    (m.withCapacity (some room)).step = (.failed (.outputFailed Output.full),
      { m with output := ⟨m.step.2.output.bytes.extract 0 room, some room⟩ }.within
        { f with pc := f.pc + 1, stack := rest } cs) := by
  have hafter := h.after
  rw [h.asks.output] at hafter
  have hcall : Builtin.print.call args (m.withCapacity (some room)).output = _ :=
    (Builtin.call_of_lt hm h.before hafter).2
  have hlimited := (h.asks.refit id (Output.withCapacity (some room))).step
  unfold withCapacity at hcall ⊢
  rw [hlimited, hcall, h.asks.output]
  rfl

end Steps

section Runs
variable {m : Machine} {room : Nat}

theorem exists_bytes_run (m : Machine) (fuel : Nat) :
    ∃ more, (m.run fuel).2.output.bytes = m.output.bytes ++ more := by
  induction fuel generalizing m with
  | zero => exact ⟨#[], Array.append_empty.symm⟩
  | succ fuel ih =>
    obtain ⟨first, hfirst⟩ := m.exists_bytes_step
    rw [run]
    cases hs : m.step with
    | mk status m' =>
      rw [hs] at hfirst
      cases status with
      | running =>
        obtain ⟨later, hlater⟩ := ih m'
        exact ⟨first ++ later, by rw [hlater, hfirst, Array.append_assoc]⟩
      | done v => exact ⟨first, hfirst⟩
      | failed e => exact ⟨first, hfirst⟩

/-- What the first step has printed stays printed. -/
theorem exists_bytes_after_step (m : Machine) (fuel : Nat) :
    ∃ more, (m.run (fuel + 1)).2.output.bytes = m.step.2.output.bytes ++ more := by
  rw [run]
  cases hs : m.step with
  | mk status m' =>
    cases status with
    | running => exact m'.exists_bytes_run fuel
    | done v => exact ⟨#[], Array.append_empty.symm⟩
    | failed e => exact ⟨#[], Array.append_empty.symm⟩

/-- A run for which there is room is the same under the limit. -/
theorem run_withCapacity (fuel : Nat) (hm : m.output.capacity = none)
    (h : (m.run fuel).2.output.bytes.size ≤ room) :
    (m.withCapacity (some room)).run fuel =
      ((m.run fuel).1, (m.run fuel).2.withCapacity (some room)) := by
  induction fuel generalizing m with
  | zero => rfl
  | succ fuel ih =>
    have hfirst : m.step.2.output.bytes.size ≤ room := by
      obtain ⟨more, hmore⟩ := m.exists_bytes_after_step fuel
      rw [hmore, Array.size_append] at h
      omega
    have hstep := step_withCapacity hm hfirst
    have hcapacity := m.capacity_step.trans hm
    rw [run] at h ⊢
    rw [run, hstep]
    cases hs : m.step with
    | mk status m' =>
      rw [hs] at h hcapacity
      cases status with
      | running => exact ih hcapacity h
      | done v => rfl
      | failed e => rfl

/-- A run for which there is no room fails under the limit, at the call of `print` whose line does not
fit. -/
theorem run_overruns (fuel : Nat) (hm : m.output.capacity = none) (hroom : m.output.bytes.size ≤ room)
    (h : room < (m.run fuel).2.output.bytes.size) :
    ∃ n m₁ f cs args rest, n < fuel ∧ Steps n m m₁ ∧ m₁.Overruns room f cs args rest ∧
      (m.withCapacity (some room)).run fuel =
        (.failed (.outputFailed Output.full) (f.code.location f.pc),
          { m₁ with
            frames := []
            output := ⟨(m.run fuel).2.output.bytes.extract 0 room, some room⟩ }) := by
  induction fuel generalizing m with
  | zero => exact absurd h (not_lt.mpr hroom)
  | succ fuel ih =>
    by_cases hfirst : m.step.2.output.bytes.size ≤ room
    · have hstep := step_withCapacity hm hfirst
      have hcapacity := m.capacity_step.trans hm
      rw [run] at h ⊢
      rw [run, hstep]
      cases hs : m.step with
      | mk status m' =>
        rw [hs] at h hfirst hcapacity
        cases status with
        | running =>
          obtain ⟨n, m₁, f, cs, args, rest, hn, hsteps, hover, hrun⟩ := ih hcapacity hfirst h
          exact ⟨n + 1, m₁, f, cs, args, rest, Nat.succ_lt_succ hn, .head hs hsteps, hover, hrun⟩
        | done v => exact absurd h (not_lt.mpr hfirst)
        | failed e => exact absurd h (not_lt.mpr hfirst)
    · obtain ⟨f, cs, args, rest, hover⟩ := exists_overruns hm hroom (not_le.mp hfirst)
      obtain ⟨more, hmore⟩ := m.exists_bytes_after_step fuel
      have hcut : (m.run (fuel + 1)).2.output.bytes.extract 0 room =
          m.step.2.output.bytes.extract 0 room := by
        have hnone : room - m.step.2.output.bytes.size = 0 := by omega
        rw [hmore, Array.extract_append, hnone, Array.extract_zero, Array.append_empty]
      refine ⟨0, m, f, cs, args, rest, Nat.succ_pos fuel, .refl m, hover, ?_⟩
      rw [hcut, run, hover.step hm]
      rfl

end Runs
end Machine

namespace Session

open Machine (Steps)

variable {s : Session} {room : Nat}

def withCapacity (c : Option Nat) (s : Session) : Session :=
  { s with machine := s.machine.withCapacity c }

theorem output_execute (s : Session) (fuel : Nat) (code : Code) :
    (s.execute fuel code).2.output = ((s.machine.load code).run fuel).2.output := by
  rw [output, machine_execute]

theorem execute_withCapacity (fuel : Nat) (code : Code) (hs : s.output.capacity = none)
    (h : (s.execute fuel code).2.output.bytes.size ≤ room) :
    (s.withCapacity (some room)).execute fuel code =
      ((s.execute fuel code).1, (s.execute fuel code).2.withCapacity (some room)) := by
  rw [output_execute] at h
  have hrun : ((s.withCapacity (some room)).machine.load code).run fuel = _ :=
    Machine.run_withCapacity (m := s.machine.load code) fuel hs h
  unfold execute
  rw [hrun]
  cases (s.machine.load code).run fuel with
  | mk finish m => cases finish <;> rfl

theorem execute_overruns (fuel : Nat) (code : Code) (hs : s.output.capacity = none)
    (hroom : s.output.bytes.size ≤ room) (h : room < (s.execute fuel code).2.output.bytes.size) :
    ∃ n m f cs args rest, n < fuel ∧ Steps n (s.machine.load code) m ∧
      m.Overruns room f cs args rest ∧
      (s.withCapacity (some room)).execute fuel code =
        (.error (.runtime (.outputFailed Output.full) (f.code.location f.pc)),
          { s with machine := { m with
            frames := []
            output := ⟨(s.execute fuel code).2.output.bytes.extract 0 room, some room⟩ } }) := by
  rw [output_execute] at h ⊢
  obtain ⟨n, m, f, cs, args, rest, hn, hsteps, hover, hrun⟩ :=
    Machine.run_overruns (m := s.machine.load code) fuel hs hroom h
  have hrun' : ((s.withCapacity (some room)).machine.load code).run fuel = _ := hrun
  refine ⟨n, m, f, cs, args, rest, hn, hsteps, hover, ?_⟩
  unfold execute
  rw [hrun']
  rfl

/-- A limited output only cuts off. Take a session as it is and a script, once without limit and once
with room for so many more bytes. For any number of steps, as long as the script has printed no more
than that, both runs have come to the same state. As soon as it prints more, the limited run has
failed at the call of `print` whose line does not fit, the output is what there is room for of the
other one, and the global variables are those of the other run just before that call. -/
theorem limited_output_truncates (s : Session) (hdebug : s.debug = false) (p : Program) (limit : Nat) :
    let free := s.withCapacity none
    let room := s.output.bytes.size + limit
    let tight := s.withCapacity (some room)
    ∀ fuel,
      ((free.runProgram fuel p).2.output.bytes.size ≤ room →
        tight.runProgram fuel p =
          ((free.runProgram fuel p).1, (free.runProgram fuel p).2.withCapacity (some room))) ∧
      (room < (free.runProgram fuel p).2.output.bytes.size →
        ∃ code n m f cs args rest, free.compile p = .ok code ∧ n < fuel ∧
          Steps n (free.machine.load code) m ∧ m.Overruns room f cs args rest ∧
          (tight.runProgram fuel p).1 = .error (.runtime (.outputFailed Output.full)
            (f.code.name ++ " #" ++ toString f.pc ++ " CALL " ++ toString args.length)) ∧
          (tight.runProgram fuel p).2.output.bytes =
            (free.runProgram fuel p).2.output.bytes.extract 0 room ∧
          (tight.runProgram fuel p).2.globals = m.globals) := by
  intro free room tight fuel
  have hroom : free.output.bytes.size ≤ room := Nat.le_add_right _ limit
  have hcompile : tight.compile p = free.compile p := rfl
  cases hc : free.compile p with
  | error e =>
    have hfree : free.runProgram fuel p = (.error (.compile e), free) := by
      simp only [runProgram, hc]
    have htight : tight.runProgram fuel p = (.error (.compile e), tight) := by
      simp only [runProgram, hcompile, hc]
    rw [hfree, htight]
    exact ⟨fun _ => rfl, fun hover => absurd hover (not_lt.mpr hroom)⟩
  | ok code =>
    rw [runProgram_eq (s := free) hdebug hc, runProgram_eq (s := tight) hdebug (hcompile.trans hc)]
    constructor
    · intro hfits
      exact execute_withCapacity fuel code rfl hfits
    · intro hover
      obtain ⟨n, m, f, cs, args, rest, hn, hsteps, hoverruns, hrun⟩ :=
        execute_overruns fuel code rfl hroom hover
      have hplace := Code.location_eq hoverruns.asks.instruction
      have htight : tight.execute fuel code = _ := hrun
      refine ⟨code, n, m, f, cs, args, rest, rfl, hn, hsteps, hoverruns, ?_, ?_, ?_⟩
      · rw [htight, hplace]
        simp [String.append_assoc, Opcode.name]
      · rw [htight]
        rfl
      · rw [htight]
        rfl

/-- A session that has printed a line of three bytes. -/
def greeted : Session := (start {} .unlimited).after
  [(9, .program ⟨[.expr (.call (.name "print") [.text "\u00e9"])]⟩)]

/-- Prints a line of two bytes and one of three, with assignments around them. -/
def twoLetters : Program := ⟨[
  .assign "x" (.text "a"), .expr (.call (.name "print") [.name "x"]),
  .assign "x" (.text "\u00e9"), .expr (.call (.name "print") [.name "x"]), .assign "x" (.text "b")]⟩

/-- With room for three bytes, the second line breaks off in the middle of a character. -/
theorem limited_output_truncates_halfCharacter :
    let room := greeted.output.bytes.size + 3
    let tight := greeted.withCapacity (some room)
    let free := greeted.withCapacity none
    greeted.debug = false ∧
    tight.runProgram 6 twoLetters =
      ((free.runProgram 6 twoLetters).1, (free.runProgram 6 twoLetters).2.withCapacity (some room)) ∧
    (tight.runProgram 30 twoLetters).2.output.bytes = #[0xC3, 0xA9, 0x0A, 0x61, 0x0A, 0xC3] ∧
    ((tight.runProgram 30 twoLetters).2.globals.lookup "x").map (·.map Value.display) =
      some (some "\u00e9") ∧
    ∃ code n m f cs args rest, free.compile twoLetters = .ok code ∧ n < 30 ∧
      Steps n (free.machine.load code) m ∧ m.Overruns room f cs args rest ∧
      (tight.runProgram 30 twoLetters).1 = .error (.runtime (.outputFailed Output.full)
        (f.code.name ++ " #" ++ toString f.pc ++ " CALL " ++ toString args.length)) ∧
      (tight.runProgram 30 twoLetters).2.globals = m.globals := by
  intro room tight free
  have hdebug : greeted.debug = false := by decide +kernel
  have hfits : (free.runProgram 6 twoLetters).2.output.bytes.size ≤ room := by decide +kernel
  have hover : room < (free.runProgram 30 twoLetters).2.output.bytes.size := by decide +kernel
  have hbytes : (tight.runProgram 30 twoLetters).2.output.bytes =
      #[0xC3, 0xA9, 0x0A, 0x61, 0x0A, 0xC3] := by decide +kernel
  have hvalue : ((tight.runProgram 30 twoLetters).2.globals.lookup "x").map (·.map Value.display) =
      some (some "\u00e9") := by decide +kernel
  have htruncates := limited_output_truncates greeted hdebug twoLetters 3
  obtain ⟨code, n, m, f, cs, args, rest, hc, hn, hsteps, hoverruns, herror, -, hglobals⟩ :=
    (htruncates 30).2 hover
  exact ⟨hdebug, (htruncates 6).1 hfits, hbytes, hvalue, code, n, m, f, cs, args, rest, hc, hn, hsteps,
    hoverruns, herror, hglobals⟩

end Session
end Scriptlet
