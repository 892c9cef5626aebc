import Scriptlet.Proofs.Machine.Effects

/-! What a failed instruction leaves behind, and what instructions print. -/
namespace Scriptlet

/-- The instruction, which stands in code `c`, can fail in this way. -/
def RuntimeError.Suits (c : Code) (i : Instruction) : RuntimeError → Prop
  | undefinedVariable x => i.op = .loadVar ∧ c.names[i.arg]? = some x
  | notANumber _ => ∃ op, i.op = .binary op ∧ op ≠ .eq ∧ op ≠ .ne
  | notCallable _ | callDepthExceeded _ | assertionFailed | outputFailed _ => i.op = .call
  | invalidCode _ => False

/-- Equality fails on no operands. -/
theorem BinaryOp.suits_of_apply_error {op : BinaryOp} {v w : Value} {e : RuntimeError}
    (h : op.apply v w = .error e) (c : Code) (arg : Nat) : e.Suits c ⟨.binary op, arg⟩ := by
  obtain ⟨t, rfl⟩ := BinaryOp.apply_error h
  refine ⟨op, rfl, ?_, ?_⟩
  · rintro rfl
    cases h
  · rintro rfl
    cases h

namespace Output

/-- The bytes of a text that still fit. -/
def accepted (out : Output) (text : String) : Array UInt8 :=
  match out.capacity with
  | none => text.toUTF8.data
  | some n => text.toUTF8.data.extract 0 (n - out.bytes.size)

variable {out out' : Output} {text : String}

theorem bytes_write (out : Output) (text : String) :
    (out.write text).2.bytes = out.bytes ++ out.accepted text := by
  unfold write append accepted
  cases out.capacity with
  | none => rfl
  | some n =>
    dsimp only
    split
    · next h => rw [Array.extract_eq_self_of_le (by omega)]
    · rfl

theorem accepted_of_write (h : out.write text = (true, out')) :
    out.accepted text = text.toUTF8.data := by
  unfold write append at h
  unfold accepted
  cases hc : out.capacity with
  | none => rfl
  | some n =>
    simp only [hc] at h
    split at h
    · exact Array.extract_eq_self_of_le (by omega)
    · cases h

end Output

/-- What a step that fails so has written of a text: as much as fitted, if the write itself failed. -/
def RuntimeError.written (out : Output) (text : String) : RuntimeError → Array UInt8
  | outputFailed _ => out.accepted text
  | _ => #[]

/-- What a call of the value hands to the output. -/
def Value.printed (args : List Value) : Value → String
  | .builtin .print => Builtin.printLine args
  | _ => ""

/-- What the instruction hands to the output: a line if it calls `print`, else nothing. -/
def Frame.printed (f : Frame) (i : Instruction) : String :=
  match i.op, f.stack.drop i.arg with
  | .call, callee :: _ => callee.printed (f.stack.take i.arg).reverse
  | _, _ => ""

theorem Frame.printed_of_ne {f : Frame} {i : Instruction} (h : i.op ≠ .call) : f.printed i = "" := by
  unfold printed
  split
  · next hop _ => exact absurd hop h
  · rfl

namespace Machine

section Instructions
variable {m m' : Machine} {f : Frame} {cs : List Frame} {i : Instruction} {e : RuntimeError}

theorem Calls.printed {callee : Value} {args rest : List Value} (h : Calls f i callee args rest) :
    f.printed i = callee.printed args := by
  have hlen : args.length = args.reverse.length := by simp
  unfold Frame.printed
  rw [h.instruction, h.stack, hlen, List.drop_left, List.take_left, List.reverse_reverse]

/-- An instruction that fails leaves the frame where it is, with fewer values, and the error is one
that suits it. Only a failed write has changed the output. -/
structure Failure (m : Machine) (f : Frame) (cs : List Frame) (i : Instruction) (e : RuntimeError)
    (m' : Machine) : Prop where
  frames : ∃ stack, m'.frames = { f with stack } :: cs
  suits : (∀ fault, e ≠ .invalidCode fault) → e.Suits f.code i
  output : m'.output.bytes = m.output.bytes ++ e.written m.output (f.printed i)

theorem failure_halt {e' : RuntimeError} {stack : List Value}
    (h : m.halt { f with stack } cs e = (.failed e', m'))
    (hsuits : (∀ fault, e ≠ .invalidCode fault) → e.Suits f.code i)
    (hother : ∀ cause, e ≠ .outputFailed cause) : Failure m f cs i e' m' := by
  cases h
  refine ⟨⟨stack, rfl⟩, hsuits, ?_⟩
  cases e with
  | outputFailed cause => exact absurd rfl (hother cause)
  | _ => exact Array.append_empty.symm

theorem failure_fault {e' : RuntimeError} {fault : CodeFault} {stack : List Value}
    (h : m.halt { f with stack } cs (.invalidCode fault) = (.failed e', m')) :
    Failure m f cs i e' m' := failure_halt h (fun hne => absurd rfl (hne fault)) (by simp)

/-- An instruction that takes the top of the stack fails at once or goes on to fail. -/
theorem failure_withTop {k : Value → Frame → Status × Machine} {stack : List Value}
    (h : m.withTop { f with stack } cs k = (.failed e, m'))
    (hk : ∀ v rest, stack = v :: rest → k v { f with stack := rest } = (.failed e, m') →
      Failure m f cs i e m') : Failure m f cs i e m' := by
  unfold withTop Frame.pop at h
  cases stack with
  | nil => exact failure_fault h
  | cons v rest => exact hk v rest rfl h

theorem failure_enter {g : Closure} {args stack : List Value} (hop : i.op = .call)
    (h : m.enter { f with stack } cs g args = (.failed e, m')) : Failure m f cs i e m' := by
  unfold enter at h
  dsimp only at h
  split at h
  · exact failure_halt h (fun _ => hop) (by simp)
  · split at h
    · exact failure_fault h
    · cases h

theorem failure_builtin {b : Builtin} {args stack rest : List Value} {output : Output}
    (hcall : Calls f i (.builtin b) args rest)
    (hb : b.call args m.output = (.error e, output)) :
    Failure m f cs i e ({ m with output }.within { f with stack } cs) := by
  have hop : i.op = .call := by rw [hcall.instruction]
  refine ⟨⟨stack, rfl⟩, fun _ => ?_, ?_⟩
  · rcases Builtin.call_error hb with rfl | rfl
    · exact hop
    · exact hop
  · rw [hcall.printed]
    cases b with
    | print =>
      have hw := m.output.bytes_write (Builtin.printLine args)
      simp only [Builtin.call] at hb
      split at hb
      · cases hb
      · next heq =>
        cases hb
        rw [heq] at hw
        exact hw
    | typeof => cases hb
    | assert =>
      simp only [Builtin.call] at hb
      split at hb
      · cases hb
      · cases hb
        exact Array.append_empty.symm

theorem failure_call {arg : Nat} (h : m.call f cs arg = (.failed e, m')) :
    Failure m f cs ⟨.call, arg⟩ e m' := by
  unfold call Frame.popArgs at h
  by_cases hlen : f.stack.length < arg
  · simp only [if_pos hlen] at h
    exact failure_fault h
  · simp only [if_neg hlen] at h
    apply failure_withTop h
    intro callee rest hdrop hk
    have hcall : Calls f ⟨.call, arg⟩ callee (f.stack.take arg).reverse rest := by
      constructor
      · simp
        omega
      · rw [← hdrop]
        simp
    cases callee with
    | function g => exact failure_enter rfl hk
    | builtin b =>
      dsimp only at hk
      cases hb : b.call (f.stack.take arg).reverse m.output with
      | mk result output =>
        rw [hb] at hk
        cases result with
        | ok v => cases hk
        | error e =>
          cases hk
          exact failure_builtin hcall hb
    | _ => exact failure_halt hk (fun _ => rfl) (by simp)

theorem failure_execute (h : m.execute f cs i = (.failed e, m')) : Failure m f cs i e m' := by
  obtain ⟨op, arg⟩ := i
  cases op with
  | loadNumber | loadText =>
    simp only [execute, loadConstant] at h
    split at h
    · cases h
    · exact failure_fault h
  | loadBoolean => cases h
  | loadFunction =>
    simp only [execute] at h
    split at h
    · cases h
    · exact failure_fault h
  | loadVar =>
    simp only [execute, loadVar] at h
    cases hx : f.code.names[arg]? with
    | none =>
      cases hv : m.store.slot? f.scope arg with
      | some v => simp only [hv, hx] at h; cases h
      | none =>
        simp only [hv, hx] at h
        exact failure_fault h
    | some x =>
      cases hv : m.store.slot? f.scope arg with
      | some v => simp only [hv, hx] at h; cases h
      | none =>
        simp only [hv, hx] at h
        cases hb : Builtin.ofName? x with
        | some b => simp only [hb] at h; cases h
        | none =>
          simp only [hb] at h
          exact failure_halt h (fun _ => ⟨rfl, hx⟩) (by simp)
  | assign =>
    apply failure_withTop h
    intro v rest _ hk
    dsimp only at hk
    split at hk
    · cases hk
    · exact failure_fault hk
  | discard | jumpIfFalse =>
    apply failure_withTop h
    intro v rest _ hk
    cases hk
  | jump => cases h
  | binary op =>
    apply failure_withTop h
    intro right rest _ hk
    apply failure_withTop hk
    intro left rest' _ hk'
    cases hv : op.apply left right with
    | ok v => simp only [hv] at hk'; cases hk'
    | error e =>
      simp only [hv] at hk'
      have hsuits := BinaryOp.suits_of_apply_error hv f.code arg
      obtain ⟨t, rfl⟩ := BinaryOp.apply_error hv
      exact failure_halt hk' (fun _ => hsuits) (by simp)
  | call => exact failure_call h
  | ret =>
    simp only [execute] at h
    split at h
    · cases cs <;> cases h
    · apply failure_withTop h
      intro v rest _ hk
      cases cs <;> cases hk

/-- What an instruction that does not fail prints is in the output, and nothing else is new there. -/
theorem Transition.printed {r : Status × Machine} (h : Transition m f cs i r)
    (hok : ∀ e, r.1 ≠ .failed e) :
    r.2.output.bytes = m.output.bytes ++ (f.printed i).toUTF8.data := by
  have hnothing (he : f.printed i = "") :
      m.output.bytes = m.output.bytes ++ (f.printed i).toUTF8.data := by
    rw [he]
    exact Array.append_empty.symm
  cases h with
  | moves op => exact hnothing (Frame.printed_of_ne op.1)
  | makes op | assigns op | returns op | ends op => exact hnothing (Frame.printed_of_ne (by simp [op]))
  | enters call => exact hnothing call.printed
  | @asks b args rest v output call answer =>
    cases b with
    | print =>
      have hw := m.output.bytes_write (Builtin.printLine args)
      simp only [Builtin.call] at answer
      split at answer
      · next heq =>
        cases answer
        rw [Output.accepted_of_write heq, heq] at hw
        rw [call.printed]
        exact hw
      · cases answer
    | typeof =>
      cases answer
      exact hnothing call.printed
    | assert =>
      simp only [Builtin.call] at answer
      split at answer
      · cases answer
        exact hnothing call.printed
      · cases answer
  | refuses => exact absurd rfl (hok _)
  | fails => exact absurd rfl (hok _)

end Instructions

section Runs
variable {m m' : Machine} {f : Frame} {cs : List Frame} {i : Instruction} {n : Nat} {e : RuntimeError}

/-- What the next instruction hands to the output. -/
def printed (m : Machine) : String :=
  match m.frames with
  | [] => ""
  | f :: _ => (f.code.code[f.pc]?.map f.printed).getD ""

/-- What `n` steps print. -/
def printedIn : Nat → Machine → String
  | 0, _ => ""
  | n + 1, m => m.printed ++ printedIn n m.step.2

theorem printed_of_frames (hfr : m.frames = f :: cs) (hi : f.code.code[f.pc]? = some i) :
    m.printed = f.printed i := by
  simp [printed, hfr, hi]

theorem output_step (h : m.step = (.running, m')) :
    m'.output.bytes = m.output.bytes ++ m.printed.toUTF8.data := by
  obtain ⟨status, hs, hstop, -⟩ | ⟨f, cs, i, hfr, hi, ht⟩ := m.step_cases
  · rw [h] at hs
    cases hs
    exact absurd rfl hstop
  · rw [h] at ht
    rw [printed_of_frames hfr hi]
    exact ht.printed (by simp)

/-- The output grows by what is printed. -/
theorem Steps.output (h : Steps n m m') :
    m'.output.bytes = m.output.bytes ++ (printedIn n m).toUTF8.data := by
  induction h with
  | refl m => exact Array.append_empty.symm
  | @head n m m₁ m' first rest ih =>
    have happend : (m.printed ++ printedIn n m₁).toUTF8.data =
        m.printed.toUTF8.data ++ (printedIn n m₁).toUTF8.data := by
      unfold String.toUTF8
      rw [String.toByteArray_append, ByteArray.data_append]
    rw [ih, output_step first, printedIn, first, happend, Array.append_assoc]

/-- The frame of a failed instruction is still the innermost one and is just past it, so the place
that is reported is the place of the instruction. -/
theorem Failure.location (h : Failure m { f with pc := f.pc + 1 } cs i e m') :
    m'.location = f.code.location f.pc := by
  obtain ⟨stack, hfr⟩ := h.frames
  simp [Machine.location, hfr, Frame.location]

theorem failure_step (hfr : m.frames = f :: cs) (hi : f.code.code[f.pc]? = some i)
    (h : m.step = (.failed e, m')) : Failure m { f with pc := f.pc + 1 } cs i e m' := by
  rw [step_of_frames hfr hi] at h
  exact failure_execute h

end Runs
end Machine
end Scriptlet
