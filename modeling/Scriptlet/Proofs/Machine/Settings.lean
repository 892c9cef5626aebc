import Scriptlet.Proofs.Machine.Steps

/-! The limit on calls and the output are settings of the machine. Only calls look at them: a call of a
function at the limit, and a call of a builtin at the output. -/
namespace Scriptlet.Machine

/-- The machine with other settings. -/
def refit (limit : Nat → Nat) (out : Output → Output) (m : Machine) : Machine :=
  { m with maxCallDepth := limit m.maxCallDepth, output := out m.output }

section Instructions
variable {m : Machine} {f : Frame} {cs : List Frame} {i : Instruction} {limit : Nat → Nat}
  {out : Output → Output}

theorem withTop_refit {k k' : Value → Frame → Status × Machine}
    (h : ∀ v f, k' v f = ((k v f).1, (k v f).2.refit limit out)) :
    (m.refit limit out).withTop f cs k' =
      ((m.withTop f cs k).1, (m.withTop f cs k).2.refit limit out) := by
  unfold withTop
  cases f.pop with
  | error e => rfl
  | ok top => exact h top.1 top.2

theorem leave_refit (v : Value) :
    (m.refit limit out).leave cs v = ((m.leave cs v).1, (m.leave cs v).2.refit limit out) := by
  cases cs <;> rfl

theorem execute_refit (hop : i.op ≠ .call) : (m.refit limit out).execute f cs i =
    ((m.execute f cs i).1, (m.execute f cs i).2.refit limit out) := by
  have hstore : (m.refit limit out).store = m.store := rfl
  unfold execute
  cases h : i.op with
  | loadNumber | loadText =>
    unfold loadConstant
    dsimp only
    split <;> rfl
  | loadBoolean | jump => rfl
  | loadFunction =>
    dsimp only
    split <;> rfl
  | loadVar =>
    unfold loadVar
    dsimp only
    rw [hstore]
    split
    · rfl
    · rfl
    · split <;> rfl
  | assign =>
    apply withTop_refit
    intro v f
    rw [hstore]
    split <;> rfl
  | discard => exact withTop_refit fun _ _ => rfl
  | jumpIfFalse => exact withTop_refit fun _ _ => rfl
  | binary op =>
    apply withTop_refit
    intro right f
    apply withTop_refit
    intro left f
    split <;> rfl
  | call => exact absurd h hop
  | ret =>
    dsimp only
    split
    · exact leave_refit _
    · exact withTop_refit fun v _ => leave_refit v

theorem enter_refit (g : Closure) (args : List Value) : (m.refit id out).enter f cs g args =
    ((m.enter f cs g args).1, (m.enter f cs g args).2.refit id out) := by
  have hlimit : (m.refit id out).maxCallDepth = m.maxCallDepth := rfl
  unfold enter
  dsimp only
  rw [hlimit]
  split
  · rfl
  · split <;> rfl

end Instructions

/-- The next instruction calls the builtin `b`. -/
structure Asks (m : Machine) (b : Builtin) (f : Frame) (cs : List Frame) (args rest : List Value) :
    Prop where
  frames : m.frames = f :: cs
  instruction : f.code.code[f.pc]? = some ⟨.call, args.length⟩
  stack : f.stack = args.reverse ++ .builtin b :: rest

section Builtins
variable {m : Machine} {f : Frame} {cs : List Frame} {b : Builtin} {args rest : List Value}

theorem Asks.step (h : m.Asks b f cs args rest) :
    m.step = match b.call args m.output with
      | (.ok v, output) =>
        (.running, { m with output }.within { f with pc := f.pc + 1, stack := v :: rest } cs)
      | (.error e, output) =>
        (.failed e, { m with output }.within { f with pc := f.pc + 1, stack := rest } cs) := by
  obtain ⟨c, pc, stack, scope⟩ := f
  obtain rfl : stack = args.reverse ++ .builtin b :: rest := h.stack
  have hm : m = m.within ⟨c, pc, args.reverse ++ .builtin b :: rest, scope⟩ cs := by
    rw [within, ← h.frames]
  rw [hm]
  exact step_call h.instruction

theorem Asks.refit (h : m.Asks b f cs args rest) (limit : Nat → Nat) (out : Output → Output) :
    (m.refit limit out).Asks b f cs args rest := ⟨h.frames, h.instruction, h.stack⟩

theorem call_refit {n : Nat} {out : Output → Output} (hnot : ∀ (b : Builtin) (args rest : List Value),
      n = args.length → f.stack ≠ args.reverse ++ .builtin b :: rest) :
    (m.refit id out).call f cs n = ((m.call f cs n).1, (m.call f cs n).2.refit id out) := by
  unfold call Frame.popArgs
  by_cases hlength : f.stack.length < n
  · simp only [if_pos hlength]
    rfl
  · simp only [if_neg hlength]
    unfold withTop Frame.pop
    dsimp only
    cases hdrop : f.stack.drop n with
    | nil => rfl
    | cons callee rest =>
      cases callee with
      | builtin b =>
        have hcount : n = (f.stack.take n).reverse.length := by
          rw [List.length_reverse, List.length_take]
          omega
        have hstack : f.stack = (f.stack.take n).reverse.reverse ++ .builtin b :: rest := by
          rw [← hdrop, List.reverse_reverse, List.take_append_drop]
        exact absurd hstack (hnot b _ rest hcount)
      | function g => exact enter_refit g _
      | _ => rfl

/-- A step that calls no builtin does not look at the output. -/
theorem step_refit (hnot : ∀ b f cs args rest, ¬ m.Asks b f cs args rest) (out : Output → Output) :
    (m.refit id out).step = (m.step.1, m.step.2.refit id out) := by
  have hframes : (m.refit id out).frames = m.frames := rfl
  unfold step
  rw [hframes]
  cases hfr : m.frames with
  | nil => rfl
  | cons f cs =>
    dsimp only
    cases hi : f.code.code[f.pc]? with
    | none => rfl
    | some i =>
      by_cases hop : i.op = .call
      · obtain ⟨op, n⟩ := i
        obtain rfl : op = .call := hop
        apply call_refit
        intro b args rest hn hstack
        have hcall : f.code.code[f.pc]? = some ⟨.call, args.length⟩ := hn ▸ hi
        exact hnot b f cs args rest ⟨hfr, hcall, hstack⟩
      · exact execute_refit hop

/-- Nor does it change the output. -/
theorem output_of_not_asks (hnot : ∀ b f cs args rest, ¬ m.Asks b f cs args rest) :
    m.step.2.output = m.output :=
  congrArg (fun r => r.2.output) (step_refit hnot fun _ => m.output)

end Builtins
end Scriptlet.Machine
