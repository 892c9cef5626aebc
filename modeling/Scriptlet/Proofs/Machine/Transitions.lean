import Scriptlet.Proofs.Machine.Steps
import Scriptlet.Proofs.Value.Results

/-! All that one instruction can do. -/
namespace Scriptlet.Machine

/-- A value that an instruction can lay hold of without making a function: it lies on the stack, a
variable has it, or it is not a function at all. -/
def Finds (m : Machine) (f : Frame) (v : Value) : Prop :=
  v.IsPlain ∨ v ∈ f.stack ∨ ∃ slot, m.store.slot? f.scope slot = some v

/-- `f'` is `f` at some place of its code, with values that were found. -/
structure Moves (m : Machine) (f f' : Frame) : Prop where
  code : f'.code = f.code
  scope : f'.scope = f.scope
  stack : ∀ v ∈ f'.stack, m.Finds f v

/-- The instruction calls `callee`, which lies below its arguments. -/
structure Calls (f : Frame) (i : Instruction) (callee : Value) (args rest : List Value) : Prop where
  instruction : i = ⟨.call, args.length⟩
  stack : f.stack = args.reverse ++ callee :: rest

/-- What comes of an instruction, where `f` is already past it and `cs` are the callers. -/
inductive Transition (m : Machine) (f : Frame) (cs : List Frame) (i : Instruction) :
    Status × Machine → Prop
  /-- Only the frame changes. -/
  | moves {f' : Frame} (op : i.op ≠ .call ∧ i.op ≠ .ret) (frame : m.Moves f f') :
      Transition m f cs i (.running, m.within f' cs)
  | makes {c : Code} (op : i.op = .loadFunction) (found : f.code.functions[i.arg]? = some c) :
      Transition m f cs i (.running, { m with closures := m.closures + 1 }.within
        (f.push (.function ⟨m.closures, c, f.scope⟩)) cs)
  | assigns {v : Value} {rest : List Value} {store : Store} (op : i.op = .assign)
      (top : f.stack = v :: rest) (set : m.store.set? f.scope i.arg v = some store) :
      Transition m f cs i (.running, { m with store }.within { f with stack := rest } cs)
  | asks {b : Builtin} {args rest : List Value} {v : Value} {output : Output}
      (call : Calls f i (.builtin b) args rest) (answer : b.call args m.output = (.ok v, output)) :
      Transition m f cs i (.running, { m with output }.within { f with stack := v :: rest } cs)
  | enters {g : Closure} {args rest : List Value} (call : Calls f i (.function g) args rest)
      (shallow : cs.length < m.maxCallDepth) :
      Transition m f cs i (.running, { m with store := ⟨m.store.scopes.push (.ofCall g args)⟩ }.within
        (.start g.code m.store.scopes.size) ({ f with stack := rest } :: cs))
  | returns {caller : Frame} {callers : List Frame} {v : Value} (op : i.op = .ret)
      (value : m.Finds f v) (waiting : cs = caller :: callers) :
      Transition m f cs i (.running, m.within (caller.push v) callers)
  | ends {v : Value} (op : i.op = .ret) (value : m.Finds f v) (outermost : cs = []) :
      Transition m f cs i (.done v, { m with frames := [] })
  /-- Too many calls are active for another one. -/
  | refuses {g : Closure} {args rest : List Value} (call : Calls f i (.function g) args rest)
      (deep : m.maxCallDepth ≤ cs.length) :
      Transition m f cs i
        (.failed (.callDepthExceeded m.maxCallDepth), m.within { f with stack := rest } cs)
  | fails {f' : Frame} {e : RuntimeError} {output : Output} (other : ∀ n, e ≠ .callDepthExceeded n)
      (frame : m.Moves f f')
      (printed : output = m.output ∨ ∃ b args, (Builtin.call b args m.output).2 = output) :
      Transition m f cs i (.failed e, { m with output }.within f' cs)

section Frames
variable {m : Machine} {f f' : Frame} {cs : List Frame} {i : Instruction} {v : Value}

theorem Finds.of_isPlain (h : v.IsPlain) : m.Finds f v := .inl h

theorem Finds.of_mem (h : v ∈ f.stack) : m.Finds f v := .inr (.inl h)

theorem Moves.refl (m : Machine) (f : Frame) : m.Moves f f := ⟨rfl, rfl, fun _ => .of_mem⟩

/-- Values may be left out. -/
theorem Moves.of_subset {stack : List Value} (h : stack ⊆ f.stack) :
    m.Moves f { f with stack } := ⟨rfl, rfl, fun _ hv => .of_mem (h hv)⟩

theorem Moves.push (h : m.Moves f f') (hv : m.Finds f v) : m.Moves f (f'.push v) :=
  ⟨h.code, h.scope, List.forall_mem_cons.mpr ⟨hv, h.stack⟩⟩

theorem Moves.jump (h : m.Moves f f') (pc : Nat) : m.Moves f { f' with pc } :=
  ⟨h.code, h.scope, h.stack⟩

theorem transition_halt {e : RuntimeError} (h : ∀ n, e ≠ .callDepthExceeded n)
    (hf : m.Moves f f') : Transition m f cs i (m.halt f' cs e) := .fails h hf (.inl rfl)

/-- An instruction that takes the top of the stack. -/
theorem transition_withTop {k : Value → Frame → Status × Machine} {stack : List Value}
    (hs : stack ⊆ f.stack)
    (h : ∀ v rest, stack = v :: rest → Transition m f cs i (k v { f with stack := rest })) :
    Transition m f cs i (m.withTop { f with stack } cs k) := by
  unfold withTop Frame.pop
  cases stack with
  | nil => exact transition_halt (by simp) (.of_subset hs)
  | cons v rest => exact h v rest rfl

theorem transition_leave (op : i.op = .ret) (hv : m.Finds f v) :
    Transition m f cs i (m.leave cs v) := by
  cases cs with
  | nil => exact .ends op hv rfl
  | cons caller callers => exact .returns op hv rfl

theorem transition_enter {g : Closure} {args rest : List Value}
    (hc : Calls f i (.function g) args rest) :
    Transition m f cs i (m.enter { f with stack := rest } cs g args) := by
  by_cases hd : m.maxCallDepth ≤ cs.length
  · rw [enter_of_le args hd]
    exact .refuses hc hd
  · have hlt : cs.length < m.maxCallDepth := by omega
    by_cases hp : g.code.argCount ≤ g.code.names.size
    · rw [enter_of_lt args hlt hp]
      exact .enters hc hlt
    · have hrest : rest ⊆ f.stack := by
        intro v hv
        simp [hc.stack, hv]
      have hnot : ¬ m.maxCallDepth < cs.length + 1 := by omega
      have hfew : g.code.names.size < g.code.argCount := by omega
      simp only [enter, if_neg hnot, if_pos hfew]
      exact transition_halt (by simp) (.of_subset hrest)

theorem transition_call {arg : Nat} : Transition m f cs ⟨.call, arg⟩ (m.call f cs arg) := by
  unfold call Frame.popArgs
  by_cases hlen : f.stack.length < arg
  · simp only [if_pos hlen]
    exact transition_halt (by simp) (.refl m f)
  · simp only [if_neg hlen]
    have hcount : (f.stack.take arg).reverse.length = arg := by simp; omega
    have hsplit : f.stack = (f.stack.take arg).reverse.reverse ++ f.stack.drop arg := by simp
    generalize (f.stack.take arg).reverse = args at hcount hsplit
    apply transition_withTop (List.drop_subset arg f.stack)
    intro callee rest hdrop
    have hcall : Calls f ⟨.call, arg⟩ callee args rest := by
      refine ⟨by rw [hcount], ?_⟩
      rw [← hdrop]
      exact hsplit
    have hrest : rest ⊆ f.stack := by
      intro v hv
      simp [hcall.stack, hv]
    cases callee with
    | function g => exact transition_enter hcall
    | builtin b =>
      dsimp only
      cases hb : b.call args m.output with
      | mk result output =>
        cases result with
        | ok v => exact .asks hcall hb
        | error e =>
          have hother : ∀ n, e ≠ .callDepthExceeded n := by
            intro n
            rcases Builtin.call_error hb with rfl | rfl <;> simp
          exact .fails hother (.of_subset hrest) (.inr ⟨b, args, by rw [hb]⟩)
    | _ => exact transition_halt (by simp) (.of_subset hrest)

theorem transition_execute (m : Machine) (f : Frame) (cs : List Frame) (i : Instruction) :
    Transition m f cs i (m.execute f cs i) := by
  obtain ⟨op, arg⟩ := i
  have hplain {v : Value} (h : v.IsPlain) : m.Moves f (f.push v) :=
    (Moves.refl m f).push (.of_isPlain h)
  cases op with
  | loadNumber | loadText =>
    simp only [execute, loadConstant]
    split
    · next v hv =>
      obtain ⟨u, -, rfl⟩ := Option.map_eq_some_iff.mp hv
      exact .moves (by simp) (hplain (by simp [Value.IsPlain]))
    · exact transition_halt (by simp) (.refl m f)
  | loadBoolean => exact .moves (by simp) (hplain (by simp [Value.IsPlain]))
  | loadFunction =>
    simp only [execute]
    split
    · next c hc => exact .makes rfl hc
    · exact transition_halt (by simp) (.refl m f)
  | loadVar =>
    simp only [execute, loadVar]
    cases hv : m.store.slot? f.scope arg with
    | some v =>
      have hfound : m.Finds f v := .inr (.inr ⟨arg, hv⟩)
      exact .moves (by simp) ((Moves.refl m f).push hfound)
    | none =>
      cases f.code.names[arg]? with
      | none => exact transition_halt (by simp) (.refl m f)
      | some x =>
        dsimp only
        cases Builtin.ofName? x with
        | some b => exact .moves (by simp) (hplain (by simp [Value.IsPlain]))
        | none => exact transition_halt (by simp) (.refl m f)
  | assign =>
    apply transition_withTop (List.Subset.refl f.stack)
    intro v rest hstack
    have hrest : rest ⊆ f.stack := by simp [hstack]
    dsimp only
    cases hset : m.store.set? f.scope arg v with
    | some store => exact .assigns rfl hstack hset
    | none => exact transition_halt (by simp) (.of_subset hrest)
  | discard =>
    apply transition_withTop (List.Subset.refl f.stack)
    intro v rest hstack
    exact .moves (by simp) (.of_subset (by simp [hstack]))
  | jumpIfFalse =>
    apply transition_withTop (List.Subset.refl f.stack)
    intro v rest hstack
    have hrest : m.Moves f { f with stack := rest } := .of_subset (by simp [hstack])
    apply Transition.moves (by simp)
    split
    · exact hrest
    · exact hrest.jump arg
  | jump => exact .moves (by simp) ((Moves.refl m f).jump arg)
  | binary op =>
    apply transition_withTop (List.Subset.refl f.stack)
    intro right rest hstack
    have hsub : rest ⊆ f.stack := by simp [hstack]
    apply transition_withTop hsub
    intro left rest' hrest
    have hsub' : rest' ⊆ f.stack := fun v hv => hsub (by simp [hrest, hv])
    cases hv : op.apply left right with
    | ok v =>
      have hmoved : m.Moves f { f with stack := rest' } := .of_subset hsub'
      exact .moves (by simp) (hmoved.push (.of_isPlain (BinaryOp.apply_isPlain hv)))
    | error e =>
      have hother : ∀ n, e ≠ .callDepthExceeded n := by
        obtain ⟨t, rfl⟩ := BinaryOp.apply_error hv
        simp
      exact transition_halt hother (.of_subset hsub')
  | call => exact transition_call
  | ret =>
    simp only [execute]
    split
    · exact transition_leave rfl (.of_isPlain (by simp [Value.IsPlain]))
    · apply transition_withTop (List.Subset.refl f.stack)
      intro v rest hstack
      exact transition_leave rfl (.of_mem (by simp [hstack]))

theorem transition_step (hfr : m.frames = f :: cs) (hi : f.code.code[f.pc]? = some i) :
    Transition m { f with pc := f.pc + 1 } cs i m.step := by
  rw [step_of_frames hfr hi]
  exact transition_execute m _ cs i

/-- A step carries out an instruction, unless there is none. -/
theorem step_cases (m : Machine) :
    (∃ status, m.step = (status, m) ∧ status ≠ .running ∧
      ∀ n, status ≠ .failed (.callDepthExceeded n)) ∨
    ∃ f cs i, m.frames = f :: cs ∧ f.code.code[f.pc]? = some i ∧
      Transition m { f with pc := f.pc + 1 } cs i m.step := by
  cases hfr : m.frames with
  | nil => exact .inl ⟨.done .undefined, by simp only [step, hfr], by simp, by simp⟩
  | cons f cs =>
    cases hi : f.code.code[f.pc]? with
    | none =>
      exact .inl ⟨.failed (.invalidCode (.pcOutOfRange f.pc f.code.name)),
        by simp only [step, hfr, hi], by simp, by simp⟩
    | some i => exact .inr ⟨f, cs, i, rfl, hi, transition_step hfr hi⟩

/-- Only a return ends a run. -/
theorem execute_done {m₁ : Machine} (h : m.execute f cs i = (.done v, m₁)) :
    i.op = .ret ∧ cs = [] ∧ m₁ = { m with frames := [] } := by
  have ht := transition_execute m f cs i
  rw [h] at ht
  cases ht with
  | ends op _ outermost => exact ⟨op, outermost, rfl⟩

end Frames
end Scriptlet.Machine
