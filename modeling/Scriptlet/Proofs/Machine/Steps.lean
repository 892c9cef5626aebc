import Scriptlet.Machine.Run
import Scriptlet.Proofs.Machine.Scopes

/-! Runs of the machine, step by step. -/
namespace Scriptlet.Machine

/-- From `m` the machine takes `n` steps to `m'` and has not stopped. -/
inductive Steps : Nat → Machine → Machine → Prop
  | refl (m : Machine) : Steps 0 m m
  | head {n : Nat} {m m₁ m' : Machine} (first : m.step = (.running, m₁)) (rest : Steps n m₁ m') :
      Steps (n + 1) m m'

namespace Steps

variable {n k : Nat} {m m₁ m₂ : Machine}

theorem single (h : m.step = (.running, m₁)) : Steps 1 m m₁ := .head h (.refl m₁)

theorem trans (h : Steps n m m₁) (h' : Steps k m₁ m₂) : Steps (n + k) m m₂ := by
  induction h with
  | refl => simpa using h'
  | head first _ ih => rw [Nat.add_right_comm]; exact .head first (ih h')

/-- A run passes through every smaller number of steps. -/
theorem truncate (h : Steps n m m₁) (hk : k ≤ n) : ∃ m', Steps k m m' := by
  induction h generalizing k with
  | refl m => exact ⟨m, by rw [Nat.le_zero.mp hk]; exact .refl m⟩
  | @head n m _ _ first _ ih =>
    cases k with
    | zero => exact ⟨m, .refl m⟩
    | succ k =>
      obtain ⟨m', h'⟩ := ih (Nat.le_of_succ_le_succ hk)
      exact ⟨m', .head first h'⟩

theorem run_add (h : Steps n m m₁) (k : Nat) : m.run (n + k) = m₁.run k := by
  induction h with
  | refl => rw [Nat.zero_add]
  | head first _ ih => rw [Nat.add_right_comm, run, first]; exact ih

theorem run_unfinished (h : Steps n m m₁) (hk : k ≤ n) : (m.run k).1 = .unfinished := by
  obtain ⟨m', h'⟩ := h.truncate hk
  rw [← Nat.add_zero k, h'.run_add 0]
  rfl

/-- A run that was cut off took all its steps. -/
theorem of_unfinished (h : (m.run n).1 = .unfinished) : Steps n m (m.run n).2 := by
  induction n generalizing m with
  | zero => exact .refl m
  | succ n ih =>
    rw [run] at h ⊢
    cases hs : m.step with
    | mk status m' =>
      simp only [hs] at h ⊢
      cases status with
      | running => exact .head hs (ih h)
      | done v => cases h
      | failed e => cases h

theorem run_done {v : Value} (h : Steps n m m₁) (hs : m₁.step = (.done v, m₂)) :
    m.run (n + 1) = (.returned v, m₂) := by
  rw [h.run_add 1, run, hs]

theorem run_failed {e : RuntimeError} (h : Steps n m m₁) (hs : m₁.step = (.failed e, m₂)) :
    m.run (n + 1) = (.failed e m₂.location, m₂.discard) := by
  rw [h.run_add 1, run, hs]

/-- What comes after the last step of a run does not matter. -/
theorem run_stopped (h : Steps n m m₁) (hs : m₁.step.1 ≠ .running) (hk : n < k) :
    m.run k = m₁.run 1 := by
  obtain ⟨i, rfl⟩ : ∃ i, k = n + (i + 1) := ⟨k - n - 1, by omega⟩
  rw [h.run_add, run, run]
  cases hm : m₁.step with
  | mk status m' =>
    cases status with
    | running => exact absurd (by rw [hm]) hs
    | done v => rfl
    | failed e => rfl

end Steps

section Ends
variable {m m₂ : Machine} {n k : Nat} {v : Value} {e : RuntimeError} {place : String}

/-- A run that ends has a last step. -/
theorem exists_last_step (h : (m.run n).1 ≠ .unfinished) :
    ∃ j < n, ∃ m₁, Steps j m m₁ ∧ m₁.step.1 ≠ .running := by
  induction n generalizing m with
  | zero => exact absurd rfl h
  | succ n ih =>
    cases hs : m.step with
    | mk status m' =>
      rw [run, hs] at h
      cases status with
      | running =>
        obtain ⟨j, hj, m₁, hsteps, hstop⟩ := ih h
        exact ⟨j + 1, by omega, m₁, .head hs hsteps, hstop⟩
      | done v => exact ⟨0, by omega, m, .refl m, by simp [hs]⟩
      | failed e => exact ⟨0, by omega, m, .refl m, by simp [hs]⟩

/-- A run that ended is not changed by more steps. -/
theorem run_of_le (h : (m.run n).1 ≠ .unfinished) (hk : n ≤ k) : m.run k = m.run n := by
  obtain ⟨j, hj, m₁, hsteps, hstop⟩ := exists_last_step h
  rw [hsteps.run_stopped hstop (Nat.lt_of_lt_of_le hj hk), hsteps.run_stopped hstop hj]

theorem run_unique (hn : (m.run n).1 ≠ .unfinished) (hk : (m.run k).1 ≠ .unfinished) :
    m.run n = m.run k := by
  rcases Nat.le_total n k with h | h
  · exact (run_of_le hn h).symm
  · exact run_of_le hk h

theorem exists_steps_of_returned (h : m.run n = (.returned v, m₂)) :
    ∃ j < n, ∃ m₁, Steps j m m₁ ∧ m₁.step = (.done v, m₂) := by
  obtain ⟨j, hj, m₁, hsteps, hstop⟩ := exists_last_step (m := m) (n := n) (by simp [h])
  have hlast := hsteps.run_stopped hstop hj
  rw [h, run] at hlast
  cases hs : m₁.step with
  | mk status m' =>
    rw [hs] at hlast
    cases status with
    | running => exact absurd (by rw [hs]) hstop
    | done u =>
      cases hlast
      exact ⟨j, hj, m₁, hsteps, hs⟩
    | failed e => cases hlast

theorem exists_steps_of_failed (h : m.run n = (.failed e place, m₂)) :
    ∃ j < n, ∃ m₁ m', Steps j m m₁ ∧ m₁.step = (.failed e, m') ∧ m'.location = place ∧
      m'.discard = m₂ := by
  obtain ⟨j, hj, m₁, hsteps, hstop⟩ := exists_last_step (m := m) (n := n) (by simp [h])
  have hlast := hsteps.run_stopped hstop hj
  rw [h, run] at hlast
  cases hs : m₁.step with
  | mk status m' =>
    rw [hs] at hlast
    cases status with
    | running => exact absurd (by rw [hs]) hstop
    | done u => cases hlast
    | failed e =>
      cases hlast
      exact ⟨j, hj, m₁, m', hsteps, hs, rfl, rfl⟩

end Ends

theorem step_of_frames {m : Machine} {f : Frame} {cs : List Frame} {i : Instruction}
    (hfr : m.frames = f :: cs) (hi : f.code.code[f.pc]? = some i) :
    m.step = m.execute { f with pc := f.pc + 1 } cs i := by
  simp only [step, hfr, hi]

/-- The machine with the given frames. -/
def within (m : Machine) (f : Frame) (callers : List Frame) : Machine :=
  { m with frames := f :: callers }

section Instructions
variable {m : Machine} {c : Code} {p s : Nat} {st : List Value} {cs : List Frame}

/-- An instruction does not look at the frames that the machine had before it was fetched. -/
theorem step_within {f : Frame} {i : Instruction} (h : f.code.code[f.pc]? = some i) :
    (m.within f cs).step = m.execute { f with pc := f.pc + 1 } cs i := by
  have hs : (m.within f cs).step = (m.within f cs).execute { f with pc := f.pc + 1 } cs i := by
    simp only [step, within, h]
  rw [hs]
  cases i with
  | mk op arg => cases op <;> rfl

theorem step_loadNumber {i : Nat} {v : Number} (hi : c.code[p]? = some ⟨.loadNumber, i⟩)
    (hv : c.numbers[i]? = some v) :
    (m.within ⟨c, p, st, s⟩ cs).step = (.running, m.within ⟨c, p + 1, .number v :: st, s⟩ cs) := by
  rw [step_within hi]
  simp [execute, loadConstant, hv, resume, Frame.push, within]

theorem step_loadText {i : Nat} {t : String} (hi : c.code[p]? = some ⟨.loadText, i⟩)
    (ht : c.texts[i]? = some t) :
    (m.within ⟨c, p, st, s⟩ cs).step = (.running, m.within ⟨c, p + 1, .text t :: st, s⟩ cs) := by
  rw [step_within hi]
  simp [execute, loadConstant, ht, resume, Frame.push, within]

theorem step_loadBoolean {arg : Nat} (hi : c.code[p]? = some ⟨.loadBoolean, arg⟩) :
    (m.within ⟨c, p, st, s⟩ cs).step =
      (.running, m.within ⟨c, p + 1, .boolean (arg ≠ 0) :: st, s⟩ cs) := by
  rw [step_within hi]
  rfl

theorem step_loadFunction {i : Nat} {g : Code} (hi : c.code[p]? = some ⟨.loadFunction, i⟩)
    (hg : c.functions[i]? = some g) :
    (m.within ⟨c, p, st, s⟩ cs).step = (.running, { m with closures := m.closures + 1 }.within
      ⟨c, p + 1, .function ⟨m.closures, g, s⟩ :: st, s⟩ cs) := by
  rw [step_within hi]
  simp [execute, makeClosure, hg, resume, Frame.push, within]

theorem step_loadVar {slot : Nat} (hi : c.code[p]? = some ⟨.loadVar, slot⟩) :
    (m.within ⟨c, p, st, s⟩ cs).step = m.loadVar ⟨c, p + 1, st, s⟩ cs slot := by
  rw [step_within hi]
  rfl

theorem step_assign {i : Nat} {v : Value} {store : Store} (hi : c.code[p]? = some ⟨.assign, i⟩)
    (hs : m.store.set? s i v = some store) :
    (m.within ⟨c, p, v :: st, s⟩ cs).step =
      (.running, { m with store }.within ⟨c, p + 1, st, s⟩ cs) := by
  rw [step_within hi]
  simp [execute, assign, withTop, Frame.pop, hs, resume, within]

theorem step_discard {v : Value} {arg : Nat} (hi : c.code[p]? = some ⟨.discard, arg⟩) :
    (m.within ⟨c, p, v :: st, s⟩ cs).step = (.running, m.within ⟨c, p + 1, st, s⟩ cs) := by
  rw [step_within hi]
  rfl

theorem step_jump {q : Nat} (hi : c.code[p]? = some ⟨.jump, q⟩) :
    (m.within ⟨c, p, st, s⟩ cs).step = (.running, m.within ⟨c, q, st, s⟩ cs) := by
  rw [step_within hi]
  rfl

theorem step_jumpIfFalse {q : Nat} {v : Value} (hi : c.code[p]? = some ⟨.jumpIfFalse, q⟩) :
    (m.within ⟨c, p, v :: st, s⟩ cs).step =
      (.running, m.within ⟨c, if v.isTrue then p + 1 else q, st, s⟩ cs) := by
  rw [step_within hi]
  cases h : v.isTrue <;> simp [execute, withTop, Frame.pop, h, resume, within]

theorem step_binary {op : BinaryOp} {l r : Value} {arg : Nat}
    (hi : c.code[p]? = some ⟨.binary op, arg⟩) :
    (m.within ⟨c, p, r :: l :: st, s⟩ cs).step =
      match op.apply l r with
      | .ok v => (.running, m.within ⟨c, p + 1, v :: st, s⟩ cs)
      | .error e => (.failed e, m.within ⟨c, p + 1, st, s⟩ cs) := by
  rw [step_within hi]
  rfl

theorem step_ret (hi : c.code[p]? = some ⟨.ret, 0⟩) :
    (m.within ⟨c, p, st, s⟩ cs).step = m.leave cs .undefined := by
  rw [step_within hi]
  rfl

theorem step_ret_value {v : Value} {arg : Nat} (hi : c.code[p]? = some ⟨.ret, arg⟩)
    (ha : arg ≠ 0) : (m.within ⟨c, p, v :: st, s⟩ cs).step = m.leave cs v := by
  rw [step_within hi]
  simp [execute, ha, withTop, Frame.pop]

/-- Arguments lie above the callee, the last one on top. -/
theorem step_call {callee : Value} {args : List Value}
    (hi : c.code[p]? = some ⟨.call, args.length⟩) :
    (m.within ⟨c, p, args.reverse ++ callee :: st, s⟩ cs).step =
      match callee with
      | .builtin b =>
        match b.call args m.output with
        | (.ok v, output) => (.running, { m with output }.within ⟨c, p + 1, v :: st, s⟩ cs)
        | (.error e, output) => (.failed e, { m with output }.within ⟨c, p + 1, st, s⟩ cs)
      | .function g => m.enter ⟨c, p + 1, st, s⟩ cs g args
      | v => (.failed (.notCallable v.typeName), m.within ⟨c, p + 1, st, s⟩ cs) := by
  rw [step_within hi]
  have hp : Frame.popArgs ⟨c, p + 1, args.reverse ++ callee :: st, s⟩ args.length =
      .ok (args, ⟨c, p + 1, callee :: st, s⟩) := by
    simp [Frame.popArgs]
  simp only [execute, call, hp, withTop, Frame.pop]
  cases callee <;> rfl

theorem enter_of_lt {f : Frame} {g : Closure} (args : List Value) (hd : cs.length < m.maxCallDepth)
    (ha : g.code.argCount ≤ g.code.names.size) :
    m.enter f cs g args = (.running, { m with store := ⟨m.store.scopes.push (.ofCall g args)⟩ }.within
      (.start g.code m.store.scopes.size) (f :: cs)) := by
  rw [enter, if_neg (by omega), if_neg (by omega)]
  rfl

theorem enter_of_le {f : Frame} {g : Closure} (args : List Value) (hd : m.maxCallDepth ≤ cs.length) :
    m.enter f cs g args = (.failed (.callDepthExceeded m.maxCallDepth), m.within f cs) := by
  rw [enter, if_pos (by omega)]
  rfl

end Instructions

end Scriptlet.Machine
