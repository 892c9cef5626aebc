import Mathlib
import Scriptlet.Value.Builtin
import Scriptlet.Value.Operator

/-! What operators and builtins can give: no functions, and no faults of code. -/
namespace Scriptlet

/-- Not a function that a script made. -/
def Value.IsPlain (v : Value) : Prop := ∀ f, v ≠ .function f

theorem Value.numeric_isPlain {f : Number → Number → Value} (hf : ∀ x y, (f x y).IsPlain)
    {v w u : Value} (h : Value.numeric f v w = .ok u) : u.IsPlain := by
  unfold Value.numeric Value.toNumber at h
  cases hv : v.toNumber? with
  | none => simp [hv, bind, Except.bind] at h
  | some x =>
    cases hw : w.toNumber? with
    | none => simp [hv, hw, bind, Except.bind] at h
    | some y =>
      have : f x y = u := by simpa [hv, hw, bind, Except.bind, pure, Except.pure] using h
      exact this ▸ hf x y

theorem Value.add_isPlain {v w u : Value} (h : v.add w = .ok u) : u.IsPlain := by
  unfold Value.add at h
  split at h
  · cases h; simp [Value.IsPlain]
  · cases h; simp [Value.IsPlain]
  · exact Value.numeric_isPlain (by simp [Value.IsPlain]) h

/-- No operator gives a function. -/
theorem BinaryOp.apply_isPlain {op : BinaryOp} {v w u : Value} (h : op.apply v w = .ok u) :
    u.IsPlain := by
  cases op with
  | add => exact Value.add_isPlain h
  | eq => cases h; simp [Value.IsPlain]
  | ne => cases h; simp [Value.IsPlain]
  | _ => exact Value.numeric_isPlain (by simp [Value.IsPlain]) h

/-- No builtin gives a function. -/
theorem Builtin.call_isPlain {b : Builtin} {args : List Value} {out out' : Output} {u : Value}
    (h : b.call args out = (.ok u, out')) : u.IsPlain := by
  cases b with
  | print =>
    simp only [Builtin.call] at h
    split at h <;> cases h
    simp [Value.IsPlain]
  | typeof => cases h; simp [Value.IsPlain]
  | assert =>
    simp only [Builtin.call] at h
    split at h <;> cases h
    simp [Value.IsPlain]

/-- Operators fail on operands that are not numbers, and in no other way. -/
theorem Value.numeric_error {f : Number → Number → Value} {v w : Value} {e : RuntimeError}
    (h : Value.numeric f v w = .error e) : ∃ t, e = .notANumber t := by
  unfold Value.numeric Value.toNumber at h
  cases hv : v.toNumber? with
  | none => exact ⟨v.typeName, by simpa [hv, bind, Except.bind] using h.symm⟩
  | some x =>
    cases hw : w.toNumber? with
    | none => exact ⟨w.typeName, by simpa [hv, hw, bind, Except.bind] using h.symm⟩
    | some y => simp [hv, hw, bind, Except.bind, pure, Except.pure] at h

theorem BinaryOp.apply_error {op : BinaryOp} {v w : Value} {e : RuntimeError}
    (h : op.apply v w = .error e) : ∃ t, e = .notANumber t := by
  cases op with
  | add =>
    simp only [BinaryOp.apply, Value.add] at h
    split at h
    · cases h
    · cases h
    · exact Value.numeric_error h
  | eq => cases h
  | ne => cases h
  | _ => exact Value.numeric_error h

theorem Builtin.call_error {b : Builtin} {args : List Value} {out out' : Output} {e : RuntimeError}
    (h : b.call args out = (.error e, out')) : e = .outputFailed Output.full ∨ e = .assertionFailed := by
  cases b with
  | print =>
    simp only [Builtin.call] at h
    split at h <;> cases h
    exact .inl rfl
  | typeof => cases h
  | assert =>
    simp only [Builtin.call] at h
    split at h <;> cases h
    exact .inr rfl

end Scriptlet
