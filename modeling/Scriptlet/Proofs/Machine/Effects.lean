import Scriptlet.Proofs.Machine.Transitions

/-! What one step may do to the scopes and to the frames. -/
namespace Scriptlet

namespace Store

/-- From `st` to `st'` no scope has changed but the one at `id`. -/
structure SameBut (id : Nat) (st st' : Store) : Prop where
  size : st'.scopes.size = st.scopes.size
  others : ∀ other, other ≠ id → st'.scopes[other]? = st.scopes[other]?

theorem SameBut.refl (id : Nat) (st : Store) : SameBut id st st := ⟨rfl, fun _ _ => rfl⟩

theorem SameBut.of_set? {st st' : Store} {id slot : Nat} {v : Value}
    (h : st.set? id slot v = some st') : SameBut id st st' := by
  obtain ⟨sc, -, -, rfl⟩ := exists_of_set? h
  refine ⟨by simp, fun other hne => ?_⟩
  have hne' : id ≠ other := Ne.symm hne
  simp [hne']

end Store

namespace Machine

/-- How a step moves on from a frame with scope `s` and the callers `cs`. -/
inductive Move (m : Machine) (s : Nat) (cs : List Frame) : Status × Machine → Prop
  /-- The frame goes on, or has failed. -/
  | stays {status : Status} {m' : Machine} (f : Frame) (unfinished : ∀ v, status ≠ .done v)
      (own : f.scope = s) (frames : m'.frames = f :: cs) (scopes : m.store.SameBut s m'.store) :
      Move m s cs (status, m')
  /-- The frame waits for a call, which has a new scope. -/
  | enters {m' : Machine} (f g : Frame) (sc : Scope) (own : f.scope = s)
      (frames : m'.frames = g :: f :: cs) (fresh : g.scope = m.store.scopes.size)
      (scopes : m'.store.scopes = m.store.scopes.push sc) : Move m s cs (.running, m')
  /-- The frame has handed a value to its caller. -/
  | returns {m' : Machine} (caller : Frame) (callers : List Frame) (v : Value)
      (waiting : cs = caller :: callers) (frames : m'.frames = caller.push v :: callers)
      (store : m'.store = m.store) : Move m s cs (.running, m')
  /-- The script has ended. -/
  | ends {m' : Machine} (v : Value) (outermost : cs = []) (frames : m'.frames = [])
      (store : m'.store = m.store) : Move m s cs (.done v, m')

/-- What a step does to the frames, the scopes and the output. -/
structure Effect (m : Machine) (s : Nat) (cs : List Frame) (r : Status × Machine) : Prop where
  move : Move m s cs r
  capacity : r.2.output.capacity = m.output.capacity

/-- How an instruction may change the scopes: not at all, by a new scope, or, in the frame's own
scope `s`, by assigning the slot that it names. -/
inductive Change (st : Store) (s : Nat) (i : Instruction) : Store → Prop
  | same : Change st s i st
  | opens (sc : Scope) : Change st s i ⟨st.scopes.push sc⟩
  | assigns {v : Value} {st' : Store} (op : i.op = .assign) (set : st.set? s i.arg v = some st') :
      Change st s i st'

theorem Change.keeps {st st' : Store} {s : Nat} {i : Instruction} (h : Change st s i st') :
    st.Keeps st' := by
  cases h with
  | same => exact .refl st
  | opens sc => exact .push st sc
  | assigns _ set => exact .of_set? set

section Output

theorem capacity_write (out : Output) (text : String) :
    (out.write text).2.capacity = out.capacity := by
  unfold Output.write Output.append
  split
  · rfl
  · split <;> rfl

/-- Printing does not change how much can be printed. -/
theorem capacity_call (b : Builtin) (args : List Value) (out : Output) :
    (b.call args out).2.capacity = out.capacity := by
  cases b with
  | print =>
    have hw := capacity_write out (Builtin.printLine args)
    simp only [Builtin.call]
    split
    · next heq => rwa [heq] at hw
    · next heq => rwa [heq] at hw
  | typeof => rfl
  | assert =>
    simp only [Builtin.call]
    split <;> rfl

end Output

section Effects
variable {m : Machine} {f : Frame} {cs : List Frame} {i : Instruction} {r : Status × Machine}

theorem Move.within {m' : Machine} {f' : Frame} {status : Status}
    (unfinished : ∀ v, status ≠ .done v) (own : f'.scope = f.scope)
    (scopes : m.store.SameBut f.scope m'.store) :
    Move m f.scope cs (status, m'.within f' cs) := .stays f' unfinished own rfl scopes

theorem Transition.move (h : Transition m f cs i r) : Move m f.scope cs r := by
  cases h with
  | moves _ frame => exact .within (by simp) frame.scope (.refl _ _)
  | makes => exact .within (by simp) rfl (.refl _ _)
  | assigns _ _ set => exact .within (by simp) rfl (.of_set? set)
  | asks => exact .within (by simp) rfl (.refl _ _)
  | @enters g args rest => exact .enters { f with stack := rest } (.start g.code _) _ rfl rfl rfl rfl
  | returns _ _ waiting => exact .returns _ _ _ waiting rfl rfl
  | @ends v _ _ outermost => exact .ends v outermost rfl rfl
  | refuses => exact .within (by simp) rfl (.refl _ _)
  | fails _ frame => exact .within (by simp) frame.scope (.refl _ _)

theorem Transition.capacity (h : Transition m f cs i r) :
    r.2.output.capacity = m.output.capacity := by
  cases h with
  | @asks b args rest v output call answer =>
    have hcap := capacity_call b args m.output
    rw [answer] at hcap
    exact hcap
  | fails _ _ printed =>
    obtain rfl | ⟨b, args, rfl⟩ := printed
    · rfl
    · exact capacity_call b args m.output
  | _ => rfl

theorem Transition.change (h : Transition m f cs i r) : Change m.store f.scope i r.2.store := by
  cases h with
  | assigns op _ set => exact .assigns op set
  | enters => exact .opens _
  | _ => exact .same

/-- A step changes no scope but that of the innermost frame, and moves on in one of four ways. -/
theorem effect_step (hfr : m.frames = f :: cs) : Effect m f.scope cs m.step := by
  cases hi : f.code.code[f.pc]? with
  | some i =>
    have ht := transition_step hfr hi
    exact ⟨ht.move, ht.capacity⟩
  | none =>
    simp only [step, hfr, hi]
    exact ⟨.stays f (by simp) rfl hfr (.refl f.scope m.store), rfl⟩

theorem change_step (hfr : m.frames = f :: cs) (hi : f.code.code[f.pc]? = some i) :
    Change m.store f.scope i m.step.2.store := (transition_step hfr hi).change

/-- No step changes the names of a scope. -/
theorem step_keeps (m : Machine) : m.store.Keeps m.step.2.store := by
  obtain ⟨status, hs, -⟩ | ⟨f, cs, i, -, -, ht⟩ := m.step_cases
  · rw [hs]
    exact .refl _
  · exact ht.change.keeps

theorem run_keeps (m : Machine) (fuel : Nat) : m.store.Keeps (m.run fuel).2.store := by
  induction fuel generalizing m with
  | zero => exact .refl _
  | succ fuel ih =>
    have hstep := m.step_keeps
    rw [run]
    cases hs : m.step with
    | mk status m' =>
      rw [hs] at hstep
      cases status with
      | running => exact hstep.trans (ih m')
      | done v => exact hstep
      | failed e => exact hstep

theorem capacity_step (m : Machine) : m.step.2.output.capacity = m.output.capacity := by
  cases hfr : m.frames with
  | nil => simp only [step, hfr]
  | cons f cs => exact (effect_step hfr).capacity

theorem capacity_run (m : Machine) (fuel : Nat) :
    (m.run fuel).2.output.capacity = m.output.capacity := by
  induction fuel generalizing m with
  | zero => rfl
  | succ fuel ih =>
    have hstep := m.capacity_step
    rw [run]
    cases hs : m.step with
    | mk status m' =>
      rw [hs] at hstep
      cases status with
      | running => exact (ih m').trans hstep
      | done v => exact hstep
      | failed e => exact hstep

end Effects
end Machine
end Scriptlet
