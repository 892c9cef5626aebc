import Scriptlet.Proofs.Bytecode.Provenance
import Scriptlet.Proofs.Session.Invariants

/-! Everywhere in the machine, code was compiled from a script or a function. -/
namespace Scriptlet

/-- If the value is a function, its code was compiled. -/
def Value.Sourced (v : Value) : Prop := ∀ g, v = .function g → g.code.Compiled

theorem Value.IsPlain.sourced {v : Value} (h : v.IsPlain) : v.Sourced := fun g hg => absurd hg (h g)

/-- All variables have values with compiled code. -/
def Store.Sourced (st : Store) : Prop :=
  ∀ (id : Nat) (sc : Scope) (slot : Nat) (v : Value), st.scopes[id]? = some sc →
    sc.get? slot = some v → v.Sourced

namespace Store.Sourced

variable {st st' : Store} {id slot : Nat} {v : Value}

theorem slot? (h : st.Sourced) (hv : st.slot? id slot = some v) : v.Sourced := by
  obtain ⟨id', sc, i, -, hs, hi⟩ := exists_of_slot? (R := fun _ => True) (by simp) trivial hv
  exact h id' sc i v hs hi

theorem set? (h : st.Sourced) (hv : v.Sourced) (hset : st.set? id slot v = some st') :
    st'.Sourced := by
  intro j sc' i u hj hu
  obtain ⟨old, hold, hadds⟩ := exists_adds_of_set? hset hj
  rcases hadds.values i u hu with rfl | hu'
  · exact hv
  · exact h j old i u hold hu'

theorem push {g : Closure} {args : List Value} (h : st.Sourced) (ha : ∀ v ∈ args, v.Sourced) :
    Store.Sourced ⟨st.scopes.push (.ofCall g args)⟩ := by
  intro j sc i u hj hu
  rw [Array.getElem?_push] at hj
  split at hj
  · cases hj
    rw [Scope.get?_ofCall] at hu
    split at hu
    · cases hu
      rw [List.getD_eq_getElem?_getD]
      cases harg : args[i]? with
      | none => exact Value.IsPlain.sourced (by simp [Value.IsPlain])
      | some v => exact ha v (List.mem_of_getElem? harg)
    · cases hu
  · exact h j sc i u hj hu

theorem adopt (h : st.Sourced) (id : Nat) (names : Array String) :
    (st.modify id (·.adopt names)).Sourced := by
  intro j sc i u hj hu
  simp only [Store.modify, Array.getElem?_modify] at hj
  split at hj
  · obtain ⟨old, hold, rfl⟩ := Option.map_eq_some_iff.mp hj
    obtain ⟨i', hi'⟩ := Scope.exists_get?_of_adopt hu
    exact h j old i' u hold hi'
  · exact h j sc i u hj hu

end Store.Sourced

structure Frame.Sourced (f : Frame) : Prop where
  code : f.code.Compiled
  stack : ∀ v ∈ f.stack, v.Sourced

theorem Frame.Sourced.push {f : Frame} {v : Value} (h : f.Sourced) (hv : v.Sourced) :
    (f.push v).Sourced := ⟨h.code, List.forall_mem_cons.mpr ⟨hv, h.stack⟩⟩

/-- The code of every frame and of every function was compiled. -/
structure Machine.Sourced (m : Machine) : Prop where
  store : m.store.Sourced
  frames : ∀ f ∈ m.frames, f.Sourced

namespace Machine

variable {m : Machine} {f f' : Frame} {cs : List Frame} {i : Instruction} {v callee : Value}
  {args rest : List Value} {r : Status × Machine}

theorem Finds.sourced (h : m.Finds f v) (hst : m.store.Sourced) (hf : f.Sourced) : v.Sourced := by
  rcases h with hplain | hstack | ⟨slot, hslot⟩
  · exact hplain.sourced
  · exact hf.stack v hstack
  · exact hst.slot? hslot

theorem Moves.sourced (h : m.Moves f f') (hst : m.store.Sourced) (hf : f.Sourced) : f'.Sourced :=
  ⟨h.code ▸ hf.code, fun v hv => (h.stack v hv).sourced hst hf⟩

theorem sourced_within (hst : m.store.Sourced) (hf : f.Sourced) (hcs : ∀ g ∈ cs, g.Sourced) :
    (m.within f cs).Sourced := ⟨hst, List.forall_mem_cons.mpr ⟨hf, hcs⟩⟩

theorem Calls.sourced (h : Calls f i callee args rest) (hf : f.Sourced) :
    callee.Sourced ∧ (∀ v ∈ args, v.Sourced) ∧ Frame.Sourced { f with stack := rest } := by
  have hmem (v : Value) (hv : v ∈ args ∨ v = callee ∨ v ∈ rest) : v.Sourced := by
    apply hf.stack
    rw [h.stack]
    simpa using hv
  exact ⟨hmem _ (by simp), fun v hv => hmem v (.inl hv), hf.code, fun v hv => hmem v (.inr (.inr hv))⟩

/-- No instruction brings in code that was not compiled. -/
theorem Transition.sourced (h : Transition m f cs i r) (hst : m.store.Sourced) (hf : f.Sourced)
    (hcs : ∀ g ∈ cs, g.Sourced) : r.2.Sourced := by
  cases h with
  | moves _ frame => exact sourced_within hst (frame.sourced hst hf) hcs
  | makes _ found =>
    have hcode := hf.code.functions _ (List.mem_of_getElem? found)
    refine sourced_within hst (hf.push ?_) hcs
    intro g hg
    cases hg
    exact hcode
  | assigns _ top set =>
    have hall := hf.stack
    rw [top] at hall
    obtain ⟨hv, hrest⟩ := List.forall_mem_cons.mp hall
    exact sourced_within (hst.set? hv set) ⟨hf.code, hrest⟩ hcs
  | @asks b args rest v output call answer =>
    have hplain : v.IsPlain := Builtin.call_isPlain (by rw [answer])
    exact sourced_within hst ((call.sourced hf).2.2.push hplain.sourced) hcs
  | enters call =>
    obtain ⟨hcallee, hargs, hrest⟩ := call.sourced hf
    have hnew : Frame.Sourced (.start _ m.store.scopes.size) :=
      ⟨hcallee _ rfl, by simp [Frame.start]⟩
    exact sourced_within (hst.push hargs) hnew (List.forall_mem_cons.mpr ⟨hrest, hcs⟩)
  | returns _ value waiting =>
    subst waiting
    obtain ⟨hcaller, hcallers⟩ := List.forall_mem_cons.mp hcs
    exact sourced_within hst (hcaller.push (value.sourced hst hf)) hcallers
  | ends => exact ⟨hst, by simp⟩
  | refuses call => exact sourced_within hst (call.sourced hf).2.2 hcs
  | fails _ frame => exact sourced_within hst (frame.sourced hst hf) hcs

theorem Sourced.step (h : m.Sourced) : m.step.2.Sourced := by
  obtain ⟨status, hs, -⟩ | ⟨f, cs, i, hfr, -, ht⟩ := m.step_cases
  · rwa [hs]
  · have hframes := h.frames
    rw [hfr] at hframes
    obtain ⟨hf, hcs⟩ := List.forall_mem_cons.mp hframes
    exact ht.sourced h.store ⟨hf.code, hf.stack⟩ hcs

theorem sourced_invariant : Invariant Sourced Sourced where
  print _ _ h := ⟨h.store, h.frames⟩
  load m p code h hc := by
    refine ⟨h.store.adopt globalScope code.names, ?_⟩
    intro f hf
    rw [List.mem_singleton.mp hf]
    exact ⟨⟨p.body, .script hc⟩, by simp [Frame.start]⟩
  step m m' h hs := by
    have hstep := h.step
    rwa [hs] at hstep
  pause _ h := h
  stop _ h := h.step
  discard _ h := ⟨h.store, by simp [Machine.discard]⟩

theorem sourced_start (depth : Nat) (output : Output) : (start depth output).Sourced := by
  refine ⟨?_, by simp [start]⟩
  intro id sc slot v hs hv
  obtain ⟨hid, rfl⟩ := Array.getElem?_eq_some_iff.mp hs
  obtain rfl : id = 0 := by simpa [start] using hid
  simp [start, Scope.ofNames, Scope.get?] at hv

theorem Reachable.sourced (h : m.Reachable) : m.Sourced :=
  sourced_invariant.reachable sourced_start h

end Machine
end Scriptlet
