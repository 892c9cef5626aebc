import Scriptlet.Proofs.Machine.Effects
import Scriptlet.Proofs.Session.Validity

/-! A call changes nothing that its caller can see. -/
namespace Scriptlet

namespace Store

/-- All scopes of `st` are in `st'`, with the same names, values and parents. -/
def Intact (st st' : Store) : Prop :=
  ∀ (id : Nat) (sc : Scope), st.scopes[id]? = some sc → st'.scopes[id]? = some sc

namespace Intact

variable {st st₁ st₂ : Store}

theorem refl (st : Store) : st.Intact st := fun _ _ h => h

theorem size_le (h : st.Intact st₁) : st.scopes.size ≤ st₁.scopes.size := by
  by_contra hlt
  have hlast := Array.getElem?_eq_getElem (Nat.lt_of_not_le hlt)
  have := lt_size_of_getElem? (h _ _ hlast)
  omega

/-- A change of a newer scope. -/
theorem sameBut (h : st.Intact st₁) {s : Nat} (hs : st.scopes.size ≤ s)
    (hsame : st₁.SameBut s st₂) : st.Intact st₂ := by
  intro id sc hsc
  have hlt : id < st.scopes.size := lt_size_of_getElem? hsc
  have hne : id ≠ s := by omega
  rw [hsame.others id hne]
  exact h id sc hsc

theorem push (h : st.Intact st₁) {sc : Scope} (hpush : st₂.scopes = st₁.scopes.push sc) :
    st.Intact st₂ := by
  intro id sc' hsc
  have hold := h id sc' hsc
  rw [hpush, Array.getElem?_push_lt (lt_size_of_getElem? hold), ← hold, Array.getElem?_eq_getElem]

end Intact
end Store

namespace Machine

/-- The frames `below` wait for a call in progress. Its frames have scopes that are not in `st`, and
the scopes of `st` are as they were. -/
structure Inside (st : Store) (below : List Frame) (m : Machine) : Prop where
  frames : ∃ inner, inner ≠ [] ∧ m.frames = inner ++ below ∧ ∀ f ∈ inner, st.scopes.size ≤ f.scope
  scopes : st.Intact m.store

/-- The caller goes on with one value more, and the scopes of `st` are as they were. -/
structure Back (st : Store) (caller : Frame) (callers : List Frame) (m : Machine) : Prop where
  frames : ∃ v, m.frames = caller.push v :: callers
  scopes : st.Intact m.store

/-- What a step inside a call may lead to: the call goes on or fails, or its caller does. -/
def Contained (st : Store) (caller : Frame) (callers : List Frame) : Status × Machine → Prop
  | (.running, m) => Inside st (caller :: callers) m ∨ Back st caller callers m
  | (.failed _, m) => Inside st (caller :: callers) m
  | (.done _, _) => False

section Steps
variable {st : Store} {caller : Frame} {callers : List Frame} {m m' : Machine} {n : Nat}

theorem Inside.step (h : Inside st (caller :: callers) m) : Contained st caller callers m.step := by
  obtain ⟨⟨inner, hne, hfr, hnew⟩, hst⟩ := h
  obtain ⟨f, rest, rfl⟩ := List.exists_cons_of_ne_nil hne
  have hf : st.scopes.size ≤ f.scope := hnew f (by simp)
  have hrest : ∀ g ∈ rest, st.scopes.size ≤ g.scope := fun g hg => hnew g (by simp [hg])
  have hmove := (effect_step hfr).move
  generalize m.step = r at hmove
  cases hmove with
  | @stays status m' g unfinished own frames scopes =>
    have hin : Inside st (caller :: callers) m' := by
      refine ⟨⟨g :: rest, by simp, frames, ?_⟩, hst.sameBut hf scopes⟩
      exact List.forall_mem_cons.mpr ⟨own ▸ hf, hrest⟩
    cases status with
    | running => exact .inl hin
    | failed e => exact hin
    | done v => exact unfinished v rfl
  | enters g new sc own frames fresh scopes =>
    refine .inl ⟨⟨new :: g :: rest, by simp, frames, ?_⟩, hst.push scopes⟩
    have hsize := hst.size_le
    exact List.forall_mem_cons.mpr ⟨by omega, List.forall_mem_cons.mpr ⟨own ▸ hf, hrest⟩⟩
  | @returns m' g gs v waiting frames store =>
    have hst' : st.Intact m'.store := store ▸ hst
    cases rest with
    | nil =>
      -- the frame was the call's own
      obtain ⟨rfl, rfl⟩ := List.cons.inj waiting
      exact .inr ⟨⟨v, frames⟩, hst'⟩
    | cons g' rest =>
      obtain ⟨rfl, rfl⟩ := List.cons.inj waiting
      refine .inl ⟨⟨g'.push v :: rest, by simp, frames, ?_⟩, hst'⟩
      exact List.forall_mem_cons.mpr ⟨hrest g' (by simp), fun k hk => hrest k (by simp [hk])⟩
  | ends v outermost => simp at outermost

/-- From `m` the machine takes `n` steps to `m'`, and more than `depth` frames are there all along. -/
inductive Above (depth : Nat) : Nat → Machine → Machine → Prop
  | refl {m : Machine} (deep : depth < m.frames.length) : Above depth 0 m m
  | head {n : Nat} {m m₁ m' : Machine} (deep : depth < m.frames.length)
      (first : m.step = (.running, m₁)) (rest : Above depth n m₁ m') : Above depth (n + 1) m m'

theorem Above.start {depth : Nat} (h : Above depth n m m') : depth < m.frames.length := by
  cases h with
  | refl deep => exact deep
  | head deep _ _ => exact deep

theorem Inside.above (h : Inside st (caller :: callers) m)
    (hrun : Above (callers.length + 1) n m m') : Inside st (caller :: callers) m' := by
  induction hrun with
  | refl _ => exact h
  | head _ first rest ih =>
    have hstep := h.step
    rw [first] at hstep
    rcases hstep with hin | hback
    · exact ih hin
    · -- so few frames are left only when the call is over
      obtain ⟨v, hfr⟩ := hback.frames
      have hdeep := rest.start
      simp [hfr] at hdeep

/-- The frame that waits after a call: it is past the instruction, and the function and its arguments
are off the stack. -/
def awaiting (f : Frame) (rest : List Value) : Frame := { f with pc := f.pc + 1, stack := rest }

/-- What the call itself may lead to. If it is refused, it has changed nothing. -/
def Opened (st : Store) (caller : Frame) (callers : List Frame) : Status × Machine → Prop
  | (.running, m) => Inside st (caller :: callers) m
  | (.failed _, m) => m.store = st ∧ m.frames = caller :: callers
  | (.done _, _) => False

theorem enter_opened (m : Machine) (f : Frame) (cs : List Frame) (g : Closure) (args : List Value) :
    Opened m.store f cs (m.enter f cs g args) := by
  simp only [enter]
  split_ifs
  · exact ⟨rfl, rfl⟩
  · exact ⟨rfl, rfl⟩
  · refine ⟨⟨[_], by simp, rfl, ?_⟩, (Store.Intact.refl m.store).push rfl⟩
    simp [Store.push, Frame.start]

theorem step_enter {f : Frame} {g : Closure} {args rest : List Value}
    (hfr : m.frames = f :: callers) (hi : f.code.code[f.pc]? = some ⟨.call, args.length⟩)
    (hstack : f.stack = args.reverse ++ .function g :: rest) :
    m.step = m.enter (awaiting f rest) callers g args := by
  have hm : m = m.within ⟨f.code, f.pc, args.reverse ++ .function g :: rest, f.scope⟩ callers := by
    rw [← hstack, within, ← hfr]
  rw [hm]
  exact step_call hi

theorem step_call_opened {f : Frame} {g : Closure} {args rest : List Value}
    (hfr : m.frames = f :: callers) (hi : f.code.code[f.pc]? = some ⟨.call, args.length⟩)
    (hstack : f.stack = args.reverse ++ .function g :: rest) :
    Opened m.store (awaiting f rest) callers m.step := by
  rw [step_enter hfr hi hstack]
  exact enter_opened m (awaiting f rest) callers g args

/-- Only the outermost frame has the global scope. -/
inductive Rooted : List Frame → Prop
  | base (f : Frame) : Rooted [f]
  | above {f : Frame} {cs : List Frame} (inner : f.scope ≠ globalScope) (rest : Rooted cs) :
      Rooted (f :: cs)

theorem Rooted.replace {f f' : Frame} {cs : List Frame} (h : Rooted (f :: cs))
    (hs : f'.scope = f.scope) : Rooted (f' :: cs) := by
  cases h with
  | base => exact .base f'
  | above inner rest => exact .above (hs ▸ inner) rest

theorem Rooted.steps (h : Rooted m.frames) (hglobals : globalScope < m.store.scopes.size)
    (hs : Steps n m m') : Rooted m'.frames := by
  induction hs with
  | refl => exact h
  | @head n m m₁ m' first _ ih =>
    have hsize : globalScope < m₁.store.scopes.size := by
      have hkeeps := m.step_keeps.size_le
      rw [first] at hkeeps
      exact hglobals.trans_le hkeeps
    refine ih ?_ hsize
    generalize hfr : m.frames = fs at h
    cases fs with
    | nil => cases h
    | cons f cs =>
      have hmove := (effect_step hfr).move
      rw [first] at hmove
      cases hmove with
      | stays g _ own frames _ => exact frames ▸ h.replace own
      | enters g new sc own frames fresh _ =>
        have hnew : new.scope ≠ globalScope := by omega
        exact frames ▸ .above hnew (h.replace own)
      | returns g gs v waiting frames _ =>
        subst waiting
        cases h with
        | above _ rest => exact frames ▸ rest.replace rfl

/-- Inside a function no step changes the global scope. -/
theorem Rooted.globalScope_step (h : Rooted m.frames) (hglobals : globalScope < m.store.scopes.size)
    (hdeep : 1 < m.frames.length) :
    m.step.2.store.scopes[globalScope]? = m.store.scopes[globalScope]? := by
  generalize hfr : m.frames = fs at h hdeep
  cases h with
  | base => simp at hdeep
  | @above f cs inner rest =>
    have hmove := (effect_step hfr).move
    generalize m.step = r at hmove
    cases hmove with
    | stays g _ _ _ scopes => exact scopes.others globalScope (Ne.symm inner)
    | enters g new sc _ _ _ scopes =>
      dsimp only
      rw [scopes, Array.getElem?_push_lt hglobals, Array.getElem?_eq_getElem]
    | returns g gs v _ _ store => exact store ▸ rfl
    | ends v _ _ store => exact store ▸ rfl

theorem Rooted.globals_step (h : Rooted m.frames) (hglobals : globalScope < m.store.scopes.size)
    (hdeep : 1 < m.frames.length) : m.step.2.globals = m.globals := by
  unfold globals
  rw [h.globalScope_step hglobals hdeep]

end Steps

/-- A script of some session has brought the machine here. -/
def Reachable (m : Machine) : Prop :=
  ∃ limits output past p code out n,
    ((Session.start limits output).after past).compile p = .ok code ∧
    Steps n ({ ((Session.start limits output).after past).machine with output := out }.load code) m

theorem Reachable.valid {m : Machine} (h : m.Reachable) : m.Valid := by
  obtain ⟨limits, output, past, p, code, out, n, hc, hsteps⟩ := h
  have hs := (Session.valid_start limits output).after past
  have hload := valid_load
    (m := { ((Session.start limits output).after past).machine with output := out }) hs.store hc
  exact hload.steps hsteps

theorem Reachable.rooted {m : Machine} (h : m.Reachable) : Rooted m.frames := by
  obtain ⟨limits, output, past, p, code, out, n, hc, hsteps⟩ := h
  have hs := (Session.valid_start limits output).after past
  have hload := valid_load
    (m := { ((Session.start limits output).after past).machine with output := out }) hs.store hc
  exact Rooted.steps (.base _) hload.store.globals hsteps

theorem Reachable.step {m m' : Machine} (h : m.Reachable) (hs : m.step = (.running, m')) :
    m'.Reachable := by
  obtain ⟨limits, output, past, p, code, out, n, hc, hsteps⟩ := h
  exact ⟨limits, output, past, p, code, out, n + 1, hc, hsteps.trans (.single hs)⟩

/-- Whatever happens inside a call, up to its return or its failure: all scopes that were there
before and all frames that wait stay as they were, and a return gives the caller one value in place
of the function and its arguments. Among these scopes is the one that the function remembers. Only
code outside functions changes global variables. -/
theorem calls_leave_callers_alone {m : Machine} (hm : m.Reachable) :
    (∀ (f : Frame) (callers : List Frame) (g : Closure) (args rest : List Value),
      m.frames = f :: callers →
      f.code.code[f.pc]? = some ⟨.call, args.length⟩ →
      f.stack = args.reverse ++ .function g :: rest →
      g.scope < m.store.scopes.size ∧
      (∀ e m', m.step = (.failed e, m') →
        m'.store = m.store ∧ m'.frames = awaiting f rest :: callers) ∧
      ∀ m₁ n m₂, m.step = (.running, m₁) → Above (callers.length + 1) n m₁ m₂ →
        Inside m.store (awaiting f rest :: callers) m₂ ∧
        Contained m.store (awaiting f rest) callers m₂.step) ∧
    (1 < m.frames.length → m.step.2.globals = m.globals) := by
  have hv := hm.valid
  refine ⟨fun f callers g args rest hfr hi hstack => ?_, hm.rooted.globals_step hv.store.globals⟩
  have hcall := step_call_opened hfr hi hstack
  refine ⟨?_, fun e m' hfail => ?_, fun m₁ n m₂ hstep habove => ?_⟩
  · have hmem : Value.function g ∈ f.stack := by simp [hstack]
    exact ((hv.innermost hfr).values _ hmem g rfl).2
  · rw [hfail] at hcall
    exact hcall
  · rw [hstep] at hcall
    have hinside := hcall.above habove
    exact ⟨hinside, hinside.step⟩

open Session (failedOnce)

/-- Sees whether so many steps can be taken with more than `depth` frames all along. -/
def remains (depth : Nat) : Nat → Machine → Bool
  | 0, m => depth < m.frames.length
  | n + 1, m =>
    depth < m.frames.length && match m.step with
      | (.running, m') => remains depth n m'
      | _ => false

theorem above_of_remains {depth n : Nat} {m : Machine} (h : remains depth n m = true) :
    Above depth n m (m.run n).2 := by
  induction n generalizing m with
  | zero => exact .refl (by simpa [remains] using h)
  | succ n ih =>
    simp only [remains, Bool.and_eq_true, decide_eq_true_eq] at h
    obtain ⟨hdeep, hrest⟩ := h
    rw [run]
    cases hs : m.step with
    | mk status m' =>
      rw [hs] at hrest
      cases status with
      | running => exact .head hdeep hs (ih hrest)
      | done v => cases hrest
      | failed e => cases hrest

/-- A function assigns a variable that has the name of a global one. -/
def shadowing : Program :=
  ⟨[.assign "x" (.boolean true),
    .expr (.function "f" [] [.assign "x" (.boolean false), .ret (some (.name "x"))]),
    .expr (.call (.name "f") [])]⟩

/-- The machine before the call. -/
def beforeCall : Machine :=
  match failedOnce.compile shadowing with
  | .ok code => ((failedOnce.machine.load code).run 7).2
  | .error _ => failedOnce.machine

theorem reachable_beforeCall : beforeCall.Reachable := by
  have hrun : (failedOnce.compile shadowing).map (fun code =>
      ((failedOnce.machine.load code).run 7).1) = .ok .unfinished := by
    with_unfolding_all rfl
  cases hc : failedOnce.compile shadowing with
  | error e =>
    rw [hc] at hrun
    cases hrun
  | ok code =>
    rw [hc] at hrun
    refine ⟨_, _, _, shadowing, code, failedOnce.machine.output, 7, hc, ?_⟩
    simp only [beforeCall, hc]
    exact .of_unfinished (Except.ok.inj hrun)

theorem calls_leave_callers_alone_shadowing :
    ∃ f g m₁ m₂ m₃, beforeCall.frames = [f] ∧ f.code.code[f.pc]? = some ⟨.call, 0⟩ ∧
      f.stack = [.function g] ∧ beforeCall.step = (.running, m₁) ∧ Above 1 3 m₁ m₂ ∧
      m₂.step = (.running, m₃) ∧ Back beforeCall.store (awaiting f []) [] m₃ ∧
      1 < m₁.frames.length ∧ m₁.step.2.globals = m₁.globals := by
  obtain ⟨f, g, hfr, hi, hstack⟩ : ∃ f g, beforeCall.frames = [f] ∧
      f.code.code[f.pc]? = some ⟨.call, 0⟩ ∧ f.stack = [.function g] := by
    with_unfolding_all exact ⟨_, _, rfl, rfl, rfl⟩
  have hcall : beforeCall.step = (.running, beforeCall.step.2) :=
    Prod.ext (by with_unfolding_all rfl) rfl
  have habove : Above 1 3 beforeCall.step.2 (beforeCall.step.2.run 3).2 :=
    above_of_remains (by decide +kernel)
  obtain ⟨m₃, hlast⟩ : ∃ m₃, (beforeCall.step.2.run 3).2.step = (.running, m₃) := by
    have hone : Above 0 1 (beforeCall.step.2.run 3).2 ((beforeCall.step.2.run 3).2.run 1).2 :=
      above_of_remains (by decide +kernel)
    cases hone with
    | head _ first _ => exact ⟨_, first⟩
  have hlength : m₃.frames.length = 1 := by
    have hframes : (beforeCall.step.2.run 3).2.step.2.frames.length = 1 := by decide +kernel
    rwa [hlast] at hframes
  obtain ⟨-, -, hinside⟩ :=
    (calls_leave_callers_alone reachable_beforeCall).1 f [] g [] [] hfr hi hstack
  have hcontained := (hinside _ 3 _ hcall habove).2
  rw [hlast] at hcontained
  refine ⟨f, g, _, _, _, hfr, hi, hstack, hcall, habove, hlast, ?_, habove.start, ?_⟩
  · rcases hcontained with ⟨⟨inner, hne, hframes, -⟩, -⟩ | hback
    · have := List.length_pos_iff.mpr hne
      simp only [hframes, List.length_append, List.length_singleton] at hlength
      omega
    · exact hback
  · exact (calls_leave_callers_alone (reachable_beforeCall.step hcall)).2 habove.start

end Machine
end Scriptlet
