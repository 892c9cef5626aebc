import Scriptlet.Proofs.Bytecode.Relocation
import Scriptlet.Proofs.Machine.Validity

/-! Two machines in step. In the second one the script runs from another place of other code, and
the global scope has further names, which have no values. -/
namespace Scriptlet

open Machine (globalScope)

/-- The scope with further names, which have no values. -/
def Scope.widen (extra : List String) (sc : Scope) : Scope :=
  { sc with
    names := sc.names ++ extra.toArray
    vars := sc.vars ++ Array.replicate extra.length none }

section Widen
variable {sc : Scope} {extra : List String} {slot : Nat} {x : String} {v : Value}

theorem Scope.named?_widen (hs : sc.vars.size = sc.names.size) :
    (sc.widen extra).named? x = sc.named? x := by
  have hn : (sc.names ++ extra.toArray).toList = sc.names.toList ++ extra := by simp
  exact Scope.named?_extend hs hn extra.length

theorem Scope.get?_widen (h : slot < sc.vars.size) : (sc.widen extra).get? slot = sc.get? slot := by
  simp [Scope.widen, Scope.get?, Array.getElem?_append, h]

theorem Scope.set_widen (h : slot < sc.vars.size) :
    { sc.widen extra with vars := (sc.widen extra).vars.setIfInBounds slot (some v) } =
      Scope.widen extra { sc with vars := sc.vars.setIfInBounds slot (some v) } := by
  simp [Scope.widen, Array.setIfInBounds_append_left h]

theorem Scope.slots_widen (hs : sc.vars.size = sc.names.size) :
    (sc.widen extra).slots = sc.slots ++ extra.map fun x => (x, none) := by
  have hlen : sc.names.toList.length = sc.vars.toList.length := by simpa using hs.symm
  have hnone : extra.zip (List.replicate extra.length none) =
      extra.map fun x => (x, (none : Option Value)) := by
    induction extra with
    | nil => rfl
    | cons x extra ih => simp [List.replicate_succ, ih]
  simp [Scope.widen, Scope.slots, List.zip_append hlen, hnone]

end Widen

/-- `st'` is `st` with further names in the global scope. -/
structure Store.Widened (extra : List String) (st st' : Store) : Prop where
  size : st'.scopes.size = st.scopes.size
  others : ∀ id, id ≠ globalScope → st'.scopes[id]? = st.scopes[id]?
  global : ∃ sc, st.scopes[globalScope]? = some sc ∧ sc.vars.size = sc.names.size ∧
    st'.scopes[globalScope]? = some (sc.widen extra)

namespace Store.Widened

variable {extra : List String} {st st' : Store} {id slot : Nat} {x : String}

/-- Nobody finds a value under the further names. -/
theorem named? (h : st.Widened extra st') : st'.named? x id = st.named? x id := by
  induction id using Nat.strong_induction_on with
  | _ id ih =>
    rw [Store.named?, Store.named?]
    by_cases hid : id = globalScope
    · subst hid
      obtain ⟨sc, hs, hsized, hs'⟩ := h.global
      simp only [hs, hs', Scope.named?_widen hsized]
      cases sc.named? x with
      | some v => rfl
      | none => cases hp : sc.parent <;> simp [Scope.widen, hp, globalScope]
    · rw [h.others id hid]
      cases st.scopes[id]? with
      | none => rfl
      | some sc =>
        cases hx : sc.named? x with
        | some v => simp [hx]
        | none =>
          cases hp : sc.parent with
          | none => simp [hx, hp]
          | some p =>
            simp only [hx, hp]
            split
            · next hlt => exact ih p hlt
            · rfl

theorem slot? (h : st.Widened extra st')
    (hslot : ∀ sc, id = globalScope → st.scopes[id]? = some sc → slot < sc.names.size) :
    st'.slot? id slot = st.slot? id slot := by
  unfold Store.slot?
  by_cases hid : id = globalScope
  · subst hid
    obtain ⟨sc, hs, hsized, hs'⟩ := h.global
    have hlt := hslot sc rfl hs
    have hn : (sc.widen extra).names[slot]? = sc.names[slot]? := by
      simp [Scope.widen, Array.getElem?_append, hlt]
    simp only [hs, hs', Option.bind_eq_bind, Option.bind_some, Scope.get?_widen (hsized ▸ hlt), hn]
    simp only [Scope.widen, h.named?]
  · simp only [h.others id hid, h.named?]

theorem set? (h : st.Widened extra st')
    (hslot : ∀ sc, id = globalScope → st.scopes[id]? = some sc → slot < sc.names.size) (v : Value) :
    Option.Rel (Store.Widened extra) (st.set? id slot v) (st'.set? id slot v) := by
  obtain ⟨g, hs, hsized, hs'⟩ := h.global
  by_cases hid : id = globalScope
  · subst hid
    have hlt : slot < g.vars.size := hsized ▸ hslot g rfl hs
    have hlt' : slot < (g.widen extra).vars.size := by
      simp only [Scope.widen, Array.size_append]
      omega
    rw [Store.set?_eq hs hlt, Store.set?_eq hs' hlt', Scope.set_widen hlt]
    refine .some ⟨by simp [h.size], fun id hid => ?_,
      { g with vars := g.vars.setIfInBounds slot (some v) }, ?_, by simpa using hsized, ?_⟩
    · simp [Ne.symm hid, h.others id hid]
    · simp [lt_size_of_getElem? hs]
    · simp [lt_size_of_getElem? hs']
  · simp only [Store.set?, h.others id hid]
    cases st.scopes[id]? with
    | none => exact .none
    | some sc =>
      simp only [Option.bind_eq_bind, Option.bind_some]
      cases sc.set? slot v with
      | none => exact .none
      | some sc' =>
        refine .some ⟨by simp [h.size], fun j hj => ?_, g, ?_, hsized, ?_⟩
        · simp only [Array.getElem?_setIfInBounds, h.size, h.others j hj]
        · simpa [Array.getElem?_setIfInBounds, hid] using hs
        · simpa [Array.getElem?_setIfInBounds, hid] using hs'

theorem push (h : st.Widened extra st') (sc : Scope) :
    Store.Widened extra ⟨st.scopes.push sc⟩ ⟨st'.scopes.push sc⟩ := by
  obtain ⟨g, hs, hsized, hs'⟩ := h.global
  have hlt := lt_size_of_getElem? hs
  have hlt' := lt_size_of_getElem? hs'
  refine ⟨by simp [h.size], fun id hid => ?_, g, ?_, hsized, ?_⟩
  · simp only [Array.getElem?_push, h.size, h.others id hid]
  · rw [Array.getElem?_push_lt hlt, ← hs, Array.getElem?_eq_getElem hlt]
  · rw [Array.getElem?_push_lt hlt', ← hs', Array.getElem?_eq_getElem hlt']

end Store.Widened

namespace Machine

/-- The machines differ in their frames and in the names of the global scope, and in nothing else. -/
structure Twin (extra : List String) (m m' : Machine) : Prop where
  store : m.store.Widened extra m'.store
  closures : m'.closures = m.closures
  depth : m'.maxCallDepth = m.maxCallDepth
  output : m'.output = m.output

/-- The same calls, made by the script at `pc` in `c` and at `k + pc` in `c'`. -/
inductive Frames (k : Nat) (c c' : Code) : List Frame → List Frame → Prop
  | base (pc : Nat) (stack : List Value) :
      Frames k c c' [⟨c, pc, stack, globalScope⟩] [⟨c', k + pc, stack, globalScope⟩]
  | above {f : Frame} {cs cs' : List Frame} (inner : f.scope ≠ globalScope)
      (rest : Frames k c c' cs cs') : Frames k c c' (f :: cs) (f :: cs')

/-- Both steps go the same way. If they fail, they do so at the given places. -/
def Alike (k : Nat) (c c' : Code) (extra : List String) (place place' : String) :
    Status × Machine → Status × Machine → Prop
  | (.running, m), (.running, m') => m.Twin extra m' ∧ Frames k c c' m.frames m'.frames
  | (.done v, m), (.done v', m') => v' = v ∧ m.Twin extra m'
  | (.failed e, m), (.failed e', m') =>
    e' = e ∧ m.Twin extra m' ∧ m.location = place ∧ m'.location = place'
  | _, _ => False

section Execute
variable {k j pc s : Nat} {c c' d d' : Code} {extra : List String} {m m' : Machine}
  {st : List Value} {cs cs' : List Frame}

theorem resume_alike {place place' : String} {q : Nat} {st' : List Value}
    (hf : ∀ pc st, Frames k c c' (⟨d, pc, st, s⟩ :: cs) (⟨d', j + pc, st, s⟩ :: cs'))
    (ht : m.Twin extra m') :
    Alike k c c' extra place place' (m.resume ⟨d, q, st', s⟩ cs) (m'.resume ⟨d', j + q, st', s⟩ cs') :=
  ⟨{ ht with }, hf q st'⟩

theorem halt_alike (e : RuntimeError) (ht : m.Twin extra m') :
    Alike k c c' extra (d.location pc) (d'.location (j + pc))
      (m.halt ⟨d, pc + 1, st, s⟩ cs e) (m'.halt ⟨d', j + (pc + 1), st, s⟩ cs' e) :=
  ⟨rfl, { ht with }, rfl, rfl⟩

theorem withTop_alike {next next' : Value → Frame → Status × Machine} (ht : m.Twin extra m')
    (h : ∀ v st, Alike k c c' extra (d.location pc) (d'.location (j + pc))
      (next v ⟨d, pc + 1, st, s⟩) (next' v ⟨d', j + (pc + 1), st, s⟩)) :
    Alike k c c' extra (d.location pc) (d'.location (j + pc))
      (m.withTop ⟨d, pc + 1, st, s⟩ cs next) (m'.withTop ⟨d', j + (pc + 1), st, s⟩ cs' next') := by
  cases st with
  | nil => exact halt_alike _ ht
  | cons v st => exact h v st

theorem leave_alike {place place' : String} (v : Value) (ht : m.Twin extra m')
    (hcs : cs = [] ∧ cs' = [] ∨ Frames k c c' cs cs') :
    Alike k c c' extra place place' (m.leave cs v) (m'.leave cs' v) := by
  rcases hcs with ⟨rfl, rfl⟩ | hcs
  · exact ⟨rfl, { ht with }⟩
  · cases hcs with
    | base pc stack => exact ⟨{ ht with }, .base pc (v :: stack)⟩
    | above inner rest => exact ⟨{ ht with }, .above inner rest⟩

theorem Frames.length_eq (h : Frames k c c' cs cs') : cs'.length = cs.length := by
  induction h with
  | base => rfl
  | above _ _ ih => simp [ih]

theorem Twin.size_ne (h : m.Twin extra m') : m.store.scopes.size ≠ globalScope := by
  obtain ⟨sc, hs, -⟩ := h.store.global
  exact Nat.ne_of_gt (lt_size_of_getElem? hs)

theorem enter_alike (g : Closure) (args : List Value)
    (hf : ∀ pc st, Frames k c c' (⟨d, pc, st, s⟩ :: cs) (⟨d', j + pc, st, s⟩ :: cs'))
    (ht : m.Twin extra m') :
    Alike k c c' extra (d.location pc) (d'.location (j + pc))
      (m.enter ⟨d, pc + 1, st, s⟩ cs g args) (m'.enter ⟨d', j + (pc + 1), st, s⟩ cs' g args) := by
  have hlen : cs'.length = cs.length := by simpa using (hf pc st).length_eq
  simp only [enter, hlen, ht.depth]
  split
  · exact halt_alike _ ht
  · split
    · exact halt_alike _ ht
    · refine ⟨{ ht with store := ht.store.push _, depth := rfl }, ?_⟩
      simp only [Store.push, ht.store.size]
      exact .above ht.size_ne (hf (pc + 1) st)

theorem call_alike (n : Nat)
    (hf : ∀ pc st, Frames k c c' (⟨d, pc, st, s⟩ :: cs) (⟨d', j + pc, st, s⟩ :: cs'))
    (ht : m.Twin extra m') :
    Alike k c c' extra (d.location pc) (d'.location (j + pc))
      (m.call ⟨d, pc + 1, st, s⟩ cs n) (m'.call ⟨d', j + (pc + 1), st, s⟩ cs' n) := by
  by_cases h : st.length < n
  · simp only [call, Frame.popArgs, if_pos h]
    exact halt_alike _ ht
  · simp only [call, Frame.popArgs, if_neg h]
    refine withTop_alike ht fun callee st => ?_
    cases callee with
    | function g => exact enter_alike g _ hf ht
    | builtin b =>
      simp only [ht.output]
      split
      · exact resume_alike hf { ht with output := rfl }
      · exact halt_alike _ { ht with output := rfl }
    | _ => exact halt_alike _ ht

theorem assign_alike {slot : Nat}
    (hf : ∀ pc st, Frames k c c' (⟨d, pc, st, s⟩ :: cs) (⟨d', j + pc, st, s⟩ :: cs'))
    (ht : m.Twin extra m')
    (hslot : ∀ sc, s = globalScope → m.store.scopes[s]? = some sc → slot < sc.names.size) :
    Alike k c c' extra (d.location pc) (d'.location (j + pc))
      (m.assign ⟨d, pc + 1, st, s⟩ cs slot) (m'.assign ⟨d', j + (pc + 1), st, s⟩ cs' slot) := by
  refine withTop_alike ht fun v st => ?_
  have hset := ht.store.set? hslot v
  simp only
  cases hm : m.store.set? s slot v with
  | none =>
    rw [hm] at hset
    cases hm' : m'.store.set? s slot v with
    | none => exact halt_alike _ ht
    | some store' => rw [hm'] at hset; cases hset
  | some store =>
    rw [hm] at hset
    cases hm' : m'.store.set? s slot v with
    | none => rw [hm'] at hset; cases hset
    | some store' =>
      simp only [hm', Option.rel_some_some] at hset
      exact resume_alike hf { ht with store := hset }

/-- An instruction that finds all it needs does the same in both machines. -/
theorem execute_alike {i i' : Instruction}
    (hf : ∀ pc st, Frames k c c' (⟨d, pc, st, s⟩ :: cs) (⟨d', j + pc, st, s⟩ :: cs'))
    (hcs : cs = [] ∧ cs' = [] ∨ Frames k c c' cs cs') (ht : m.Twin extra m')
    (hi : i.Moved j d d' i') (hr : i.InRange d)
    (hs : ∃ sc, m.store.scopes[s]? = some sc ∧ sc.names = d.names) :
    Alike k c c' extra (d.location pc) (d'.location (j + pc))
      (m.execute ⟨d, pc + 1, st, s⟩ cs i) (m'.execute ⟨d', j + (pc + 1), st, s⟩ cs' i') := by
  obtain ⟨op, arg⟩ := i
  obtain ⟨op', arg'⟩ := i'
  obtain ⟨hop, harg⟩ := hi
  obtain rfl : op' = op := hop
  have hslot (hlt : arg < d.names.size) (sc : Scope) (_ : s = globalScope)
      (hsc : m.store.scopes[s]? = some sc) : arg < sc.names.size := by
    obtain ⟨sc', hsc', hn⟩ := hs
    obtain rfl : sc' = sc := by simpa [hsc] using hsc'.symm
    rw [hn]
    exact hlt
  cases op' with
  | loadNumber =>
    have hpool : d'.numbers[arg']? = d.numbers[arg]? := harg
    simp only [execute, hpool, Array.getElem?_eq_getElem hr]
    exact resume_alike hf ht
  | loadText =>
    have hpool : d'.texts[arg']? = d.texts[arg]? := harg
    simp only [execute, hpool, Array.getElem?_eq_getElem hr]
    exact resume_alike hf ht
  | loadFunction =>
    have hpool : d'.functions[arg']? = d.functions[arg]? := harg
    simp only [execute, hpool, List.getElem?_eq_getElem hr, makeClosure, ht.closures]
    exact resume_alike hf { ht with closures := rfl }
  | loadVar =>
    obtain ⟨rfl, hname⟩ : arg' = arg ∧ d'.names[arg]? = d.names[arg]? := harg
    simp only [execute, loadVar, hname, Array.getElem?_eq_getElem hr, ht.store.slot? (hslot hr)]
    cases m.store.slot? s arg' with
    | some v => exact resume_alike hf ht
    | none =>
      simp only
      cases Builtin.ofName? d.names[arg'] with
      | some b => exact resume_alike hf ht
      | none => exact halt_alike _ ht
  | jump =>
    obtain rfl : arg' = j + arg := harg
    exact resume_alike hf ht
  | jumpIfFalse =>
    obtain rfl : arg' = j + arg := harg
    refine withTop_alike ht fun v st => ?_
    cases v.isTrue with
    | true => exact resume_alike hf ht
    | false => exact resume_alike hf ht
  | loadBoolean =>
    obtain rfl : arg' = arg := harg
    exact resume_alike hf ht
  | discard => exact withTop_alike ht fun v st => resume_alike hf ht
  | assign =>
    obtain rfl : arg' = arg := harg
    exact assign_alike hf ht (hslot hr)
  | binary op =>
    refine withTop_alike ht fun r st => withTop_alike ht fun l st => ?_
    cases op.apply l r with
    | ok v => exact resume_alike hf ht
    | error e => exact halt_alike _ ht
  | call =>
    obtain rfl : arg' = arg := harg
    exact call_alike arg' hf ht
  | ret =>
    obtain rfl : arg' = arg := harg
    simp only [execute]
    split
    · exact leave_alike _ ht hcs
    · exact withTop_alike ht fun v st => leave_alike v ht hcs

end Execute

section Step
variable {k mid n : Nat} {c c' : Code} {extra : List String} {m m' m₁ : Machine}

/-- Valid machines in step stay in step. The script's own frame must stand where the codes agree. -/
theorem Frames.step (hf : Frames k c c' m.frames m'.frames) (hv : m.Valid) (ht : m.Twin extra m')
    (hat : ∀ pc st, m.frames = [⟨c, pc, st, globalScope⟩] → c.MovedAt k c' pc) :
    ∃ place place', Alike k c c' extra place place' m.step m'.step ∧
      (place' = place ∨ ∃ pc st, m.frames = [⟨c, pc, st, globalScope⟩] ∧
        place = c.location pc ∧ place' = c'.location (k + pc)) := by
  obtain ⟨f, cs, hfr, hfv, -⟩ := hv.frames
  obtain ⟨hs, hc, hh⟩ := hfv.height
  generalize hfr' : m'.frames = fs' at hf
  rw [hfr] at hf hat
  cases hf with
  | base pc st =>
    obtain ⟨i, i', hi, hi', hmoved⟩ := hat pc st rfl
    refine ⟨_, _, ?_, .inr ⟨pc, st, hfr, rfl, rfl⟩⟩
    rw [step_of_frames hfr hi, step_of_frames hfr' hi']
    exact execute_alike (fun pc st => .base pc st) (.inl ⟨rfl, rfl⟩) ht hmoved (hc.inRange hi) hfv.scope
  | @above _ _ cs' inner rest =>
    obtain ⟨i, hi, -⟩ := hc.fits hh
    have hself (pc : Nat) (st : List Value) : Frames k c c' (⟨f.code, pc, st, f.scope⟩ :: cs)
        (⟨f.code, 0 + pc, st, f.scope⟩ :: cs') := by
      rw [Nat.zero_add]
      exact .above inner rest
    have h : Alike k c c' extra (f.code.location f.pc) (f.code.location (0 + f.pc))
        (m.execute ⟨f.code, f.pc + 1, f.stack, f.scope⟩ cs i)
        (m'.execute ⟨f.code, 0 + (f.pc + 1), f.stack, f.scope⟩ cs' i) :=
      execute_alike hself (.inr rest) ht (.refl f.code i) (hc.inRange hi) hfv.scope
    rw [Nat.zero_add, Nat.zero_add] at h
    refine ⟨f.code.location f.pc, f.code.location f.pc, ?_, .inl rfl⟩
    rw [step_of_frames hfr hi, step_of_frames hfr' hi]
    exact h

/-- As long as the script has not come to the end of its code, its frame stands before it. -/
theorem lt_of_not_done {pc s : Nat} {st : List Value} (hsize : c.code.size = mid + 1)
    (hret : c.code[mid]? = some ⟨.ret, 0⟩) (hv : m.Valid) (hfr : m.frames = [⟨c, pc, st, s⟩])
    (hstep : ∀ v m₁, m.step ≠ (.done v, m₁)) : pc < mid := by
  have hlt : pc < c.code.size := (hv.innermost hfr).pc_lt
  have hne : pc ≠ mid := by
    rintro rfl
    refine hstep .undefined { m with frames := [] } ?_
    rw [step_of_frames hfr hret]
    rfl
  omega

/-- Up to its end, a script runs alike in both machines. -/
theorem Frames.steps (hj : ∀ pc < mid, c.MovedAt k c' pc) (hsize : c.code.size = mid + 1)
    (hret : c.code[mid]? = some ⟨.ret, 0⟩) (hs : Steps n m m₁) (hv : m.Valid)
    (ht : m.Twin extra m') (hf : Frames k c c' m.frames m'.frames) :
    ∃ m₁', Steps n m' m₁' ∧ m₁.Twin extra m₁' ∧ Frames k c c' m₁.frames m₁'.frames := by
  induction hs generalizing m' with
  | refl m => exact ⟨m', .refl m', ht, hf⟩
  | @head n m m₁ _ first _ ih =>
    obtain ⟨place, place', halike, -⟩ := hf.step hv ht fun pc st hfr =>
      hj pc (lt_of_not_done hsize hret hv hfr (by simp [first]))
    have hv₁ := hv.step
    rw [first] at halike hv₁
    cases hstep : m'.step with
    | mk status m₁' =>
      rw [hstep] at halike
      cases status with
      | running =>
        obtain ⟨m₂', hs', h⟩ := ih hv₁ halike.1 halike.2
        exact ⟨m₂', .head hstep hs', h⟩
      | done v => exact halike.elim
      | failed e => exact halike.elim

/-- If a script fails before its end, it fails alike in both machines. -/
theorem Frames.step_failed {e : RuntimeError} (hj : ∀ pc < mid, c.MovedAt k c' pc)
    (hsize : c.code.size = mid + 1) (hret : c.code[mid]? = some ⟨.ret, 0⟩)
    (hplace : ∀ pc < mid, c'.location (k + pc) = c.location pc) (hv : m.Valid)
    (ht : m.Twin extra m') (hf : Frames k c c' m.frames m'.frames)
    (hstep : m.step = (.failed e, m₁)) :
    ∃ m₁', m'.step = (.failed e, m₁') ∧ m₁.Twin extra m₁' ∧ m₁'.location = m₁.location := by
  have hlt (pc : Nat) (st : List Value) (hfr : m.frames = [⟨c, pc, st, globalScope⟩]) : pc < mid :=
    lt_of_not_done hsize hret hv hfr (by simp [hstep])
  obtain ⟨place, place', halike, hsame⟩ := hf.step hv ht fun pc st hfr => hj pc (hlt pc st hfr)
  have hplaces : place' = place := by
    rcases hsame with h | ⟨pc, st, hfr, rfl, rfl⟩
    · exact h
    · exact hplace pc (hlt pc st hfr)
  rw [hstep] at halike
  cases hstep' : m'.step with
  | mk status m₁' =>
    rw [hstep'] at halike
    cases status with
    | running => exact halike.elim
    | done v => exact halike.elim
    | failed e' =>
      obtain ⟨rfl, ht₁, hl, hl'⟩ := halike
      exact ⟨m₁', rfl, ht₁, by rw [hl, hl', hplaces]⟩

/-- The same end of a run, but for the place of a failure. -/
def SameEnd : Finish → Finish → Prop
  | .returned v, .returned v' => v' = v
  | .failed e _, .failed e' _ => e' = e
  | .unfinished, .unfinished => True
  | _, _ => False

/-- A script whose whole code agrees runs alike in both machines. -/
theorem Frames.run (hj : ∀ pc < c.code.size, c.MovedAt k c' pc) (hv : m.Valid)
    (ht : m.Twin extra m') (hf : Frames k c c' m.frames m'.frames) (fuel : Nat) :
    SameEnd (m.run fuel).1 (m'.run fuel).1 ∧ (m.run fuel).2.Twin extra (m'.run fuel).2 := by
  induction fuel generalizing m m' with
  | zero => exact ⟨trivial, ht⟩
  | succ fuel ih =>
    have hat (pc : Nat) (st : List Value) (hfr : m.frames = [⟨c, pc, st, globalScope⟩]) :
        c.MovedAt k c' pc :=
      hj pc (hv.innermost hfr).pc_lt
    obtain ⟨place, place', halike, -⟩ := hf.step hv ht hat
    have hsafe := hv.step
    simp only [Machine.run]
    cases hm : m.step with
    | mk status m₁ =>
      cases hm' : m'.step with
      | mk status' m₁' =>
        rw [hm] at halike hsafe
        rw [hm'] at halike
        cases status <;> cases status' <;> try exact halike.elim
        · exact ih hsafe halike.1 halike.2
        · exact ⟨halike.1, halike.2⟩
        · exact ⟨halike.1, { halike.2.1 with }⟩

end Step
end Machine

end Scriptlet
