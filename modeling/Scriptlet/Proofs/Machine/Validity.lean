import Scriptlet.Proofs.Bytecode.Heights
import Scriptlet.Proofs.Machine.Steps
import Scriptlet.Proofs.Value.Results

/-! Machines in which everything fits: they stay so, and never meet a fault of their code. -/
namespace Scriptlet

/-- In a store of `n` scopes: if the value is a function, its code is valid and its scope exists. -/
def Value.Valid (n : Nat) (v : Value) : Prop := ∀ g, v = .function g → g.code.Valid ∧ g.scope < n

section Values
variable {v : Value} {n k : Nat}

theorem Value.IsPlain.valid (h : v.IsPlain) (n : Nat) : v.Valid n := fun g hg => absurd hg (h g)

theorem Value.Valid.mono (h : v.Valid n) (hk : n ≤ k) : v.Valid k :=
  fun g hg => ⟨(h g hg).1, (h g hg).2.trans_le hk⟩

end Values

/-- In a store of `n` scopes, a scope with a place for each name and valid values. -/
structure Scope.Valid (n : Nat) (sc : Scope) : Prop where
  sized : sc.vars.size = sc.names.size
  values : ∀ (slot : Nat) (v : Value), sc.get? slot = some v → v.Valid n

theorem Scope.Valid.mono {n k : Nat} {sc : Scope} (h : sc.Valid n) (hk : n ≤ k) : sc.Valid k :=
  ⟨h.sized, fun slot v hv => (h.values slot v hv).mono hk⟩

/-- All scopes are valid, the global one among them. -/
structure Store.Valid (st : Store) : Prop where
  globals : 0 < st.scopes.size
  scopes : ∀ (id : Nat) (sc : Scope), st.scopes[id]? = some sc → sc.Valid st.scopes.size

namespace Store.Valid

variable {st : Store} {sc : Scope} {id slot : Nat} {x : String} {v : Value}

theorem slot? (h : st.Valid) (hv : st.slot? id slot = some v) : v.Valid st.scopes.size := by
  obtain ⟨id', sc, i, -, hs, hi⟩ := exists_of_slot? (R := fun _ => True) (by simp) trivial hv
  exact (h.scopes id' sc hs).values i v hi

theorem set? {st' : Store} (h : st.Valid) (hset : st.set? id slot v = some st')
    (hv : v.Valid st.scopes.size) : st'.Valid := by
  have hsize : st'.scopes.size = st.scopes.size := by
    obtain ⟨sc, -, -, rfl⟩ := exists_of_set? hset
    simp
  refine ⟨hsize ▸ h.globals, fun j sc' hs' => ?_⟩
  obtain ⟨old, hold, hadds⟩ := exists_adds_of_set? hset hs'
  rw [hsize]
  refine ⟨by rw [hadds.size, hadds.names, (h.scopes j old hold).sized], fun i u hu => ?_⟩
  rcases hadds.values i u hu with rfl | hu'
  · exact hv
  · exact (h.scopes j old hold).values i u hu'

theorem push (h : st.Valid) (hsc : sc.Valid st.scopes.size) :
    Store.Valid ⟨st.scopes.push sc⟩ := by
  refine ⟨by simp, fun j sc' hs' => ?_⟩
  simp only [Array.getElem?_push, Array.size_push] at hs' ⊢
  by_cases hj : j = st.scopes.size
  · simp only [if_pos hj, Option.some.injEq] at hs'
    subst hs'
    exact hsc.mono (Nat.le_succ _)
  · rw [if_neg hj] at hs'
    exact (h.scopes j sc' hs').mono (Nat.le_succ _)

end Store.Valid

theorem Scope.Valid.ofCall {n : Nat} {g : Closure} {args : List Value} (hg : g.code.Valid)
    (ha : ∀ v ∈ args, v.Valid n) : (Scope.ofCall g args).Valid n := by
  obtain ⟨-, params, -⟩ := hg
  refine ⟨Scope.size_ofCall params args, fun slot v hv => ?_⟩
  rw [Scope.get?_ofCall] at hv
  split at hv
  · cases hv
    rw [List.getD_eq_getElem?_getD]
    cases hs : args[slot]? with
    | none => exact Value.IsPlain.valid (by simp [Value.IsPlain]) n
    | some v => exact ha v (List.mem_of_getElem? hs)
  · cases hv

theorem Scope.Valid.adopt {n : Nat} {sc : Scope} (h : sc.Valid n) (names : Array String) :
    (sc.adopt names).Valid n := by
  refine ⟨by rw [Scope.size_adopt h.sized, Scope.names_adopt], fun slot v hv => ?_⟩
  obtain ⟨i, hi⟩ := Scope.exists_get?_of_adopt hv
  exact h.values i v hi

/-- A frame that can go on: at its place the stack has the right height once `pending` more values
are on it, and the frame's scope has the layout of its code. -/
structure Frame.Valid (st : Store) (pending : Nat) (f : Frame) : Prop where
  code : f.code.Valid
  height : ∃ hs, f.code.Checked hs ∧ hs[f.pc]? = some (f.stack.length + pending)
  values : ∀ v ∈ f.stack, v.Valid st.scopes.size
  scope : ∃ sc, st.scopes[f.scope]? = some sc ∧ sc.names = f.code.names

/-- The innermost frame can go on, and its callers each wait for a value. -/
structure Machine.Valid (m : Machine) : Prop where
  store : m.store.Valid
  frames : ∃ f cs, m.frames = f :: cs ∧ f.Valid m.store 0 ∧ ∀ g ∈ cs, g.Valid m.store 1

/-- Nothing is wrong with what a step gives; if it fails, it is not because of the code. -/
def Machine.Safe : Status × Machine → Prop
  | (.running, m) => m.Valid
  | (.done v, m) => m.store.Valid ∧ v.Valid m.store.scopes.size
  | (.failed e, m) => m.store.Valid ∧ ∀ fault, e ≠ .invalidCode fault

namespace Frame.Valid

variable {st st' : Store} {c : Code} {p q s pending k : Nat} {stack stack' : List Value}
  {hs : List Nat}

theorem keeps {f : Frame} (h : f.Valid st k) (hk : st.Keeps st') : f.Valid st' k := by
  obtain ⟨sc, hsc, hn⟩ := h.scope
  obtain ⟨sc', hsc', hn'⟩ := hk f.scope sc hsc
  exact ⟨h.code, h.height, fun v hv => (h.values v hv).mono hk.size_le, sc', hsc', hn'.trans hn⟩

/-- Another place and another stack in the same code. -/
theorem moved (h : Frame.Valid st k ⟨c, p, stack, s⟩) (hc : c.Checked hs)
    (hq : hs[q]? = some (stack'.length + pending)) (hv : ∀ v ∈ stack', v.Valid st.scopes.size) :
    Frame.Valid st pending ⟨c, q, stack', s⟩ := ⟨h.code, ⟨hs, hc, hq⟩, hv, h.scope⟩

theorem pc_lt {f : Frame} (h : f.Valid st k) : f.pc < f.code.code.size := by
  obtain ⟨hs, hc, hh⟩ := h.height
  exact hc.lt_size hh

/-- A return finds the value it hands over and no other. -/
theorem length_stack_of_ret {f : Frame} {arg : Nat} (h : f.Valid st 0)
    (hi : f.code.code[f.pc]? = some ⟨.ret, arg⟩) : f.stack.length = if arg = 0 then 0 else 1 := by
  obtain ⟨hs, hc, hh⟩ := h.height
  obtain ⟨n, hn, hfit⟩ := hc.before hi
  rw [hh] at hn
  cases hn
  exact hfit

end Frame.Valid

theorem Machine.Valid.innermost {m : Machine} {f : Frame} {cs : List Frame} (h : m.Valid)
    (hfr : m.frames = f :: cs) : f.Valid m.store 0 := by
  obtain ⟨g, ds, hfr', hg, -⟩ := h.frames
  obtain ⟨rfl, -⟩ := List.cons.inj (hfr.symm.trans hfr')
  exact hg

theorem Machine.Valid.caller {m : Machine} {f g : Frame} {cs : List Frame} (h : m.Valid)
    (hfr : m.frames = f :: cs) (hg : g ∈ cs) : g.Valid m.store 1 := by
  obtain ⟨f', cs', hfr', -, hcs⟩ := h.frames
  obtain ⟨-, rfl⟩ := List.cons.inj (hfr.symm.trans hfr')
  exact hcs g hg

theorem Machine.Valid.frame {m : Machine} {f : Frame} (h : m.Valid) (hf : f ∈ m.frames) :
    ∃ pending, f.Valid m.store pending := by
  obtain ⟨g, cs, hfr, hg, hcs⟩ := h.frames
  rw [hfr] at hf
  rcases List.mem_cons.mp hf with rfl | hf
  · exact ⟨0, hg⟩
  · exact ⟨1, hcs f hf⟩

namespace Machine

section Step
variable {m : Machine} {c : Code} {p q s k arg : Nat} {v : Value} {st : List Value}
  {cs : List Frame} {hs : List Nat}

theorem valid_within {f : Frame} (hst : m.store.Valid) (hf : f.Valid m.store 0)
    (hcs : ∀ g ∈ cs, g.Valid m.store 1) : (m.within f cs).Valid := ⟨hst, f, cs, rfl, hf, hcs⟩

theorem valid_push (hst : m.store.Valid) (hf : Frame.Valid m.store 0 ⟨c, p, st, s⟩)
    (hcs : ∀ g ∈ cs, g.Valid m.store 1) (hc : c.Checked hs) (hv : v.Valid m.store.scopes.size)
    (hq : hs[q]? = some (st.length + 1)) : (m.within ⟨c, q, v :: st, s⟩ cs).Valid :=
  valid_within hst (hf.moved hc hq (List.forall_mem_cons.mpr ⟨hv, hf.values⟩)) hcs

theorem valid_pop (hst : m.store.Valid) (hf : Frame.Valid m.store 0 ⟨c, p, v :: st, s⟩)
    (hcs : ∀ g ∈ cs, g.Valid m.store 1) (hc : c.Checked hs) (hk : (v :: st).length = k + 1)
    (hq : hs[q]? = some k) : (m.within ⟨c, q, st, s⟩ cs).Valid := by
  obtain rfl : st.length = k := by simpa using hk
  exact valid_within hst (hf.moved hc hq (List.forall_mem_cons.mp hf.values).2) hcs

/-- A caller takes the value it waits for. -/
theorem leave_safe (hst : m.store.Valid) (hcs : ∀ g ∈ cs, g.Valid m.store 1)
    (hv : v.Valid m.store.scopes.size) : Safe (m.leave cs v) := by
  cases cs with
  | nil => exact ⟨hst, hv⟩
  | cons f cs =>
    have hf := hcs f (by simp)
    obtain ⟨hs, hc, hh⟩ := hf.height
    refine valid_within hst ?_ fun g hg => hcs g (by simp [hg])
    exact hf.moved hc hh (List.forall_mem_cons.mpr ⟨hv, hf.values⟩)

/-- A call opens a scope with the layout of the function's code. -/
theorem enter_safe {f : Frame} {g : Closure} {args : List Value} (hst : m.store.Valid)
    (hf : f.Valid m.store 1) (hcs : ∀ g ∈ cs, g.Valid m.store 1) (hg : g.code.Valid)
    (ha : ∀ v ∈ args, v.Valid m.store.scopes.size) : Safe (m.enter f cs g args) := by
  rcases Nat.lt_or_ge cs.length m.maxCallDepth with hd | hd
  · obtain ⟨checked, params, -⟩ := id hg
    rw [enter_of_lt args hd params]
    have hk := Store.Keeps.push m.store (.ofCall g args)
    refine valid_within (hst.push (.ofCall hg ha)) ?_ fun f' hf' => ?_
    · exact ⟨hg, ⟨_, checked, checked.entry⟩, by simp [Frame.start], .ofCall g args,
        by simp [Frame.start], rfl⟩
    · rcases List.mem_cons.mp hf' with rfl | hf'
      · exact hf.keeps hk
      · exact (hcs f' hf').keeps hk
  · rw [enter_of_le args hd]
    exact ⟨hst, by simp⟩

theorem call_safe (hst : m.store.Valid)
    (hf : Frame.Valid m.store 0 ⟨c, p, st, s⟩) (hcs : ∀ g ∈ cs, g.Valid m.store 1)
    (hc : c.Checked hs) (hi : c.code[p]? = some ⟨.call, arg⟩) (hk : st.length = k + 1 + arg)
    (hnext : hs[p + 1]? = some (k + 1)) : Safe (m.within ⟨c, p, st, s⟩ cs).step := by
  have hlt : arg < st.length := by omega
  have hsplit : st = (st.take arg).reverse.reverse ++ st[arg] :: st.drop (arg + 1) := by
    rw [List.reverse_reverse, ← List.drop_eq_getElem_cons hlt, List.take_append_drop]
  have hlen : (st.take arg).reverse.length = arg := by simp; omega
  have hvalues := hf.values
  generalize (st.take arg).reverse = args at hsplit hlen
  generalize st[arg] = callee, st.drop (arg + 1) = rest at hsplit
  subst hsplit hlen
  obtain rfl : k = rest.length := by simp at hk; omega
  simp only [List.mem_append, List.mem_reverse, List.mem_cons] at hvalues
  have hrest : ∀ v ∈ rest, v.Valid m.store.scopes.size := fun v hv => hvalues v (.inr (.inr hv))
  rw [step_call hi]
  cases callee with
  | function g =>
    exact enter_safe hst (hf.moved hc hnext hrest) hcs (hvalues _ (.inr (.inl rfl)) g rfl).1
      fun v hv => hvalues v (.inl hv)
  | builtin b =>
    simp only
    cases hb : b.call args m.output with
    | mk r output =>
      cases r with
      | ok v =>
        have hv := (Builtin.call_isPlain hb).valid m.store.scopes.size
        exact valid_within hst (hf.moved hc hnext (List.forall_mem_cons.mpr ⟨hv, hrest⟩)) hcs
      | error e =>
        refine ⟨hst, fun fault => ?_⟩
        rcases Builtin.call_error hb with rfl | rfl <;> simp
  | _ => exact ⟨hst, by simp⟩

theorem assign_safe (hst : m.store.Valid) (hf : Frame.Valid m.store 0 ⟨c, p, st, s⟩)
    (hcs : ∀ g ∈ cs, g.Valid m.store 1) (hc : c.Checked hs) (hi : c.code[p]? = some ⟨.assign, arg⟩)
    (hlt : arg < c.names.size) (hk : st.length = k + 1) (hnext : hs[p + 1]? = some k) :
    Safe (m.within ⟨c, p, st, s⟩ cs).step := by
  obtain ⟨v, rest, rfl⟩ := List.exists_cons_of_length_eq_add_one hk
  obtain rfl : rest.length = k := by simpa using hk
  obtain ⟨sc, hsc, hnames⟩ := hf.scope
  have hslot : arg < sc.vars.size := by
    rw [(hst.scopes s sc hsc).sized, hnames]
    exact hlt
  have hset := Store.set?_eq hsc hslot v
  rw [step_assign hi hset]
  have hkeep := Store.Keeps.of_set? hset
  have hf' : Frame.Valid m.store 0 ⟨c, p + 1, rest, s⟩ :=
    hf.moved hc hnext (List.forall_mem_cons.mp hf.values).2
  exact valid_within (hst.set? hset (hf.values v (by simp))) (hf'.keeps hkeep)
    fun g hg => (hcs g hg).keeps hkeep

theorem binary_safe {op : BinaryOp} (hst : m.store.Valid)
    (hf : Frame.Valid m.store 0 ⟨c, p, st, s⟩) (hcs : ∀ g ∈ cs, g.Valid m.store 1)
    (hc : c.Checked hs) (hi : c.code[p]? = some ⟨.binary op, arg⟩) (hk : st.length = k + 2)
    (hnext : hs[p + 1]? = some (k + 1)) : Safe (m.within ⟨c, p, st, s⟩ cs).step := by
  obtain ⟨r, _, rfl⟩ := List.exists_cons_of_length_eq_add_one hk
  obtain ⟨l, rest, rfl⟩ := List.exists_cons_of_length_eq_add_one (Nat.succ.inj hk)
  obtain rfl : rest.length = k := by simpa using hk
  rw [step_binary hi]
  cases ho : op.apply l r with
  | ok v =>
    have hv := (BinaryOp.apply_isPlain ho).valid m.store.scopes.size
    refine valid_within hst (hf.moved hc hnext (List.forall_mem_cons.mpr ⟨hv, fun u hu => ?_⟩)) hcs
    exact hf.values u (by simp [hu])
  | error e =>
    obtain ⟨t, rfl⟩ := BinaryOp.apply_error ho
    exact ⟨hst, by simp⟩

/-- Valid machines stay valid, whatever the instruction. -/
theorem step_within_safe (hst : m.store.Valid) (hf : Frame.Valid m.store 0 ⟨c, p, st, s⟩)
    (hcs : ∀ g ∈ cs, g.Valid m.store 1) : Safe (m.within ⟨c, p, st, s⟩ cs).step := by
  obtain ⟨hs, hc, hh⟩ := hf.height
  obtain ⟨⟨op, arg⟩, hi, hfit⟩ := hc.fits hh
  have hplain {v : Value} (h : v.IsPlain) : v.Valid m.store.scopes.size := h.valid _
  cases op with
  | loadNumber =>
    obtain ⟨hlt, hn⟩ := hfit
    rw [step_loadNumber hi (Array.getElem?_eq_getElem hlt)]
    exact valid_push hst hf hcs hc (hplain (by simp [Value.IsPlain])) hn
  | loadText =>
    obtain ⟨hlt, hn⟩ := hfit
    rw [step_loadText hi (Array.getElem?_eq_getElem hlt)]
    exact valid_push hst hf hcs hc (hplain (by simp [Value.IsPlain])) hn
  | loadBoolean =>
    rw [step_loadBoolean hi]
    exact valid_push hst hf hcs hc (hplain (by simp [Value.IsPlain])) hfit
  | loadFunction =>
    obtain ⟨hlt, hn⟩ := hfit
    have hg := List.getElem?_eq_getElem hlt
    rw [step_loadFunction hi hg]
    obtain ⟨sc, hsc, -⟩ := hf.scope
    have hv : Value.Valid m.store.scopes.size (.function ⟨m.closures, c.functions[arg], s⟩) := by
      rintro g ⟨⟩
      obtain ⟨-, -, inner⟩ := hf.code
      exact ⟨inner hi hg, lt_size_of_getElem? hsc⟩
    exact valid_push (m := { m with closures := m.closures + 1 }) hst hf hcs hc hv hn
  | loadVar =>
    obtain ⟨hlt, hn⟩ := hfit
    rw [step_loadVar hi]
    simp only [loadVar, Array.getElem?_eq_getElem hlt]
    cases hv : m.store.slot? s arg with
    | some v => exact valid_push hst hf hcs hc (hst.slot? hv) hn
    | none =>
      simp only
      cases Builtin.ofName? c.names[arg] with
      | some b => exact valid_push hst hf hcs hc (hplain (by simp [Value.IsPlain])) hn
      | none => exact ⟨hst, by simp⟩
  | assign =>
    obtain ⟨hlt, k, hk, hn⟩ := hfit
    exact assign_safe hst hf hcs hc hi hlt hk hn
  | discard =>
    obtain ⟨k, hk, hn⟩ := hfit
    obtain ⟨v, rest, rfl⟩ := List.exists_cons_of_length_eq_add_one hk
    rw [step_discard hi]
    exact valid_pop hst hf hcs hc hk hn
  | jumpIfFalse =>
    obtain ⟨k, hk, hn, ht⟩ := hfit
    obtain ⟨v, rest, rfl⟩ := List.exists_cons_of_length_eq_add_one hk
    rw [step_jumpIfFalse hi]
    cases v.isTrue with
    | true => exact valid_pop hst hf hcs hc hk hn
    | false => exact valid_pop hst hf hcs hc hk ht
  | jump =>
    rw [step_jump hi]
    exact valid_within hst (hf.moved hc hfit hf.values) hcs
  | binary op =>
    obtain ⟨k, hk, hn⟩ := hfit
    exact binary_safe hst hf hcs hc hi hk hn
  | call =>
    obtain ⟨k, hk, hn⟩ := hfit
    exact call_safe hst hf hcs hc hi hk hn
  | ret =>
    by_cases ha : arg = 0
    · subst ha
      rw [step_ret hi]
      exact leave_safe hst hcs (hplain (by simp [Value.IsPlain]))
    · have hk : st.length = 1 := hfit.trans (if_neg ha)
      obtain ⟨v, rest, rfl⟩ := List.exists_cons_of_length_eq_add_one hk
      rw [step_ret_value hi ha]
      exact leave_safe hst hcs (hf.values v (by simp))

end Step

section Run
variable {m m' : Machine} {n : Nat}

theorem Valid.step (h : m.Valid) : Safe m.step := by
  obtain ⟨f, cs, hfr, hf, hcs⟩ := h.frames
  have hm : m = m.within f cs := by rw [within, ← hfr]
  rw [hm]
  exact step_within_safe h.store hf hcs

theorem Valid.steps (h : m.Valid) (hs : Steps n m m') : m'.Valid := by
  induction hs with
  | refl => exact h
  | head first _ ih =>
    refine ih ?_
    have hsafe := h.step
    rwa [first] at hsafe

/-- A run leaves the store valid, however it ends, and never ends with a fault of the code. -/
theorem Valid.run (h : m.Valid) (fuel : Nat) :
    (m.run fuel).2.store.Valid ∧
      ∀ fault location, (m.run fuel).1 ≠ .failed (.invalidCode fault) location := by
  induction fuel generalizing m with
  | zero => exact ⟨h.store, by simp [Machine.run]⟩
  | succ fuel ih =>
    have hsafe := h.step
    simp only [Machine.run]
    cases hs : m.step with
    | mk status m' =>
      rw [hs] at hsafe
      cases status with
      | running => exact ih hsafe
      | done v => exact ⟨hsafe.1, by simp⟩
      | failed e =>
        refine ⟨hsafe.1, fun fault location hf => ?_⟩
        exact hsafe.2 fault (Finish.failed.inj hf).1

end Run
end Machine

end Scriptlet
