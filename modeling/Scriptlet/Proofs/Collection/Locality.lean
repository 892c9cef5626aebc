import Scriptlet.Proofs.Collection.Holders
import Scriptlet.Proofs.Machine.Steps
import Scriptlet.Proofs.Value.Results

/-! A step sees nothing but what can be reached: two machines whose scopes agree there go on alike. -/
namespace Scriptlet

open Machine (globalScope)

/-- The value leads to no scope outside `R`. -/
def Value.Within (R : Nat → Prop) (v : Value) : Prop := ∀ g, v = .function g → R g.scope

/-- The frame leads to no scope outside `R`. -/
structure Frame.Within (R : Nat → Prop) (f : Frame) : Prop where
  scope : R f.scope
  stack : ∀ v ∈ f.stack, v.Within R

/-- What is held leads to no scope outside `R`. -/
structure Roots.Within (R : Nat → Prop) (r : Roots) : Prop where
  globals : R globalScope
  frames : ∀ f ∈ r.frames, f.Within R
  values : ∀ v ∈ r.values, v.Within R
  handles : ∀ id ∈ r.handles, R id

/-- No scope in `R` leads out of `R`. -/
structure Store.Closed (R : Nat → Prop) (st : Store) : Prop where
  parent : ∀ (id : Nat) (sc : Scope) (p : Nat), R id → st.scopes[id]? = some sc →
    sc.parent = some p → R p
  values : ∀ (id : Nat) (sc : Scope) (slot : Nat) (v : Value), R id → st.scopes[id]? = some sc →
    sc.get? slot = some v → v.Within R

section Reaching
variable {R R' : Nat → Prop} {st : Store} {r : Roots} {id : Nat} {v : Value}

theorem Value.IsPlain.within (h : v.IsPlain) : v.Within R := fun g hg => absurd hg (h g)

theorem Value.Within.mono (h : v.Within R) (hR : ∀ id, R id → R' id) : v.Within R' :=
  fun g hg => hR _ (h g hg)

theorem Frame.Within.mono {f : Frame} (h : f.Within R) (hR : ∀ id, R id → R' id) : f.Within R' :=
  ⟨hR _ h.scope, fun v hv => (h.stack v hv).mono hR⟩

theorem Frame.Within.push {f : Frame} (h : f.Within R) (hv : v.Within R) : (f.push v).Within R :=
  ⟨h.scope, List.forall_mem_cons.mpr ⟨hv, h.stack⟩⟩

/-- What can be reached is the least set that holds the roots and is closed. -/
theorem Reaches.least (h : Reaches st r id) (hr : r.Within R) (hst : st.Closed R) : R id := by
  induction h with
  | globals => exact hr.globals
  | handle held => exact hr.handles _ held
  | value held => exact hr.values _ held _ rfl
  | frame held => exact (hr.frames _ held).scope
  | operand running held => exact (hr.frames _ running).stack _ held _ rfl
  | enclosing _ found held ih => exact hst.parent _ _ _ ih found held
  | binding _ found held ih => exact hst.values _ _ _ _ ih found held _ rfl

theorem reaches_within (st : Store) (r : Roots) : r.Within (Reaches st r) := by
  constructor
  · exact .globals
  · intro f hf
    exact ⟨.frame hf, fun v hv g hg => .operand hf (hg ▸ hv)⟩
  · intro v hv g hg
    exact .value (hg ▸ hv)
  · intro id hid
    exact .handle hid

theorem reaches_closed (st : Store) (r : Roots) : st.Closed (Reaches st r) := by
  constructor
  · intro id sc p hid hsc hp
    exact .enclosing hid hsc hp
  · intro id sc slot v hid hsc hv g hg
    subst hg
    exact .binding hid hsc hv

end Reaching

/-- The stores have the same scopes in `R`, and equally many scopes. -/
structure Store.Agree (R : Nat → Prop) (st st' : Store) : Prop where
  size : st'.scopes.size = st.scopes.size
  same : ∀ id, R id → st'.scopes[id]? = st.scopes[id]?

/-- The set `R` and the scopes that `st₁` has beyond those of `st`. -/
def orNew (R : Nat → Prop) (st st₁ : Store) (id : Nat) : Prop :=
  R id ∨ st.scopes.size ≤ id ∧ id < st₁.scopes.size

theorem orNew_of_size {R : Nat → Prop} {st st₁ : Store} (h : st₁.scopes.size = st.scopes.size) :
    orNew R st st₁ = R := by
  funext id
  apply propext
  constructor
  · intro hid
    rcases hid with hid | ⟨hle, hlt⟩
    · exact hid
    · omega
  · exact .inl

namespace Store

variable {R : Nat → Prop} {st st' : Store} {id slot : Nat} {x : String} {v : Value} {sc : Scope}

theorem Agree.closed (h : st.Agree R st') (hst : st.Closed R) : st'.Closed R := by
  constructor
  · intro id sc p hid hsc hp
    rw [h.same id hid] at hsc
    exact hst.parent id sc p hid hsc hp
  · intro id sc slot v hid hsc hv
    rw [h.same id hid] at hsc
    exact hst.values id sc slot v hid hsc hv

theorem Agree.symm (h : st.Agree R st') : st'.Agree R st :=
  ⟨h.size.symm, fun id hid => (h.same id hid).symm⟩

theorem Agree.mono {R' : Nat → Prop} (h : st.Agree R st') (hR : ∀ id, R' id → R id) :
    st.Agree R' st' :=
  ⟨h.size, fun id hid => h.same id (hR id hid)⟩

theorem Agree.named? (h : st.Agree R st') (hst : st.Closed R) (hid : R id) :
    st'.named? x id = st.named? x id := by
  induction id using Nat.strong_induction_on with
  | _ id ih =>
    rw [Store.named?, Store.named?, h.same id hid]
    cases hs : st.scopes[id]? with
    | none => rfl
    | some sc =>
      cases hx : sc.named? x with
      | some u => simp only [hx]
      | none =>
        cases hp : sc.parent with
        | none => simp only [hx, hp]
        | some p =>
          simp only [hx, hp]
          by_cases hlt : p < id
          · rw [if_pos hlt, if_pos hlt]
            exact ih p hlt (hst.parent id sc p hid hs hp)
          · rw [if_neg hlt, if_neg hlt]

theorem Agree.slot? (h : st.Agree R st') (hst : st.Closed R) (hid : R id) :
    st'.slot? id slot = st.slot? id slot := by
  unfold Store.slot?
  rw [h.same id hid]
  cases hs : st.scopes[id]? with
  | none => rfl
  | some sc =>
    simp only [Option.bind_eq_bind, Option.bind_some]
    cases sc.get? slot with
    | some u => rfl
    | none =>
      cases sc.names[slot]? with
      | none => rfl
      | some y =>
        cases hp : sc.parent with
        | none => rfl
        | some p => exact h.named? hst (hst.parent id sc p hid hs hp)

theorem Closed.slot? (hst : st.Closed R) (hid : R id) (hv : st.slot? id slot = some v) :
    v.Within R := by
  obtain ⟨id', sc, i, hR, hs, hi⟩ := exists_of_slot? hst.parent hid hv
  exact hst.values id' sc i v hR hs hi

/-- An assignment of a value within `R`. -/
theorem Closed.set? {st₁ : Store} (hst : st.Closed R) (hv : v.Within R)
    (hset : st.set? id slot v = some st₁) : st₁.Closed R := by
  constructor
  · intro j sc' p hj hsc' hp
    obtain ⟨old, hold, hadds⟩ := exists_adds_of_set? hset hsc'
    exact hst.parent j old p hj hold (hadds.parent ▸ hp)
  · intro j sc' i u hj hsc' hu
    obtain ⟨old, hold, hadds⟩ := exists_adds_of_set? hset hsc'
    rcases hadds.values i u hu with rfl | hu'
    · exact hv
    · exact hst.values j old i u hj hold hu'

theorem Agree.set? (h : st.Agree R st') (hst : st.Closed R) (hid : R id) (hv : v.Within R)
    (slot : Nat) :
    (st.set? id slot v = none ∧ st'.set? id slot v = none) ∨
      ∃ st₁ st₁', st.set? id slot v = some st₁ ∧ st'.set? id slot v = some st₁' ∧
        st₁.Agree R st₁' ∧ st₁.Closed R ∧ st₁.scopes.size = st.scopes.size := by
  cases hs : st.scopes[id]? with
  | none =>
    left
    have hs' := (h.same id hid).trans hs
    simp [Store.set?, hs, hs']
  | some sc =>
    have hs' : st'.scopes[id]? = some sc := (h.same id hid).trans hs
    by_cases hslot : slot < sc.vars.size
    · right
      refine ⟨_, _, set?_eq hs hslot v, set?_eq hs' hslot v, ⟨by simp [h.size], fun j hj => ?_⟩,
        hst.set? hv (set?_eq hs hslot v), by simp⟩
      simp only [Array.getElem?_setIfInBounds, h.size, h.same j hj]
    · left
      simp [Store.set?, Scope.set?, hs, hs', hslot]

theorem Agree.push (h : st.Agree R st') (sc : Scope) :
    Agree (orNew R st ⟨st.scopes.push sc⟩) ⟨st.scopes.push sc⟩ ⟨st'.scopes.push sc⟩ := by
  constructor
  · simp [h.size]
  · intro id hid
    simp only [Array.getElem?_push, h.size]
    by_cases heq : id = st.scopes.size
    · rw [if_pos heq, if_pos heq]
    · rw [if_neg heq, if_neg heq]
      rcases hid with hid | ⟨hle, hlt⟩
      · exact h.same id hid
      · simp only [Array.size_push] at hlt
        omega

theorem Closed.push (hst : st.Closed R) (hp : ∀ p, sc.parent = some p → R p)
    (hv : ∀ slot v, sc.get? slot = some v → v.Within R) :
    Closed (orNew R st ⟨st.scopes.push sc⟩) ⟨st.scopes.push sc⟩ := by
  have hold : ∀ (id : Nat) (sc' : Scope), orNew R st ⟨st.scopes.push sc⟩ id →
      st.scopes[id]? = some sc' → R id := by
    intro id sc' hid hsc'
    have hlt := lt_size_of_getElem? hsc'
    rcases hid with hid | ⟨hle, -⟩
    · exact hid
    · omega
  constructor
  · intro id sc' p hid hsc' hp'
    simp only [Array.getElem?_push] at hsc'
    by_cases heq : id = st.scopes.size
    · rw [if_pos heq, Option.some.injEq] at hsc'
      subst hsc'
      exact .inl (hp p hp')
    · rw [if_neg heq] at hsc'
      exact .inl (hst.parent id sc' p (hold id sc' hid hsc') hsc' hp')
  · intro id sc' slot v hid hsc' hv'
    simp only [Array.getElem?_push] at hsc'
    by_cases heq : id = st.scopes.size
    · rw [if_pos heq, Option.some.injEq] at hsc'
      subst hsc'
      exact (hv slot v hv').mono fun _ => .inl
    · rw [if_neg heq] at hsc'
      exact (hst.values id sc' slot v (hold id sc' hid hsc') hsc' hv').mono fun _ => .inl

end Store

/-- The value that is handed out at the end. -/
def Status.values : Status → List Value
  | .done v => [v]
  | _ => []

namespace Machine

/-- Two results of a step in a machine with the scopes `st`. They differ only in scopes that are
neither in `R` nor new, and nothing leads to these. -/
structure Parallel (R : Nat → Prop) (st : Store) (r r' : Status × Machine) : Prop where
  status : r'.1 = r.1
  machine : ∃ st', r'.2 = { r.2 with store := st' } ∧ r.2.store.Agree (orNew R st r.2.store) st'
  roots : Roots.Within (orNew R st r.2.store) ⟨r.2.frames, r.1.values, []⟩
  closed : r.2.store.Closed (orNew R st r.2.store)

/-- The machine's scopes in `R` lead to no others, and `st'` has the same scopes there. -/
structure Confined (R : Nat → Prop) (m : Machine) (st' : Store) : Prop where
  globals : R globalScope
  closed : m.store.Closed R
  agree : m.store.Agree R st'

section Steps
variable {R : Nat → Prop} {m : Machine} {st' : Store} {f : Frame} {cs : List Frame} {v : Value}

/-- Results without a new scope. -/
theorem Confined.parallel {st : Store} (h : m.Confined R st')
    (hsize : m.store.scopes.size = st.scopes.size) (status : Status)
    (hframes : ∀ g ∈ m.frames, g.Within R) (hvalues : ∀ v ∈ status.values, v.Within R) :
    Parallel R st (status, m) (status, { m with store := st' }) := by
  have hR : orNew R st m.store = R := orNew_of_size hsize
  constructor
  · rfl
  · exact ⟨st', rfl, hR.symm ▸ h.agree⟩
  · rw [hR]
    exact ⟨h.globals, hframes, hvalues, by simp⟩
  · rw [hR]
    exact h.closed

theorem resume_parallel {st : Store} (h : m.Confined R st')
    (hsize : m.store.scopes.size = st.scopes.size) (hf : f.Within R) (hcs : ∀ g ∈ cs, g.Within R) :
    Parallel R st (m.resume f cs) ({ m with store := st' }.resume f cs) := by
  have hnext : Confined R { m with frames := f :: cs } st' := ⟨h.globals, h.closed, h.agree⟩
  exact hnext.parallel hsize .running (List.forall_mem_cons.mpr ⟨hf, hcs⟩) (by simp [Status.values])

theorem halt_parallel (h : m.Confined R st') (hf : f.Within R) (hcs : ∀ g ∈ cs, g.Within R)
    (e : RuntimeError) :
    Parallel R m.store (m.halt f cs e) ({ m with store := st' }.halt f cs e) := by
  have hnext : Confined R { m with frames := f :: cs } st' := ⟨h.globals, h.closed, h.agree⟩
  exact hnext.parallel rfl (.failed e) (List.forall_mem_cons.mpr ⟨hf, hcs⟩) (by simp [Status.values])

theorem withTop_parallel {k k' : Value → Frame → Status × Machine} (h : m.Confined R st')
    (hf : f.Within R) (hcs : ∀ g ∈ cs, g.Within R)
    (hk : ∀ v g, v.Within R → g.scope = f.scope → g.Within R →
      Parallel R m.store (k v g) (k' v g)) :
    Parallel R m.store (m.withTop f cs k)
      ({ m with store := st' }.withTop f cs k') := by
  unfold withTop Frame.pop
  cases hs : f.stack with
  | nil => exact halt_parallel h hf hcs _
  | cons v stack =>
    have hstack := hf.stack
    rw [hs] at hstack
    obtain ⟨hv, hrest⟩ := List.forall_mem_cons.mp hstack
    exact hk v _ hv rfl ⟨hf.scope, hrest⟩

theorem leave_parallel (h : m.Confined R st') (hcs : ∀ g ∈ cs, g.Within R) (hv : v.Within R) :
    Parallel R m.store (m.leave cs v) ({ m with store := st' }.leave cs v) := by
  cases cs with
  | nil =>
    have hnext : Confined R { m with frames := [] } st' := ⟨h.globals, h.closed, h.agree⟩
    exact hnext.parallel rfl (.done v) (by simp) (by simpa [Status.values] using hv)
  | cons caller callers =>
    obtain ⟨hcaller, hrest⟩ := List.forall_mem_cons.mp hcs
    exact resume_parallel h rfl (hcaller.push hv) hrest

theorem enter_parallel (h : m.Confined R st') (hf : f.Within R) (hcs : ∀ g ∈ cs, g.Within R)
    {g : Closure} {args : List Value} (hg : R g.scope) (hargs : ∀ v ∈ args, v.Within R) :
    Parallel R m.store (m.enter f cs g args)
      ({ m with store := st' }.enter f cs g args) := by
  by_cases hdepth : m.maxCallDepth < cs.length + 1
  · simp only [enter, if_pos hdepth]
    exact halt_parallel h hf hcs _
  · by_cases hparams : g.code.names.size < g.code.argCount
    · simp only [enter, if_neg hdepth, if_pos hparams]
      exact halt_parallel h hf hcs _
    · have hlt : cs.length < m.maxCallDepth := by omega
      have hle : g.code.argCount ≤ g.code.names.size := by omega
      have hvalues : ∀ slot v, (Scope.ofCall g args).get? slot = some v → v.Within R := by
        intro slot v hv
        rw [Scope.get?_ofCall] at hv
        split at hv
        · cases hv
          rw [List.getD_eq_getElem?_getD]
          cases hs : args[slot]? with
          | none => exact Value.IsPlain.within (by simp [Value.IsPlain])
          | some v => exact hargs v (List.mem_of_getElem? hs)
        · cases hv
      have hparent : ∀ p, (Scope.ofCall g args).parent = some p → R p := by
        intro p hp
        obtain rfl : g.scope = p := Option.some.inj hp
        exact hg
      rw [enter_of_lt args hlt hle, enter_of_lt (m := { m with store := st' }) args hlt hle]
      constructor
      · rfl
      · exact ⟨⟨st'.scopes.push (.ofCall g args)⟩, by simp [within, h.agree.size],
          h.agree.push (.ofCall g args)⟩
      · constructor
        · exact .inl h.globals
        · have hall : ∀ k ∈ f :: cs, k.Within R := List.forall_mem_cons.mpr ⟨hf, hcs⟩
          have hnew : m.store.scopes.size < (m.store.scopes.push (.ofCall g args)).size := by simp
          exact List.forall_mem_cons.mpr ⟨⟨.inr ⟨Nat.le_refl _, hnew⟩, by simp [Frame.start]⟩,
            fun k hk => (hall k hk).mono fun _ => .inl⟩
        · simp [Status.values]
        · simp
      · exact h.closed.push hparent hvalues

theorem call_parallel (h : m.Confined R st') (hf : f.Within R) (hcs : ∀ g ∈ cs, g.Within R)
    (n : Nat) : Parallel R m.store (m.call f cs n)
      ({ m with store := st' }.call f cs n) := by
  unfold call Frame.popArgs
  by_cases hlen : f.stack.length < n
  · simp only [if_pos hlen]
    exact halt_parallel h hf hcs _
  · simp only [if_neg hlen]
    have hargs : ∀ v ∈ (f.stack.take n).reverse, v.Within R := by
      intro v hv
      exact hf.stack v (List.mem_of_mem_take (List.mem_reverse.mp hv))
    have hrest : Frame.Within R { f with stack := f.stack.drop n } :=
      ⟨hf.scope, fun v hv => hf.stack v (List.mem_of_mem_drop hv)⟩
    apply withTop_parallel h hrest hcs
    intro callee g hcallee _ hg
    cases callee with
    | function c => exact enter_parallel h hg hcs (hcallee c rfl) hargs
    | builtin b =>
      dsimp only
      cases hb : b.call (f.stack.take n).reverse m.output with
      | mk result output =>
        have hout : Confined R { m with output } st' := ⟨h.globals, h.closed, h.agree⟩
        cases result with
        | ok v =>
          have hv : v.Within R := (Builtin.call_isPlain hb).within
          exact resume_parallel hout rfl (hg.push hv) hcs
        | error e => exact halt_parallel hout hg hcs e
    | _ => exact halt_parallel h hg hcs _

theorem assign_parallel (h : m.Confined R st') (hf : f.Within R) (hcs : ∀ g ∈ cs, g.Within R)
    (slot : Nat) : Parallel R m.store (m.assign f cs slot)
      ({ m with store := st' }.assign f cs slot) := by
  apply withTop_parallel h hf hcs
  intro v g hv hscope hg
  dsimp only
  rcases h.agree.set? h.closed hg.scope hv slot with
    ⟨hnone, hnone'⟩ | ⟨st₁, st₁', hsome, hsome', hagree, hclosed, hsize⟩
  · rw [hnone, hnone']
    exact halt_parallel h hg hcs _
  · rw [hsome, hsome']
    have hset : Confined R { m with store := st₁ } st₁' := ⟨h.globals, hclosed, hagree⟩
    exact resume_parallel hset hsize hg hcs

theorem execute_parallel (h : m.Confined R st') (hf : f.Within R) (hcs : ∀ g ∈ cs, g.Within R)
    (i : Instruction) : Parallel R m.store (m.execute f cs i)
      ({ m with store := st' }.execute f cs i) := by
  obtain ⟨op, arg⟩ := i
  have hplain {v : Value} (hv : v.IsPlain) : v.Within R := hv.within
  cases op with
  | loadNumber | loadText =>
    simp only [execute, loadConstant]
    split
    · next v hv =>
      obtain ⟨u, -, rfl⟩ := Option.map_eq_some_iff.mp hv
      exact resume_parallel h rfl (hf.push (hplain (by simp [Value.IsPlain]))) hcs
    · exact halt_parallel h hf hcs _
  | loadBoolean => exact resume_parallel h rfl (hf.push (hplain (by simp [Value.IsPlain]))) hcs
  | loadFunction =>
    simp only [execute]
    split
    · next code _ =>
      have hmade : Confined R { m with closures := m.closures + 1 } st' :=
        ⟨h.globals, h.closed, h.agree⟩
      have hv : Value.Within R (.function ⟨m.closures, code, f.scope⟩) := by
        intro g hg
        obtain rfl := Value.function.inj hg
        exact hf.scope
      exact resume_parallel hmade rfl (hf.push hv) hcs
    · exact halt_parallel h hf hcs _
  | loadVar =>
    simp only [execute, loadVar, h.agree.slot? h.closed hf.scope]
    cases hv : m.store.slot? f.scope arg with
    | some v => exact resume_parallel h rfl (hf.push (h.closed.slot? hf.scope hv)) hcs
    | none =>
      cases f.code.names[arg]? with
      | none => exact halt_parallel h hf hcs _
      | some name =>
        dsimp only
        cases Builtin.ofName? name with
        | some b => exact resume_parallel h rfl (hf.push (hplain (by simp [Value.IsPlain]))) hcs
        | none => exact halt_parallel h hf hcs _
  | assign => exact assign_parallel h hf hcs arg
  | discard =>
    apply withTop_parallel h hf hcs
    intro v g _ _ hg
    exact resume_parallel h rfl hg hcs
  | jumpIfFalse =>
    apply withTop_parallel h hf hcs
    intro v g _ _ hg
    apply resume_parallel h rfl _ hcs
    split
    · exact hg
    · exact ⟨hg.scope, hg.stack⟩
  | jump => exact resume_parallel h rfl ⟨hf.scope, hf.stack⟩ hcs
  | binary op =>
    apply withTop_parallel h hf hcs
    intro right g _ _ hg
    apply withTop_parallel h hg hcs
    intro left g _ _ hg
    cases hv : op.apply left right with
    | ok v => exact resume_parallel h rfl (hg.push (hplain (BinaryOp.apply_isPlain hv))) hcs
    | error e => exact halt_parallel h hg hcs e
  | call => exact call_parallel h hf hcs arg
  | ret =>
    simp only [execute]
    by_cases harg : arg = 0
    · simp only [if_pos harg]
      exact leave_parallel h hcs (hplain (by simp [Value.IsPlain]))
    · simp only [if_neg harg]
      apply withTop_parallel h hf hcs
      intro v _ hv _ _
      exact leave_parallel h hcs hv

/-- A step does the same in two machines whose scopes agree where anything leads to. -/
theorem step_parallel (h : m.Confined R st') (hframes : ∀ f ∈ m.frames, f.Within R) :
    Parallel R m.store m.step { m with store := st' }.step := by
  obtain ⟨fs, st, closures, depth, output⟩ := m
  cases fs with
  | nil => exact leave_parallel h hframes (Value.IsPlain.within (by simp [Value.IsPlain]))
  | cons f cs =>
    obtain ⟨hf, hcs⟩ := List.forall_mem_cons.mp hframes
    unfold step
    dsimp only
    cases f.code.code[f.pc]? with
    | some i =>
      have hnext : Frame.Within R { f with pc := f.pc + 1 } := ⟨hf.scope, hf.stack⟩
      exact execute_parallel h hnext hcs i
    | none => exact halt_parallel h hf hcs (.invalidCode (.pcOutOfRange f.pc f.code.name))

end Steps
end Machine
end Scriptlet
