import Scriptlet.Proofs.Session.Provenance

/-! Names are resolved in the scopes that enclose a function where it was made, from the innermost
outward. -/
namespace Scriptlet

open Machine (globalScope)

/-- In the scope itself `x` has the value `v`. -/
def Scope.Assigns (sc : Scope) (x : String) (v : Value) : Prop :=
  ∃ slot : Nat, sc.names[slot]? = some x ∧ sc.get? slot = some v

theorem Scope.assigns_iff {sc : Scope} {x : String} {v : Value} (hn : sc.names.toList.Nodup) :
    sc.Assigns x v ↔ sc.named? x = some v := by
  constructor
  · intro h
    obtain ⟨slot, hx, hv⟩ := h
    rw [named?_of_slot hn hx, hv]
  · intro h
    obtain ⟨slot, hslot, hv⟩ := Option.bind_eq_some_iff.mp h
    exact ⟨slot, getElem?_of_idxOf? hslot, hv⟩

namespace Store

/-- The scopes from `id` outward, each of which encloses the one before it, up to one that nothing
encloses. -/
inductive Chain (st : Store) : Nat → List Nat → Prop
  | outermost {id : Nat} {sc : Scope} (scope : st.scopes[id]? = some sc) (free : sc.parent = none) :
      Chain st id [id]
  | inside {id p : Nat} {sc : Scope} {ids : List Nat} (scope : st.scopes[id]? = some sc)
      (parent : sc.parent = some p) (outward : Chain st p ids) : Chain st id (id :: ids)

/-- The value of `x` in the first of the scopes that assigns it, if there is one. -/
inductive Resolves (st : Store) (x : String) : List Nat → Option Value → Prop
  | nowhere : Resolves st x [] none
  | here {id : Nat} {ids : List Nat} {sc : Scope} {v : Value} (scope : st.scopes[id]? = some sc)
      (assigned : sc.Assigns x v) : Resolves st x (id :: ids) (some v)
  | further {id : Nat} {ids : List Nat} {sc : Scope} {found : Option Value}
      (scope : st.scopes[id]? = some sc) (unassigned : ∀ v, ¬ sc.Assigns x v)
      (outward : Resolves st x ids found) : Resolves st x (id :: ids) found

/-- No scope has a name twice, and all but the global one are enclosed by an older one. -/
structure Lexical (st : Store) : Prop where
  nodup : ∀ (id : Nat) (sc : Scope), st.scopes[id]? = some sc → sc.names.toList.Nodup
  parent : ∀ (id : Nat) (sc : Scope), st.scopes[id]? = some sc →
    (id = globalScope ∧ sc.parent = none) ∨ ∃ p < id, sc.parent = some p

namespace Lexical

variable {st st' : Store} {id slot : Nat} {sc : Scope} {x : String} {v : Value}

/-- Every scope has its chain, which ends in the global scope. -/
theorem exists_chain (h : st.Lexical) (hid : id < st.scopes.size) :
    ∃ ids, st.Chain id ids ∧ ids.Nodup ∧ ids.getLast? = some globalScope ∧ ∀ j ∈ ids, j ≤ id := by
  induction id using Nat.strong_induction_on with
  | _ id ih =>
    have hsc := Array.getElem?_eq_getElem hid
    rcases h.parent id _ hsc with ⟨rfl, hp⟩ | ⟨p, hlt, hp⟩
    · exact ⟨[globalScope], .outermost hsc hp, by simp, rfl, by simp⟩
    · obtain ⟨ids, hchain, hnodup, hlast, hle⟩ := ih p hlt (by omega)
      have hnew : id ∉ ids := by
        intro hmem
        have := hle id hmem
        omega
      refine ⟨id :: ids, .inside hsc hp hchain, List.nodup_cons.mpr ⟨hnew, hnodup⟩, ?_, ?_⟩
      · rw [List.getLast?_cons, hlast]
        rfl
      · intro j hj
        rcases List.mem_cons.mp hj with rfl | hj
        · exact le_rfl
        · have := hle j hj
          omega

/-- Looking up a name finds what its chain of scopes says. -/
theorem resolves (h : st.Lexical) {ids : List Nat} (hc : st.Chain id ids) (x : String) :
    st.Resolves x ids (st.named? x id) := by
  induction hc with
  | @outermost id sc scope free =>
    rw [named?]
    simp only [scope, free]
    have hiff {v : Value} := Scope.assigns_iff (x := x) (v := v) (h.nodup id sc scope)
    cases hx : sc.named? x with
    | some v => exact .here scope (hiff.mpr hx)
    | none => exact .further scope (by simp [hiff, hx]) .nowhere
  | @inside id p sc ids scope parent outward ih =>
    rw [named?]
    simp only [scope, parent]
    have hiff {v : Value} := Scope.assigns_iff (x := x) (v := v) (h.nodup id sc scope)
    have hlt : p < id := by
      rcases h.parent id sc scope with ⟨-, hp⟩ | ⟨q, hlt, hp⟩
      · simp [parent] at hp
      · rw [parent] at hp
        cases hp
        exact hlt
    cases hx : sc.named? x with
    | some v => exact .here scope (hiff.mpr hx)
    | none =>
      simp only [if_pos hlt]
      exact .further scope (by simp [hiff, hx]) ih

theorem slot?_eq (h : st.Lexical) (hs : st.scopes[id]? = some sc) (hx : sc.names[slot]? = some x) :
    st.slot? id slot = st.named? x id := by
  apply slot?_eq_named? hs (h.nodup id sc hs) _ hx
  intro p hp
  rcases h.parent id sc hs with ⟨-, hnone⟩ | ⟨q, hlt, hq⟩
  · simp [hp] at hnone
  · rw [hp] at hq
    cases hq
    exact hlt

theorem set? (h : st.Lexical) (hset : st.set? id slot v = some st') : st'.Lexical := by
  constructor
  · intro j sc' hj
    obtain ⟨old, hold, hadds⟩ := exists_adds_of_set? hset hj
    rw [hadds.names]
    exact h.nodup j old hold
  · intro j sc' hj
    obtain ⟨old, hold, hadds⟩ := exists_adds_of_set? hset hj
    rw [hadds.parent]
    exact h.parent j old hold

theorem push {g : Closure} (h : st.Lexical) (hg : g.code.Compiled) (hlt : g.scope < st.scopes.size)
    (args : List Value) : Store.Lexical ⟨st.scopes.push (.ofCall g args)⟩ := by
  constructor
  · intro j sc' hj
    rw [Array.getElem?_push] at hj
    split at hj
    · cases hj
      exact hg.nodup
    · exact h.nodup j sc' hj
  · intro j sc' hj
    rw [Array.getElem?_push] at hj
    split at hj
    · next heq =>
      cases hj
      exact .inr ⟨g.scope, heq ▸ hlt, rfl⟩
    · exact h.parent j sc' hj

theorem adopt (h : st.Lexical) (id : Nat) {names : Array String} (hn : names.toList.Nodup) :
    (st.modify id (·.adopt names)).Lexical := by
  constructor
  · intro j sc' hj
    simp only [Store.modify, Array.getElem?_modify] at hj
    split at hj
    · obtain ⟨old, -, rfl⟩ := Option.map_eq_some_iff.mp hj
      rw [Scope.names_adopt]
      exact hn
    · exact h.nodup j sc' hj
  · intro j sc' hj
    simp only [Store.modify, Array.getElem?_modify] at hj
    split at hj
    · obtain ⟨old, hold, rfl⟩ := Option.map_eq_some_iff.mp hj
      rw [Scope.parent_adopt]
      exact h.parent j old hold
    · exact h.parent j sc' hj

end Lexical
end Store

namespace Machine

variable {m : Machine} {f : Frame} {cs : List Frame} {i : Instruction} {r : Status × Machine}

theorem Transition.lexical (h : Transition m f cs i r) (hst : m.store.Lexical) (hf : f.Sourced)
    (hvalid : ∀ v ∈ f.stack, v.Valid m.store.scopes.size) : r.2.store.Lexical := by
  cases h with
  | assigns _ _ set => exact hst.set? set
  | @enters g args rest call =>
    have hmem : Value.function g ∈ f.stack := by simp [call.stack]
    exact hst.push ((call.sourced hf).1 g rfl) (hvalid _ hmem g rfl).2 args
  | _ => exact hst

theorem lexical_step (hv : m.Valid) (hs : m.Sourced) (h : m.store.Lexical) :
    m.step.2.store.Lexical := by
  obtain ⟨status, heq, -⟩ | ⟨f, cs, i, hfr, -, ht⟩ := m.step_cases
  · rwa [heq]
  · have hf := hs.frames f (by simp [hfr])
    exact ht.lexical h ⟨hf.code, hf.stack⟩ (hv.innermost hfr).values

/-- The scopes stay in order, given that the functions that open them are valid and compiled. -/
theorem lexical_invariant :
    Invariant (fun m => m.store.Valid ∧ m.Sourced ∧ m.store.Lexical)
      (fun m => m.Valid ∧ m.Sourced ∧ m.store.Lexical) where
  print m output h := ⟨h.1, sourced_invariant.print m output h.2.1, h.2.2⟩
  load m p code h hc :=
    ⟨valid_load h.1 hc, sourced_invariant.load m p code h.2.1 hc,
      h.2.2.adopt globalScope (Code.Compiled.nodup ⟨p.body, .script hc⟩)⟩
  step m m' h hs := by
    have hlexical := lexical_step h.1 h.2.1 h.2.2
    rw [hs] at hlexical
    exact ⟨valid_invariant.step m m' h.1 hs, sourced_invariant.step m m' h.2.1 hs, hlexical⟩
  pause m h := ⟨h.1.store, h.2⟩
  stop m h := ⟨valid_invariant.stop m h.1, h.2.1.step, lexical_step h.1 h.2.1 h.2.2⟩
  discard m h := ⟨h.1, sourced_invariant.discard m h.2.1, h.2.2⟩

theorem lexical_start (depth : Nat) (output : Output) : (start depth output).store.Lexical := by
  have hscope (id : Nat) (sc : Scope) (hs : (start depth output).store.scopes[id]? = some sc) :
      id = globalScope ∧ sc = .ofNames #[] none := by
    obtain ⟨hid, rfl⟩ := Array.getElem?_eq_some_iff.mp hs
    obtain rfl : id = 0 := by simpa [start] using hid
    exact ⟨rfl, rfl⟩
  constructor
  · intro id sc hs
    rw [(hscope id sc hs).2]
    exact List.nodup_nil
  · intro id sc hs
    obtain ⟨rfl, rfl⟩ := hscope id sc hs
    exact .inl ⟨rfl, rfl⟩

theorem Reachable.lexical (h : m.Reachable) : m.store.Lexical := by
  have hstart (depth : Nat) (output : Output) : (start depth output).store.Valid :=
    (Session.valid_start { maxCallDepth := depth } output).store
  exact (lexical_invariant.reachable (fun depth output =>
    ⟨hstart depth output, sourced_start depth output, lexical_start depth output⟩) h).2.2

/-- Pushes what `x` stands for, where `found` is its value in the scopes: that value, or else the
builtin with this name. -/
def resolved (m : Machine) (f : Frame) (callers : List Frame) (x : String) (found : Option Value) :
    Status × Machine :=
  match found, Builtin.ofName? x with
  | some v, _ => (.running, m.within (f.push v) callers)
  | none, some b => (.running, m.within (f.push (.builtin b)) callers)
  | none, none => (.failed (.undefinedVariable x), m.within f callers)

theorem loadVar_eq {slot : Nat} {x : String} (hx : f.code.names[slot]? = some x)
    (callers : List Frame) :
    m.loadVar f callers slot = m.resolved f callers x (m.store.slot? f.scope slot) := by
  unfold loadVar resolved
  rw [hx]
  cases m.store.slot? f.scope slot with
  | some v => rfl
  | none =>
    dsimp only
    cases Builtin.ofName? x <;> rfl

/-- Names are resolved lexically. Before and after every step, the scopes around each scope form a
chain without repetition that ends in the global scope, no scope has a name twice, and its variables
are the same by slot and by name. A frame that loads a variable gets the value in the first scope of
its chain that assigns the name, or else the builtin with that name, and fails if there is neither. -/
theorem names_are_lexical (hm : m.Reachable) :
    (∀ st, st = m.store ∨ st = m.step.2.store →
      (∀ id < st.scopes.size, ∃ ids, st.Chain id ids ∧ ids.Nodup ∧
        ids.getLast? = some globalScope) ∧
      ∀ (id : Nat) (sc : Scope), st.scopes[id]? = some sc → sc.names.toList.Nodup ∧
        ∀ (slot : Nat) (x : String), sc.names[slot]? = some x → st.slot? id slot = st.named? x id) ∧
    ∀ f ∈ m.frames, ∀ (slot : Nat) (x : String), f.code.names[slot]? = some x →
      ∃ ids found, m.store.Chain f.scope ids ∧ m.store.Resolves x ids found ∧
        ∀ callers, m.execute f callers ⟨.loadVar, slot⟩ = m.resolved f callers x found ∧
          (m.frames = f :: callers → f.code.code[f.pc]? = some ⟨.loadVar, slot⟩ →
            m.step = m.resolved { f with pc := f.pc + 1 } callers x found) := by
  have hv := hm.valid
  have hl := hm.lexical
  constructor
  · intro st hst
    have hst' : st.Lexical := by
      rcases hst with rfl | rfl
      · exact hl
      · exact lexical_step hv hm.sourced hl
    constructor
    · intro id hid
      obtain ⟨ids, hchain, hnodup, hlast, -⟩ := hst'.exists_chain hid
      exact ⟨ids, hchain, hnodup, hlast⟩
    · intro id sc hs
      exact ⟨hst'.nodup id sc hs, fun slot x hx => hst'.slot?_eq hs hx⟩
  · intro f hf slot x hx
    obtain ⟨sc, hsc, hnames, -⟩ := hv.executable.scope f hf
    obtain ⟨ids, hchain, -⟩ := hl.exists_chain (lt_size_of_getElem? hsc)
    have hslot : m.store.slot? f.scope slot = m.store.named? x f.scope :=
      hl.slot?_eq hsc (by rw [hnames, hx])
    refine ⟨ids, _, hchain, hl.resolves hchain x, fun callers => ⟨?_, ?_⟩⟩
    · rw [← hslot]
      exact loadVar_eq hx callers
    · intro hfr hi
      rw [step_of_frames hfr hi, ← hslot]
      exact loadVar_eq (f := { f with pc := f.pc + 1 }) hx callers

/-- A function inside another one uses a variable of the script. -/
def nestedUse : Program :=
  ⟨[.assign "x" (.boolean true),
    .expr (.function "f" []
      [.expr (.function "g" [] [.ret (some (.name "x"))]), .ret (some (.call (.name "g") []))]),
    .ret (some (.call (.name "f") []))]⟩

/-- Three scopes deep, the inner function loads the variable. -/
theorem names_are_lexical_nestedUse :
    ∃ m f callers ids found, (Session.start {} .unlimited).midway? nestedUse 14 = some m ∧
      m.frames = f :: callers ∧ callers.length = 2 ∧
      f.code.code[f.pc]? = some ⟨.loadVar, 0⟩ ∧ f.code.names[0]? = some "x" ∧
      m.store.Chain f.scope ids ∧ m.store.Resolves "x" ids found ∧
      m.step = m.resolved { f with pc := f.pc + 1 } callers "x" found := by
  have hmidway : ((Session.start {} .unlimited).midway? nestedUse 14).any
      (fun m => m.frames.length == 3 && m.frames.head?.any fun f =>
        f.code.code[f.pc]? == some ⟨.loadVar, 0⟩ && f.code.names[0]? == some "x") = true := by
    decide +kernel
  obtain ⟨m, hm, hloads⟩ := (Option.any_eq_true _ _).mp hmidway
  have hreach : m.Reachable := @Session.reachable_midway? {} .unlimited [] _ _ m hm
  simp only [Bool.and_eq_true, beq_iff_eq, Option.any_eq_true] at hloads
  obtain ⟨hlength, f, hhead, hi, hx⟩ := hloads
  obtain ⟨callers, hfr⟩ := List.head?_eq_some_iff.mp hhead
  have hcallers : callers.length = 2 := by simpa [hfr] using hlength
  obtain ⟨ids, found, hchain, hresolves, hload⟩ :=
    (names_are_lexical hreach).2 f (by simp [hfr]) 0 "x" hx
  exact ⟨m, f, callers, ids, found, hm, hfr, hcallers, hi, hx, hchain, hresolves,
    (hload callers).2 hfr hi⟩

end Machine
end Scriptlet
