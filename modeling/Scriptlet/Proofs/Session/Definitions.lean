import Scriptlet.Proofs.Session.Provenance

/-! A definition makes two functions. One is bound to the name, the other is the value of the
definition, and a script can tell them apart. -/
namespace Scriptlet

/-- The scope has these names, each once, and a place for the value of each. -/
structure Scope.Has (layout : Array String) (sc : Scope) : Prop where
  names : sc.names = layout
  size : sc.vars.size = layout.size
  nodup : layout.toList.Nodup

/-- An assignment in such a scope succeeds and changes one variable. -/
theorem Store.exists_set? {st : Store} {sc : Scope} {names : Array String} {id slot : Nat}
    {x : String} (h : sc.Has names) (hs : st.scopes[id]? = some sc) (hx : names[slot]? = some x) (v : Value) :
    ∃ st' sc', st.set? id slot v = some st' ∧ st'.scopes[id]? = some sc' ∧ sc'.Has names ∧
      ∀ y, sc'.named? y = if y = x then some v else sc.named? y := by
  have hslot : slot < sc.vars.size := h.size ▸ lt_size_of_getElem? hx
  have hid := lt_size_of_getElem? hs
  refine ⟨_, { sc with vars := sc.vars.setIfInBounds slot (some v) }, set?_eq hs hslot v,
    ?_, ?_, ?_⟩
  · simp [hid]
  · exact ⟨h.names, by simpa using h.size, h.nodup⟩
  · intro y
    exact Scope.named?_set (h.names ▸ h.nodup) (h.names ▸ hx) hslot

namespace Machine

open BinaryOp (eq)

variable {m : Machine} {f : Frame} {callers : List Frame}

theorem within_of_frames (hfr : m.frames = f :: callers) : m.within f callers = m := by
  rw [within, ← hfr]

theorem Reachable.exists_scope (hm : m.Reachable) (hf : f ∈ m.frames) :
    ∃ sc, m.store.scopes[f.scope]? = some sc ∧ sc.Has f.code.names := by
  obtain ⟨sc, hsc, hnames, hsize⟩ := hm.valid.executable.scope f hf
  exact ⟨sc, hsc, hnames, hsize, (hm.sourced.frames f hf).code.nodup⟩

/-- The instructions of a definition make a function, bind it, and make another one. -/
theorem steps_definition {x : String} {params : List String} {body : List Stmt} {q : Nat}
    {sc : Scope} (hfr : m.frames = f :: callers) (hs : m.store.scopes[f.scope]? = some sc)
    (hsc : sc.Has f.code.names) (hp : (Expr.function x params body).Placed f.code f.pc q) :
    ∃ g store sc', Code.ofFunction x params body = .ok g ∧ store.scopes[f.scope]? = some sc' ∧
      sc'.Has f.code.names ∧
      (∀ y, sc'.named? y =
        if y = x then some (.function ⟨m.closures, g, f.scope⟩) else sc.named? y) ∧
      Steps 3 m ({ m with store, closures := m.closures + 2 }.within
        { f with pc := q, stack := .function ⟨m.closures + 1, g, f.scope⟩ :: f.stack } callers) := by
  generalize hpc : f.pc = p at hp
  cases hp with
  | @function _ _ _ g _ i j compiled pool slot load bind reload =>
    subst hpc
    obtain ⟨store, sc', hset, hs', hsc', hnamed⟩ :=
      Store.exists_set? hsc hs slot (.function ⟨m.closures, g, f.scope⟩)
    refine ⟨g, store, sc', compiled, hs', hsc', hnamed, ?_⟩
    rw [← within_of_frames hfr]
    exact .head (step_loadFunction load pool)
      (.head (step_assign bind hset) (.single (step_loadFunction reload pool)))

/-- Functions that were not made by the same instruction are different. -/
theorem eq_apply_function {a b : Closure} (h : a.id ≠ b.id) :
    eq.apply (.function a) (.function b) = .ok (.boolean false) := by
  have hequal : Value.equal (.function a) (.function b) = false := by simpa [Value.equal] using h
  simp [BinaryOp.apply, hequal]

/-- The value of a definition is never the function that the definition binds. Whenever the
instructions of a definition of `x` have run, `x` has a function in the current scope and another one
lies on the stack; both have the code of the definition and remember the same scope, but they are not
equal. So an assignment of the definition to a variable with another name leaves the two variables
with different functions. -/
theorem definitions_yield_another_function (hm : m.Reachable) (hfr : m.frames = f :: callers)
    (x : String) (params : List String) (body : List Stmt) (q : Nat) :
    ((Expr.function x params body).Placed f.code f.pc q →
      ∃ m' sc bound value, Steps 3 m m' ∧
        m'.frames = { f with pc := q, stack := .function value :: f.stack } :: callers ∧
        m'.store.scopes[f.scope]? = some sc ∧ sc.named? x = some (.function bound) ∧
        Code.ofFunction x params body = .ok value.code ∧ bound.code = value.code ∧
        bound.scope = f.scope ∧ value.scope = f.scope ∧
        eq.apply (.function value) (.function bound) = .ok (.boolean false)) ∧
    ∀ y, y ≠ x → (Stmt.assign y (.function x params body)).Placed f.code f.pc q →
      ∃ m' sc bound value, Steps 4 m m' ∧ m'.frames = { f with pc := q } :: callers ∧
        m'.store.scopes[f.scope]? = some sc ∧ sc.named? x = some (.function bound) ∧
        sc.named? y = some (.function value) ∧
        eq.apply (.function value) (.function bound) = .ok (.boolean false) := by
  obtain ⟨sc, hs, hsc⟩ := hm.exists_scope (f := f) (by simp [hfr])
  constructor
  · intro hp
    obtain ⟨g, store, sc', hg, hs', -, hnamed, hsteps⟩ := steps_definition hfr hs hsc hp
    exact ⟨_, sc', ⟨m.closures, g, f.scope⟩, ⟨m.closures + 1, g, f.scope⟩, hsteps, rfl, hs',
      by simp [hnamed], hg, rfl, rfl, rfl, eq_apply_function (by simp)⟩
  · intro y hy hp
    generalize hpc : f.pc = p at hp
    cases hp with
    | @assign _ _ _ q slot value code pool =>
      subst hpc
      obtain ⟨g, store, sc₁, hg, hs₁, hsc₁, hnamed₁, hsteps⟩ := steps_definition hfr hs hsc value
      obtain ⟨store', sc₂, hset, hs₂, -, hnamed₂⟩ := Store.exists_set? hsc₁ hs₁ pool
        (.function ⟨m.closures + 1, g, f.scope⟩)
      exact ⟨_, sc₂, ⟨m.closures, g, f.scope⟩, ⟨m.closures + 1, g, f.scope⟩,
        hsteps.trans (.single (step_assign code hset)), rfl, hs₂,
        by simp [hnamed₂, hnamed₁, Ne.symm hy], by simp [hnamed₂], eq_apply_function (by simp)⟩

/-- A definition assigned to a variable with another name. -/
def renamed : Program :=
  ⟨[.assign "g" (.function "f" [] []), .ret (some (.binary .eq (.name "g") (.name "f")))]⟩

theorem definitions_yield_another_function_renamed :
    ∃ m f m' sc bound value, (Session.start {} .unlimited).midway? renamed 0 = some m ∧
      m.frames = [f] ∧ (Stmt.assign "g" (.function "f" [] [])).Placed f.code f.pc 4 ∧
      Steps 4 m m' ∧ m'.store.scopes[f.scope]? = some sc ∧
      sc.named? "f" = some (.function bound) ∧ sc.named? "g" = some (.function value) ∧
      eq.apply (.function value) (.function bound) = .ok (.boolean false) := by
  have hcompiles : ((Session.start {} .unlimited).compile renamed).isOk = true := by
    decide +kernel
  cases hc : (Session.start {} .unlimited).compile renamed with
  | error e =>
    rw [hc] at hcompiles
    cases hcompiles
  | ok code =>
    have hmidway : (Session.start {} .unlimited).midway? renamed 0 =
        some ((Session.start {} .unlimited).machine.load code) := by
      simp only [Session.midway?, hc, run]
    have hreach := @Session.reachable_midway? {} .unlimited [] _ _ _ hmidway
    obtain ⟨last, hruns⟩ := (Code.Of.script hc).runs
    have hplaced : (Stmt.assign "g" (.function "f" [] [])).Placed code 0 4 := by
      cases hruns.placed with
      | cons assign _ =>
        have hassign := assign
        cases assign with
        | assign value =>
          cases value with
          | function => exact hassign
    obtain ⟨m', sc, bound, value, hsteps, -, hs, hbound, hvalue, heq⟩ :=
      (definitions_yield_another_function hreach rfl "f" [] [] 4).2 "g" (by decide) hplaced
    exact ⟨_, _, m', sc, bound, value, hmidway, rfl, hplaced, hsteps, hs, hbound, hvalue, heq⟩

end Machine

namespace Session

/-- The value of a script, if it is a boolean. -/
def boolean? : Except ScriptError Value → Option Bool
  | .ok (.boolean b) => some b
  | _ => none

/-- A script compares the function that a definition binds with the definition's value. -/
theorem definition_differs_from_binding :
    boolean? ((start {} .unlimited).run 20 "g = function f() {}; return g == f;").1 = some false := by
  decide +kernel

end Session
end Scriptlet
