import Scriptlet.Proofs.Bytecode.Placement
import Scriptlet.Proofs.Machine.Scopes
import Scriptlet.Proofs.Machine.Steps
import Scriptlet.Proofs.Meaning.Evaluator
import Scriptlet.Proofs.Value.Results

/-! How a machine represents the world of direct evaluation: scopes and functions have the same
numbers on both sides, and a function's code is the one that its definition compiles to. -/
namespace Scriptlet

/-- Operators and builtins cannot tell the two values apart. -/
inductive Value.Alike : Value → Value → Prop
  | refl (v : Value) : Alike v v
  | function {f g : Closure} (id : f.id = g.id) (name : f.code.name = g.code.name) :
      Alike (.function f) (.function g)

namespace Value.Alike

variable {v v' w w' : Value}

theorem typeName (h : v.Alike v') : v.typeName = v'.typeName := by
  cases h <;> rfl

theorem isTrue (h : v.Alike v') : v.isTrue = v'.isTrue := by
  cases h <;> rfl

theorem display (h : v.Alike v') : v.display = v'.display := by
  cases h with
  | refl => rfl
  | function id name => simp [Value.display, name]

theorem toNumber? (h : v.Alike v') : v.toNumber? = v'.toNumber? := by
  cases h <;> rfl

theorem equal (h : v.Alike v') (h' : w.Alike w') : v.equal w = v'.equal w' := by
  cases h with
  | refl =>
    cases h' with
    | refl => rfl
    | function id name => cases v <;> simp [Value.equal, Value.toNumber?, id]
  | function id name =>
    cases h' with
    | refl => cases w <;> simp [Value.equal, Value.toNumber?, id]
    | function id' name' => simp [Value.equal, id, id']

theorem numeric (h : v.Alike v') (h' : w.Alike w') (f : Number → Number → Value) :
    Value.numeric f v w = Value.numeric f v' w' := by
  simp [Value.numeric, Value.toNumber, h.toNumber?, h'.toNumber?, h.typeName, h'.typeName]

theorem add (h : v.Alike v') (h' : w.Alike w') : v.add w = v'.add w' := by
  have hn := h.numeric h' fun x y => .number (x + y)
  cases h with
  | refl =>
    cases v with
    | text s => simp [Value.add, h'.display]
    | _ => cases h' with
      | refl => rfl
      | function => simpa [Value.add] using hn
  | function id name =>
    cases h' with
    | refl => cases w <;> simp_all [Value.add, Value.display]
    | function => simpa [Value.add] using hn

theorem apply (h : v.Alike v') (h' : w.Alike w') (op : BinaryOp) : op.apply v w = op.apply v' w' := by
  cases op <;> simp [BinaryOp.apply, h.numeric h', h.equal h', h.add h']

end Value.Alike

theorem Builtin.call_alike {b : Builtin} {vs ws : List Value} (h : List.Forall₂ Value.Alike vs ws)
    (out : Output) : b.call vs out = b.call ws out := by
  have hd : vs.map Value.display = ws.map Value.display := by
    induction h with
    | nil => rfl
    | cons h _ ih => simp [h.display, ih]
  have hh : (vs.headD .undefined).Alike (ws.headD .undefined) := by
    cases h with
    | nil => exact .refl _
    | cons h _ => exact h
  cases b <;> simp only [Builtin.call, Builtin.printLine, hd, hh.typeName, hh.isTrue]

/-- From `m` to `m'` no scope changes its names, and the limit on calls stays. -/
structure Machine.Keeps (m m' : Machine) : Prop where
  depth : m'.maxCallDepth = m.maxCallDepth
  names : m.store.Keeps m'.store

namespace Machine.Keeps

variable {m m₁ m₂ : Machine}

theorem refl (m : Machine) : m.Keeps m := ⟨rfl, .refl m.store⟩

theorem trans (h : m.Keeps m₁) (h' : m₁.Keeps m₂) : m.Keeps m₂ :=
  ⟨h'.depth.trans h.depth, h.names.trans h'.names⟩

end Machine.Keeps

namespace Direct

/-- The machine's form of a value, in a store of `n` scopes. -/
inductive Val.Coded (n : Nat) : Val → Value → Prop
  | plain {v : Value} (isPlain : v.IsPlain) : Coded n (.plain v) v
  | function {f : Lambda} {g : Code} (code : Code.ofFunction f.name f.params f.body = .ok g)
      (scope : f.scope < n) : Coded n (.function f) (.function ⟨f.id, g, f.scope⟩)

namespace Val.Coded

variable {n k : Nat} {v : Val} {V : Value}

theorem mono (h : v.Coded n V) (hk : n ≤ k) : v.Coded k V := by
  cases h with
  | plain h => exact .plain h
  | function code scope => exact .function code (scope.trans_le hk)

theorem undefined (n : Nat) : Val.undefined.Coded n .undefined := .plain (by simp [Value.IsPlain])

/-- The machine's form of a value looks like the value. -/
theorem alike (h : v.Coded n V) : v.view.Alike V := by
  cases h with
  | plain => exact .refl _
  | function code scope => exact .function rfl (Code.ofFunction_runs code).2.1.symm

theorem alikes {vs : List Val} {Vs : List Value} (h : List.Forall₂ (Val.Coded n) vs Vs) :
    List.Forall₂ Value.Alike (vs.map Val.view) Vs := by
  induction h with
  | nil => exact .nil
  | cons h _ ih => exact .cons h.alike ih

end Val.Coded

/-- The scope with number `id`, in a store of `n` scopes, holds the same variables. -/
structure Env.Coded (n id : Nat) (env : Env) (sc : Scope) : Prop where
  parent : sc.parent = env.parent
  older : ∀ p, sc.parent = some p → p < id
  sized : sc.vars.size = sc.names.size
  vars : ∀ x, Option.Rel (Val.Coded n) (env.vars x) (sc.named? x)

theorem Env.Coded.mono {n k id : Nat} {env : Env} {sc : Scope} (h : env.Coded n id sc)
    (hk : n ≤ k) : env.Coded k id sc := by
  refine { h with vars := fun x => ?_ }
  have hx := h.vars x
  generalize env.vars x = v, sc.named? x = V at hx ⊢
  cases hx with
  | none => exact .none
  | some hv => exact .some (hv.mono hk)

/-- The machine holds what the world holds. -/
structure World.Coded (w : World) (m : Machine) : Prop where
  globals : 0 < w.scopes.size
  size : m.store.scopes.size = w.scopes.size
  scopes : ∀ {id : Nat} {env : Env} {sc : Scope}, w.scopes[id]? = some env →
    m.store.scopes[id]? = some sc → env.Coded w.scopes.size id sc
  functions : m.closures = w.functions
  output : m.output = w.output

namespace World.Coded

variable {w : World} {m : Machine} {id : Nat} {env : Env} {sc : Scope}

theorem scope? (h : w.Coded m) (hs : m.store.scopes[id]? = some sc) :
    ∃ env, w.scopes[id]? = some env ∧ env.Coded w.scopes.size id sc := by
  have hi : id < w.scopes.size := h.size ▸ lt_size_of_getElem? hs
  exact ⟨_, Array.getElem?_eq_getElem hi, h.scopes (Array.getElem?_eq_getElem hi) hs⟩

/-- Both sides find the same value under a name. -/
theorem lookup (h : w.Coded m) (x : String) (id : Nat) :
    Option.Rel (Val.Coded w.scopes.size) (w.lookup x id) (m.store.named? x id) := by
  induction id using Nat.strong_induction_on with
  | _ id ih =>
    rw [World.lookup, Store.named?]
    cases hs : m.store.scopes[id]? with
    | none =>
      have hn : w.scopes[id]? = none := by
        rw [Array.getElem?_eq_none_iff, ← h.size]
        exact Array.getElem?_eq_none_iff.mp hs
      rw [hn]
      exact .none
    | some sc =>
      obtain ⟨env, he, hc⟩ := h.scope? hs
      simp only [he]
      have hv := hc.vars x
      rw [← hc.parent]
      cases hx : sc.named? x with
      | some V =>
        rw [hx] at hv
        cases hev : env.vars x with
        | none => rw [hev] at hv; cases hv
        | some v => rw [hev] at hv; simpa using hv
      | none =>
        rw [hx] at hv
        cases hev : env.vars x with
        | some v => rw [hev] at hv; cases hv
        | none =>
          cases hp : sc.parent with
          | none => exact .none
          | some p =>
            have hlt := hc.older p hp
            simpa [hlt] using ih p hlt

/-- Assigning a slot is assigning its name. -/
theorem assign (h : w.Coded m) (hs : m.store.scopes[id]? = some sc) (hn : sc.names.toList.Nodup)
    {slot : Nat} {x : String} (hx : sc.names[slot]? = some x) {v : Val} {V : Value}
    (hv : v.Coded w.scopes.size V) :
    ∃ store, m.store.set? id slot V = some store ∧
      World.Coded { w with scopes := w.scopes.modify id (·.set x v) } { m with store } ∧
      m.Keeps { m with store } := by
  obtain ⟨env, he, hc⟩ := h.scope? hs
  have hslot : slot < sc.vars.size := hc.sized ▸ lt_size_of_getElem? hx
  have hid := lt_size_of_getElem? hs
  refine ⟨_, Store.set?_eq hs hslot V, ⟨by simpa using h.globals, ?_, ?_, h.functions, h.output⟩,
    ⟨rfl, .set hs _⟩⟩
  · simpa using h.size
  · intro j env' sc' he' hs'
    simp only [Array.getElem?_modify, Array.getElem?_setIfInBounds, Array.size_modify] at he' hs' ⊢
    by_cases hj : id = j
    · subst hj
      simp only [if_true, he, hid, Option.map_some, Option.some.injEq] at he' hs'
      subst he' hs'
      refine ⟨hc.parent, hc.older, by simpa using hc.sized, fun y => ?_⟩
      rw [Scope.named?_set hn hx hslot]
      by_cases hy : y = x
      · simpa [Env.set, hy] using hv
      · simpa [Env.set, hy] using hc.vars y
    · simp only [if_neg hj] at he' hs'
      exact h.scopes he' hs'

end World.Coded

theorem Env.bind_eq (ps : List String) (args : List Val) (x : String) :
    Env.bind ps args x = (ps.idxOf? x).map fun i => args.getD i .undefined := by
  induction ps generalizing args with
  | nil => rfl
  | cons p ps ih =>
    rw [Env.bind, List.idxOf?_cons]
    by_cases h : x = p
    · cases args <;> simp [h]
    · simp only [if_neg h, ih]
      cases args <;> simp [Ne.symm h, Function.comp_def]

theorem Val.Coded.getD {n : Nat} {args : List Val} {Args : List Value}
    (h : List.Forall₂ (Val.Coded n) args Args) (i : Nat) :
    (args.getD i .undefined).Coded n (Args.getD i .undefined) := by
  induction h generalizing i with
  | nil => simpa using Val.Coded.undefined n
  | cons h _ ih =>
    cases i with
    | zero => simpa using h
    | succ i => simpa using ih i

namespace World.Coded

variable {w : World} {m : Machine}

/-- Opening a scope for a call. -/
theorem enclose (h : w.Coded m) {f : Lambda} {g : Code}
    (hg : Code.ofFunction f.name f.params f.body = .ok g) (hf : f.scope < w.scopes.size)
    {args : List Val} {Args : List Value}
    (ha : List.Forall₂ (Val.Coded w.scopes.size) args Args) :
    World.Coded { w with scopes := w.scopes.push ⟨Env.bind f.params args, some f.scope⟩ }
      { m with store := ⟨m.store.scopes.push (.ofCall ⟨f.id, g, f.scope⟩ Args)⟩ } ∧
    m.Keeps { m with store := ⟨m.store.scopes.push (.ofCall ⟨f.id, g, f.scope⟩ Args)⟩ } := by
  obtain ⟨-, -, hcount, hparams⟩ := Code.ofFunction_runs hg
  have hle := Code.ofFunction_argCount_le hg
  refine ⟨⟨by simp, by simp [h.size], ?_, h.functions, h.output⟩, ⟨rfl, .push m.store _⟩⟩
  · intro j env sc he hs
    simp only [Array.getElem?_push, h.size, Array.size_push] at he hs ⊢
    by_cases hj : j = w.scopes.size
    · simp only [if_pos hj, Option.some.injEq] at he hs
      subst he hs hj
      refine ⟨rfl, by rintro p ⟨⟩; exact hf, Scope.size_ofCall hle Args, fun x => ?_⟩
      change Option.Rel _ (Env.bind f.params args x) _
      rw [Scope.named?_ofCall hparams hcount, Env.bind_eq]
      cases f.params.idxOf? x with
      | none => exact .none
      | some i => exact .some ((Val.Coded.getD ha i).mono (Nat.le_succ _))
    · simp only [if_neg hj] at he hs
      exact (h.scopes he hs).mono (Nat.le_succ _)

/-- Loading a script keeps all variables, and gives the global scope the layout of the code. -/
theorem load (h : w.Coded m) {p : Program} {code : Code}
    (hc : p.compileWith m.globalNames = .ok code) :
    w.Coded (m.load code) ∧
      ∃ sc, (m.load code).store.scopes[Machine.globalScope]? = some sc ∧ sc.names = code.names := by
  have hpos : 0 < m.store.scopes.size := h.size ▸ h.globals
  have h₀ := Array.getElem?_eq_getElem hpos
  have hold : m.globalNames = m.store.scopes[0].names.toList := by
    simp [Machine.globalNames, Machine.globalScope, h₀]
  have hmem : ∀ x ∈ m.store.scopes[0].names.toList, x ∈ code.names.toList := by
    intro x hx
    rw [(Program.compileWith_runs hc).2, mem_internAll, mem_internAll, hold]
    exact .inl (.inr hx)
  obtain ⟨env, he, hg⟩ := h.scope? h₀
  refine ⟨⟨h.globals, by simpa [Machine.load, Store.modify] using h.size, ?_, h.functions,
    h.output⟩, m.store.scopes[0].adopt code.names, ?_, Scope.names_adopt _ _⟩
  · intro j env' sc' he' hs'
    simp only [Machine.load, Store.modify, Array.getElem?_modify, Machine.globalScope] at hs'
    by_cases hj : 0 = j
    · subst hj
      rw [he] at he'
      cases he'
      simp only [if_true, h₀, Option.map_some, Option.some.injEq] at hs'
      subst hs'
      refine ⟨by rw [Scope.parent_adopt, hg.parent], by rw [Scope.parent_adopt]; exact hg.older,
        by rw [Scope.size_adopt hg.sized, Scope.names_adopt], fun x => ?_⟩
      rw [Scope.named?_adopt hg.sized]
      by_cases hx : x ∈ code.names.toList
      · rw [if_pos hx]
        exact hg.vars x
      · rw [if_neg hx, ← Scope.named?_eq_none (fun hm => hx (hmem x hm))]
        exact hg.vars x
    · rw [if_neg hj] at hs'
      exact h.scopes he' hs'
  · simp [Machine.load, Store.modify, Array.getElem?_modify, Machine.globalScope, h₀]

end World.Coded

end Direct

end Scriptlet
