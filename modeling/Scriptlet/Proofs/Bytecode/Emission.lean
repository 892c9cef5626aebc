import Mathlib
import Scriptlet.Bytecode.Compile

/-! What emissions do to the code under construction: nothing that is there already changes. -/
namespace Scriptlet

section Items
variable {α : Type} {i : Nat} {x : α}

theorem lt_size_of_getElem? {xs : Array α} (h : xs[i]? = some x) : i < xs.size :=
  (Array.getElem?_eq_some_iff.mp h).1

theorem getElem?_of_isPrefix {xs ys : List α} (h : xs <+: ys) (hx : xs[i]? = some x) :
    ys[i]? = some x := by
  obtain ⟨hi, rfl⟩ := List.getElem?_eq_some_iff.mp hx
  exact List.prefix_iff_getElem?.mp h i hi

theorem arrayGetElem?_of_isPrefix {xs ys : Array α} (h : xs.toList <+: ys.toList)
    (hx : xs[i]? = some x) : ys[i]? = some x := by
  rw [← Array.getElem?_toList] at hx ⊢
  exact getElem?_of_isPrefix h hx

end Items

section Intern
variable {α : Type} [BEq α]

theorem intern_extends (pool : Array α) (x : α) :
    pool.toList <+: (intern pool x).1.toList := by
  unfold intern
  cases pool.idxOf? x with
  | none => simp
  | some i => exact List.prefix_rfl

variable [LawfulBEq α]

theorem getElem?_of_idxOf? {pool : Array α} {x : α} {i : Nat} (h : pool.idxOf? x = some i) :
    pool[i]? = some x := by
  rw [← Array.idxOf?_toList] at h
  obtain ⟨hi, hx, -⟩ := List.idxOf?_eq_some_iff.mp h
  rw [← Array.getElem?_toList, List.getElem?_eq_getElem hi, hx]

/-- Where no item occurs twice, the place of an item is the only place that holds it. -/
theorem idxOf?_of_getElem? {pool : Array α} {x : α} {i : Nat} (hn : pool.toList.Nodup)
    (h : pool[i]? = some x) : pool.idxOf? x = some i := by
  rw [← Array.idxOf?_toList, List.idxOf?_eq_some_iff]
  rw [← Array.getElem?_toList] at h
  obtain ⟨hi, hx⟩ := List.getElem?_eq_some_iff.mp h
  refine ⟨hi, hx, fun j hj he => ?_⟩
  have := (List.Nodup.getElem_inj_iff hn).mp (he.trans hx.symm)
  omega

theorem getElem?_unique {pool : Array α} {x : α} {i j : Nat} (hn : pool.toList.Nodup)
    (hi : pool[i]? = some x) (hj : pool[j]? = some x) : i = j := by
  have h := idxOf?_of_getElem? hn hi
  rw [idxOf?_of_getElem? hn hj] at h
  exact (Option.some.inj h).symm

/-- The interned item stands at the place that is handed out. -/
theorem intern_getElem? (pool : Array α) (x : α) :
    (intern pool x).1[(intern pool x).2]? = some x := by
  unfold intern
  cases h : pool.idxOf? x with
  | none => simp
  | some i => exact getElem?_of_idxOf? h

theorem intern_nodup {pool : Array α} (x : α) (h : pool.toList.Nodup) :
    (intern pool x).1.toList.Nodup := by
  unfold intern
  cases hx : pool.idxOf? x with
  | none =>
    have hn : x ∉ pool.toList := by simpa using hx
    simpa [List.nodup_append, h] using fun a ha (e : a = x) => hn (e ▸ by simpa using ha)
  | some i => exact h

end Intern

/-- The pool after several items were interned, the first one first. -/
def internAll (names : Array String) (xs : List String) : Array String :=
  xs.foldl (fun pool x => (intern pool x).1) names

@[simp] theorem internAll_nil (names : Array String) : internAll names [] = names := rfl

theorem internAll_append (names : Array String) (xs ys : List String) :
    internAll names (xs ++ ys) = internAll (internAll names xs) ys := List.foldl_append

theorem internAll_extends (names : Array String) (xs : List String) :
    names.toList <+: (internAll names xs).toList := by
  induction xs generalizing names with
  | nil => exact List.prefix_rfl
  | cons x xs ih => exact (intern_extends names x).trans (ih _)

theorem internAll_nodup {names : Array String} (xs : List String) (h : names.toList.Nodup) :
    (internAll names xs).toList.Nodup := by
  induction xs generalizing names with
  | nil => exact h
  | cons x xs ih => exact ih (intern_nodup x h)

theorem mem_internAll {names : Array String} {xs : List String} {x : String} :
    x ∈ (internAll names xs).toList ↔ x ∈ names.toList ∨ x ∈ xs := by
  induction xs generalizing names with
  | nil => simp
  | cons y ys ih =>
    change x ∈ (internAll (intern names y).1 ys).toList ↔ _
    rw [ih, List.mem_cons, ← or_assoc]
    refine or_congr_left ?_
    unfold intern
    cases hy : names.idxOf? y with
    | none => simp
    | some i =>
      have hm : y ∈ names.toList :=
        List.mem_of_getElem? (by simpa using getElem?_of_idxOf? hy)
      exact ⟨Or.inl, fun h => h.elim id fun e => e ▸ hm⟩

/-- New names are added at the end, in order. -/
theorem internAll_of_nodup (names : Array String) {xs : List String}
    (h : (names.toList ++ xs).Nodup) : (internAll names xs).toList = names.toList ++ xs := by
  induction xs generalizing names with
  | nil => simp
  | cons x xs ih =>
    have hx : names.idxOf? x = none := by
      have := (List.nodup_append.mp h).2.2
      simpa using fun hm => this x (by simpa using hm) x (by simp) rfl
    have hp : (intern names x).1.toList = names.toList ++ [x] := by simp [intern, hx]
    have hi := ih (intern names x).1 (by simpa [hp] using h)
    simpa [internAll, hp] using hi

namespace Builder

@[simp] theorem position_emit (b : Builder) (op : Opcode) (arg : Nat) :
    (b.emit op arg).position = b.position + 1 := by
  simp [emit, position]

@[simp] theorem position_patch (b : Builder) (place target : Nat) :
    (b.patch place target).position = b.position := by
  simp [patch, position]

theorem patch_code_of_ne {b : Builder} {place i : Nat} (target : Nat) (h : place ≠ i) :
    (b.patch place target).code[i]? = b.code[i]? := by
  simp only [patch, Array.getElem?_modify, if_neg h]

theorem patch_code_self {b : Builder} {place : Nat} {op : Opcode} {arg : Nat} (target : Nat)
    (h : b.code[place]? = some ⟨op, arg⟩) :
    (b.patch place target).code[place]? = some ⟨op, target⟩ := by
  simp [patch, Array.getElem?_modify, h]

/-- `b'` continues `b`: everything in `b` keeps its place, and `xs` were the variables given slots. -/
structure Grows (b b' : Builder) (xs : List String) : Prop where
  position : b.position ≤ b'.position
  code : ∀ i < b.position, b'.code[i]? = b.code[i]?
  numbers : b.numbers.toList <+: b'.numbers.toList
  texts : b.texts.toList <+: b'.texts.toList
  functions : b.functions <+: b'.functions
  names : b'.names = internAll b.names xs

namespace Grows

variable {b b₁ b₂ : Builder} {xs ys : List String}

theorem refl (b : Builder) : b.Grows b [] :=
  ⟨le_rfl, fun _ _ => rfl, List.prefix_rfl, List.prefix_rfl, List.prefix_rfl, rfl⟩

theorem trans (h : b.Grows b₁ xs) (h' : b₁.Grows b₂ ys) : b.Grows b₂ (xs ++ ys) where
  position := h.position.trans h'.position
  code i hi := (h'.code i (hi.trans_le h.position)).trans (h.code i hi)
  numbers := h.numbers.trans h'.numbers
  texts := h.texts.trans h'.texts
  functions := h.functions.trans h'.functions
  names := by rw [h'.names, h.names, internAll_append]

theorem emit (b : Builder) (op : Opcode) (arg : Nat) : b.Grows (b.emit op arg) [] where
  position := by simp [Builder.emit, Builder.position]
  code i hi := by
    change i < b.code.size at hi
    simp [Builder.emit, Array.getElem?_push, hi.ne]
  numbers := List.prefix_rfl
  texts := List.prefix_rfl
  functions := List.prefix_rfl
  names := rfl

/-- Closing a jump that was opened after `b`. -/
theorem patch {place target : Nat} (h : b.Grows b₁ xs) (hp : b.position ≤ place) :
    b.Grows (b₁.patch place target) xs where
  position := by simpa using h.position
  code i hi := by
    rw [patch_code_of_ne target (by omega), h.code i hi]
  numbers := h.numbers
  texts := h.texts
  functions := h.functions
  names := h.names

end Grows
end Builder

namespace Emit

variable {α β : Type} {b b' : Builder}

/-- What the emission does to `b`. -/
def exec (x : Emit α) (b : Builder) : Except CompileError α × Builder := x.run.run b

/-- The emission succeeds on `b` with result `a` and leaves `b'`. -/
def Yields (x : Emit α) (b : Builder) (a : α) (b' : Builder) : Prop := x.exec b = (.ok a, b')

theorem exec_bind (x : Emit α) (f : α → Emit β) (b : Builder) :
    (x >>= f).exec b =
      match x.exec b with
      | (.ok a, b') => (f a).exec b'
      | (.error e, b') => (.error e, b') := by
  unfold exec ExceptT.run StateT.run
  simp only [bind, ExceptT.bind, ExceptT.mk, StateT.bind, ExceptT.bindCont]
  cases x b with
  | mk r b' => cases r <;> rfl

theorem yields_bind {x : Emit α} {f : α → Emit β} {y : β} :
    Yields (x >>= f) b y b' ↔ ∃ a b₁, Yields x b a b₁ ∧ Yields (f a) b₁ y b' := by
  unfold Yields
  rw [exec_bind]
  cases x.exec b with
  | mk r b₁ =>
    cases r with
    | ok a => simp
    | error e => simp

@[simp] theorem yields_pure {a a' : α} : Yields (pure a) b a' b' ↔ a = a' ∧ b = b' := by
  change (Except.ok a, b) = (Except.ok a', b') ↔ _
  simp

@[simp] theorem yields_throw {e : CompileError} {a : α} : ¬ Yields (throw e) b a b' := by
  change ¬ (Except.error e, b) = (Except.ok a, b')
  simp

@[simp] theorem yields_get {a : Builder} : Yields get b a b' ↔ b = a ∧ b = b' := by
  change (Except.ok b, b) = (Except.ok a, b') ↔ _
  simp

@[simp] theorem yields_instruction {op : Opcode} {arg : Nat} {a : Unit} :
    Yields (instruction op arg) b a b' ↔ b.emit op arg = b' := by
  change (Except.ok (), b.emit op arg) = (Except.ok (), b') ↔ _
  simp

@[simp] theorem yields_openJump {op : Opcode} {place : Nat} :
    Yields (openJump op) b place b' ↔ b.position = place ∧ b.emit op 0 = b' := by
  change (Except.ok b.position, b.emit op 0) = (Except.ok place, b') ↔ _
  simp

@[simp] theorem yields_closeJump {place : Nat} {a : Unit} :
    Yields (closeJump place) b a b' ↔ b.patch place b.position = b' := by
  change (Except.ok (), b.patch place b.position) = (Except.ok (), b') ↔ _
  simp

@[simp] theorem yields_number {v : Number} {i : Nat} :
    Yields (number v) b i b' ↔ b.addNumber v = (b', i) := by
  change (Except.ok (b.addNumber v).2, (b.addNumber v).1) = (Except.ok i, b') ↔ _
  simp [Prod.ext_iff, and_comm]

@[simp] theorem yields_text {s : String} {i : Nat} :
    Yields (text s) b i b' ↔ b.addText s = (b', i) := by
  change (Except.ok (b.addText s).2, (b.addText s).1) = (Except.ok i, b') ↔ _
  simp [Prod.ext_iff, and_comm]

@[simp] theorem yields_function {c : Code} {i : Nat} :
    Yields (function c) b i b' ↔ b.addFunction c = (b', i) := by
  change (Except.ok (b.addFunction c).2, (b.addFunction c).1) = (Except.ok i, b') ↔ _
  simp [Prod.ext_iff, and_comm]

@[simp] theorem yields_name {x : String} {i : Nat} :
    Yields (name x) b i b' ↔ b.addName x = (b', i) := by
  change (Except.ok (b.addName x).2, (b.addName x).1) = (Except.ok i, b') ↔ _
  simp [Prod.ext_iff, and_comm]

@[simp] theorem yields_lift {r : Except CompileError α} {a : α} :
    Yields (liftM r) b a b' ↔ r = .ok a ∧ b = b' := by
  change (r, b) = (Except.ok a, b') ↔ _
  simp

end Emit
end Scriptlet
