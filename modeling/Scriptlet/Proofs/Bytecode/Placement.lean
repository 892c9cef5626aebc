import Scriptlet.Proofs.Bytecode.Emission

/-! Where the instructions of a tree stand in finished code. -/
namespace Scriptlet

/-- The code of a function, which does not depend on where the function stands. -/
def Code.ofFunction (f : String) (params : List String) (body : List Stmt) :
    Except CompileError Code :=
  Emit.closed .empty f params.length (do Emit.parameters f params; compileBlock body)

/-- Every place from `p` up to `q` has the property. -/
def Between (p q : Nat) (P : Nat → Prop) : Prop := ∀ i, p ≤ i → i < q → P i

namespace Between

variable {p m q : Nat} {P : Nat → Prop}

theorem empty : Between p p P := fun _ hp hq => absurd hq (Nat.not_lt.mpr hp)

theorem append (h : Between p m P) (h' : Between m q P) : Between p q P := by
  intro i hp hq
  rcases Nat.lt_or_ge i m with hm | hm
  · exact h i hp hm
  · exact h' i hm hq

theorem snoc (h : Between p q P) (h' : P q) : Between p (q + 1) P := by
  refine h.append fun i hq hi => ?_
  obtain rfl : i = q := by omega
  exact h'

theorem single (h : P p) : Between p (p + 1) P := empty.snoc h

end Between

mutual

/-- The instructions from `p` up to `q` evaluate the expression. -/
inductive Expr.Placed (c : Code) : Expr → Nat → Nat → Prop
  | number {v : Number} {p i : Nat} (code : c.code[p]? = some ⟨.loadNumber, i⟩)
      (pool : c.numbers[i]? = some v) : Expr.Placed c (.number v) p (p + 1)
  | boolean {v : Bool} {p : Nat} (code : c.code[p]? = some ⟨.loadBoolean, v.toNat⟩) :
      Expr.Placed c (.boolean v) p (p + 1)
  | text {s : String} {p i : Nat} (code : c.code[p]? = some ⟨.loadText, i⟩)
      (pool : c.texts[i]? = some s) : Expr.Placed c (.text s) p (p + 1)
  | name {x : String} {p slot : Nat} (code : c.code[p]? = some ⟨.loadVar, slot⟩)
      (pool : c.names[slot]? = some x) : Expr.Placed c (.name x) p (p + 1)
  | binary {op : BinaryOp} {l r : Expr} {p p₁ p₂ : Nat} (left : Expr.Placed c l p p₁)
      (right : Expr.Placed c r p₁ p₂) (code : c.code[p₂]? = some ⟨.binary op, 0⟩) :
      Expr.Placed c (.binary op l r) p (p₂ + 1)
  | call {f : Expr} {args : List Expr} {p p₁ p₂ : Nat} (callee : Expr.Placed c f p p₁)
      (list : ArgsPlaced c args p₁ p₂) (code : c.code[p₂]? = some ⟨.call, args.length⟩) :
      Expr.Placed c (.call f args) p (p₂ + 1)
  | function {f : String} {params : List String} {body : List Stmt} {g : Code} {p i j : Nat}
      (compiled : Code.ofFunction f params body = .ok g) (pool : c.functions[i]? = some g)
      (slot : c.names[j]? = some f) (load : c.code[p]? = some ⟨.loadFunction, i⟩)
      (bind : c.code[p + 1]? = some ⟨.assign, j⟩)
      (reload : c.code[p + 2]? = some ⟨.loadFunction, i⟩) :
      Expr.Placed c (.function f params body) p (p + 3)

/-- The instructions from `p` up to `q` evaluate the expressions one after the other. -/
inductive ArgsPlaced (c : Code) : List Expr → Nat → Nat → Prop
  | nil {p : Nat} : ArgsPlaced c [] p p
  | cons {e : Expr} {es : List Expr} {p p₁ q : Nat} (head : Expr.Placed c e p p₁)
      (tail : ArgsPlaced c es p₁ q) : ArgsPlaced c (e :: es) p q

end

mutual

/-- The instructions from `p` up to `q` carry out the statement. -/
inductive Stmt.Placed (c : Code) : Stmt → Nat → Nat → Prop
  | expr {e : Expr} {p p₁ : Nat} (value : e.Placed c p p₁)
      (code : c.code[p₁]? = some ⟨.discard, 0⟩) : Stmt.Placed c (.expr e) p (p₁ + 1)
  | assign {x : String} {e : Expr} {p p₁ slot : Nat} (value : e.Placed c p p₁)
      (code : c.code[p₁]? = some ⟨.assign, slot⟩) (pool : c.names[slot]? = some x) :
      Stmt.Placed c (.assign x e) p (p₁ + 1)
  | branch {test : Expr} {body : List Stmt} {p p₁ q : Nat} (value : test.Placed c p p₁)
      (code : c.code[p₁]? = some ⟨.jumpIfFalse, q⟩) (inner : BlockPlaced c body (p₁ + 1) q) :
      Stmt.Placed c (.branch test body) p q
  | loop {test : Expr} {body : List Stmt} {p p₁ p₂ : Nat} (value : test.Placed c p p₁)
      (code : c.code[p₁]? = some ⟨.jumpIfFalse, p₂ + 1⟩) (inner : BlockPlaced c body (p₁ + 1) p₂)
      (back : c.code[p₂]? = some ⟨.jump, p⟩) : Stmt.Placed c (.loop test body) p (p₂ + 1)
  | leave {p : Nat} (code : c.code[p]? = some ⟨.ret, 0⟩) : Stmt.Placed c (.ret none) p (p + 1)
  | ret {e : Expr} {p p₁ : Nat} (value : e.Placed c p p₁)
      (code : c.code[p₁]? = some ⟨.ret, 1⟩) : Stmt.Placed c (.ret (some e)) p (p₁ + 1)

/-- The instructions from `p` up to `q` carry out the statements one after the other. -/
inductive BlockPlaced (c : Code) : List Stmt → Nat → Nat → Prop
  | nil {p : Nat} : BlockPlaced c [] p p
  | cons {s : Stmt} {ss : List Stmt} {p p₁ q : Nat} (head : Stmt.Placed c s p p₁)
      (tail : BlockPlaced c ss p₁ q) : BlockPlaced c (s :: ss) p q

end

mutual

/-- The variables of the expression in the order in which they are given slots. -/
def Expr.slots : Expr → List String
  | .number _ | .boolean _ | .text _ => []
  | .name x => [x]
  | .binary _ l r => l.slots ++ r.slots
  | .call f args => f.slots ++ argSlots args
  | .function f _ _ => [f]

def argSlots : List Expr → List String
  | [] => []
  | e :: es => e.slots ++ argSlots es

end

mutual

/-- The variables of the statement in the order in which they are given slots. -/
def Stmt.slots : Stmt → List String
  | .expr e => e.slots
  | .assign x e => e.slots ++ [x]
  | .branch test body | .loop test body => test.slots ++ blockSlots body
  | .ret none => []
  | .ret (some e) => e.slots

def blockSlots : List Stmt → List String
  | [] => []
  | s :: ss => s.slots ++ blockSlots ss

end

/-- The code holds everything that `b` holds, and its instructions from `start` on. -/
structure Code.Covers (c : Code) (b : Builder) (start : Nat) : Prop where
  code : ∀ i, start ≤ i → i < b.position → c.code[i]? = b.code[i]?
  numbers : b.numbers.toList <+: c.numbers.toList
  texts : b.texts.toList <+: c.texts.toList
  functions : b.functions <+: c.functions
  names : b.names.toList <+: c.names.toList

namespace Code.Covers

variable {c : Code} {b b' : Builder} {start : Nat} {xs : List String}

theorem of_grows (h : c.Covers b' start) (g : b.Grows b' xs) : c.Covers b start where
  code i hs hi := (h.code i hs (hi.trans_le g.position)).trans (g.code i hi)
  numbers := g.numbers.trans h.numbers
  texts := g.texts.trans h.texts
  functions := g.functions.trans h.functions
  names := (g.names ▸ internAll_extends b.names xs).trans h.names

theorem later (h : c.Covers b start) {start' : Nat} (hs : start ≤ start') : c.Covers b start' :=
  { h with code := fun i hi => h.code i (hs.trans hi) }

/-- Instructions behind a closed jump are not touched by closing it. -/
theorem unpatch {place target start' : Nat} (h : c.Covers (b.patch place target) start)
    (hp : place < start') (hs : start ≤ place) : c.Covers b start' where
  code i hi hb := by
    rw [h.code i (by omega) (by simpa using hb), Builder.patch_code_of_ne target (by omega)]
  numbers := h.numbers
  texts := h.texts
  functions := h.functions
  names := h.names

/-- The instruction that was emitted last. -/
theorem emitted {op : Opcode} {arg : Nat} (h : c.Covers (b.emit op arg) start)
    (hs : start ≤ b.position) : c.code[b.position]? = some ⟨op, arg⟩ := by
  rw [h.code _ hs (by simp [Builder.emit, Builder.position])]
  simp [Builder.emit, Builder.position]

end Code.Covers

/-- What a finished emission from `b` to `b'` leaves behind: `P` holds, in all code that contains
it, of the places at which it begins and ends. -/
structure Lays (b b' : Builder) (xs : List String) (P : Code → Nat → Nat → Prop) : Prop where
  grows : b.Grows b' xs
  placed : ∀ c, c.Covers b' b.position → P c b.position b'.position

namespace Lays

variable {b b₁ b₂ : Builder} {xs ys : List String} {P Q R : Code → Nat → Nat → Prop}

theorem mono (h : Lays b b₁ xs P) (hQ : ∀ c p q, P c p q → Q c p q) : Lays b b₁ xs Q :=
  ⟨h.grows, fun c hc => hQ c _ _ (h.placed c hc)⟩

theorem seq (h : Lays b b₁ xs P) (h' : Lays b₁ b₂ ys Q) :
    Lays b b₂ (xs ++ ys) fun c p q => ∃ m, P c p m ∧ Q c m q where
  grows := h.grows.trans h'.grows
  placed c hc := ⟨_, h.placed c (hc.of_grows h'.grows),
    h'.placed c (hc.later h.grows.position)⟩

/-- An instruction after something that was laid. -/
theorem andThen (h : Lays b b₁ xs P) (op : Opcode) (arg : Nat) :
    Lays b (b₁.emit op arg) xs fun c p q =>
      ∃ m, P c p m ∧ c.code[m]? = some ⟨op, arg⟩ ∧ q = m + 1 where
  grows := by simpa using h.grows.trans (.emit b₁ op arg)
  placed c hc := ⟨b₁.position, h.placed c (hc.of_grows (.emit b₁ op arg)),
    hc.emitted h.grows.position, b₁.position_emit op arg⟩

theorem nothing (b : Builder) : Lays b b [] fun _ p q => p = q := ⟨.refl b, fun _ _ => rfl⟩

theorem addNumber {v : Number} {i : Nat} (h : b.addNumber v = (b₁, i)) :
    Lays b b₁ [] fun c p q => p = q ∧ c.numbers[i]? = some v := by
  obtain ⟨rfl, rfl⟩ := Prod.ext_iff.mp h
  exact ⟨{ Builder.Grows.refl b with numbers := intern_extends b.numbers v },
    fun c hc => ⟨rfl, arrayGetElem?_of_isPrefix hc.numbers (intern_getElem? b.numbers v)⟩⟩

theorem addText {s : String} {i : Nat} (h : b.addText s = (b₁, i)) :
    Lays b b₁ [] fun c p q => p = q ∧ c.texts[i]? = some s := by
  obtain ⟨rfl, rfl⟩ := Prod.ext_iff.mp h
  exact ⟨{ Builder.Grows.refl b with texts := intern_extends b.texts s },
    fun c hc => ⟨rfl, arrayGetElem?_of_isPrefix hc.texts (intern_getElem? b.texts s)⟩⟩

theorem addName {x : String} {i : Nat} (h : b.addName x = (b₁, i)) :
    Lays b b₁ [x] fun c p q => p = q ∧ c.names[i]? = some x := by
  obtain ⟨rfl, rfl⟩ := Prod.ext_iff.mp h
  exact ⟨{ Builder.Grows.refl b with names := rfl },
    fun c hc => ⟨rfl, arrayGetElem?_of_isPrefix hc.names (intern_getElem? b.names x)⟩⟩

theorem addFunction {g : Code} {i : Nat} (h : b.addFunction g = (b₁, i)) :
    Lays b b₁ [] fun c p q => p = q ∧ c.functions[i]? = some g := by
  obtain ⟨rfl, rfl⟩ := Prod.ext_iff.mp h
  exact ⟨{ Builder.Grows.refl b with functions := List.prefix_append .. },
    fun c hc => ⟨rfl, getElem?_of_isPrefix hc.functions (by simp [Builder.addFunction])⟩⟩

end Lays

open Emit

mutual

theorem Expr.compile_lays : (e : Expr) → {b b' : Builder} → Yields e.compile b () b' →
    Lays b b' e.slots fun c => e.Placed c
  | .number v, b, b', h => by
    simp only [Expr.compile, yields_bind, yields_number, yields_instruction] at h
    obtain ⟨i, b₁, hv, rfl⟩ := h
    refine ((Lays.addNumber hv).andThen .loadNumber i).mono ?_
    rintro c p q ⟨_, ⟨rfl, hp⟩, hi, rfl⟩
    exact .number hi hp
  | .boolean v, b, b', h => by
    simp only [Expr.compile, yields_instruction] at h
    subst h
    refine ((Lays.nothing b).andThen .loadBoolean v.toNat).mono ?_
    rintro c p q ⟨_, rfl, hi, rfl⟩
    exact .boolean hi
  | .text s, b, b', h => by
    simp only [Expr.compile, yields_bind, yields_text, yields_instruction] at h
    obtain ⟨i, b₁, hs, rfl⟩ := h
    refine ((Lays.addText hs).andThen .loadText i).mono ?_
    rintro c p q ⟨_, ⟨rfl, hp⟩, hi, rfl⟩
    exact .text hi hp
  | .name x, b, b', h => by
    simp only [Expr.compile, yields_bind, yields_name, yields_instruction] at h
    obtain ⟨i, b₁, hx, rfl⟩ := h
    refine ((Lays.addName hx).andThen .loadVar i).mono ?_
    rintro c p q ⟨_, ⟨rfl, hp⟩, hi, rfl⟩
    exact .name hi hp
  | .binary op l r, b, b', h => by
    simp only [Expr.compile, yields_bind, yields_instruction] at h
    obtain ⟨⟨⟩, b₁, hl, ⟨⟩, b₂, hr, rfl⟩ := h
    refine (((l.compile_lays hl).seq (r.compile_lays hr)).andThen (.binary op) 0).mono ?_
    rintro c p q ⟨_, ⟨_, hl, hr⟩, hi, rfl⟩
    exact .binary hl hr hi
  | .call f args, b, b', h => by
    simp only [Expr.compile, yields_bind, yields_instruction] at h
    obtain ⟨⟨⟩, b₁, hf, ⟨⟩, b₂, ha, rfl⟩ := h
    refine (((f.compile_lays hf).seq (args_compile_lays args ha)).andThen .call args.length).mono ?_
    rintro c p q ⟨_, ⟨_, hf, ha⟩, hi, rfl⟩
    exact .call hf ha hi
  | .function f params body, b, b', h => by
    simp only [Expr.compile, yields_bind, yields_instruction, yields_lift, yields_function,
      yields_name] at h
    obtain ⟨g, _, ⟨hg, rfl⟩, i, b₁, hi, j, b₂, hj, ⟨⟩, _, rfl, ⟨⟩, _, rfl, rfl⟩ := h
    have hpools := (Lays.addFunction hi).seq (Lays.addName hj)
    refine (((hpools.andThen .loadFunction i).andThen .assign j).andThen .loadFunction i).mono ?_
    rintro c p q ⟨_, ⟨_, ⟨_, ⟨_, ⟨rfl, hf⟩, rfl, hn⟩, hl, rfl⟩, ha, rfl⟩, hr, rfl⟩
    exact .function hg hf hn hl ha hr

theorem args_compile_lays : (es : List Expr) → {b b' : Builder} → Yields (compileArgs es) b () b' →
    Lays b b' (argSlots es) fun c => ArgsPlaced c es
  | [], b, b', h => by
    simp only [compileArgs, yields_pure, true_and] at h
    subst h
    exact ⟨.refl b, fun c _ => .nil⟩
  | e :: es, b, b', h => by
    simp only [compileArgs, yields_bind] at h
    obtain ⟨⟨⟩, b₁, he, hes⟩ := h
    refine ((e.compile_lays he).seq (args_compile_lays es hes)).mono ?_
    rintro c p q ⟨m, hm, hq⟩
    exact .cons hm hq

end

/-- A jump over something that was laid, closed afterwards. -/
theorem Lays.jump {b b₁ b₂ : Builder} {xs ys : List String} {P Q : Code → Nat → Nat → Prop}
    {op : Opcode} (h : Lays b b₁ xs P) (h' : Lays (b₁.emit op 0) b₂ ys Q) :
    Lays b (b₂.patch b₁.position b₂.position) (xs ++ ys) fun c p q =>
      ∃ m, P c p m ∧ c.code[m]? = some ⟨op, q⟩ ∧ Q c (m + 1) q := by
  have hj : b₁.Grows (b₂.patch b₁.position b₂.position) ys :=
    .patch (by simpa using (Builder.Grows.emit b₁ op 0).trans h'.grows) le_rfl
  refine ⟨h.grows.trans hj, fun c hc => ⟨b₁.position, h.placed c (hc.of_grows hj), ?_, ?_⟩⟩
  · have hlt : b₁.position < b₂.position := by simpa using h'.grows.position
    have hi : b₂.code[b₁.position]? = some ⟨op, 0⟩ := by
      rw [h'.grows.code _ (by simp)]
      simp [Builder.emit, Builder.position]
    rw [hc.code _ h.grows.position (by simpa using hlt), Builder.patch_code_self _ hi,
      Builder.position_patch]
  · have hs : (b₁.emit op 0).position = b₁.position + 1 := b₁.position_emit op 0
    have hq := h'.placed c (hc.unpatch (by omega) h.grows.position)
    simpa [hs] using hq

mutual

theorem Stmt.compile_lays : (s : Stmt) → {b b' : Builder} → Yields s.compile b () b' →
    Lays b b' s.slots fun c => s.Placed c
  | .expr e, b, b', h => by
    simp only [Stmt.compile, yields_bind, yields_instruction] at h
    obtain ⟨⟨⟩, b₁, he, rfl⟩ := h
    refine ((e.compile_lays he).andThen .discard 0).mono ?_
    rintro c p q ⟨_, he, hi, rfl⟩
    exact .expr he hi
  | .assign x e, b, b', h => by
    simp only [Stmt.compile, yields_bind, yields_name, yields_instruction] at h
    obtain ⟨⟨⟩, b₁, he, i, b₂, hx, rfl⟩ := h
    refine (((e.compile_lays he).seq (Lays.addName hx)).andThen .assign i).mono ?_
    rintro c p q ⟨_, ⟨_, he, rfl, hx⟩, hi, rfl⟩
    exact .assign he hi hx
  | .branch test body, b, b', h => by
    simp only [Stmt.compile, yields_bind, yields_openJump, yields_closeJump] at h
    obtain ⟨⟨⟩, b₁, ht, _, _, ⟨rfl, rfl⟩, ⟨⟩, b₂, hb, rfl⟩ := h
    refine ((test.compile_lays ht).jump (block_compile_lays body hb)).mono ?_
    rintro c p q ⟨_, ht, hi, hb⟩
    exact .branch ht hi hb
  | .loop test body, b, b', h => by
    simp only [Stmt.compile, yields_bind, yields_get, yields_openJump, yields_closeJump,
      yields_instruction] at h
    obtain ⟨_, _, ⟨rfl, rfl⟩, ⟨⟩, b₁, ht, _, _, ⟨rfl, rfl⟩, ⟨⟩, b₂, hb, ⟨⟩, _, rfl, rfl⟩ := h
    have hl := (test.compile_lays ht).jump ((block_compile_lays body hb).andThen .jump b.position)
    refine ⟨hl.grows, fun c hc => ?_⟩
    obtain ⟨m, ht, hi, m', hb, hj, he⟩ := hl.placed c hc
    rw [he] at hi ⊢
    exact .loop ht hi hb hj
  | .ret none, b, b', h => by
    simp only [Stmt.compile, yields_instruction] at h
    subst h
    refine ((Lays.nothing b).andThen .ret 0).mono ?_
    rintro c p q ⟨_, rfl, hi, rfl⟩
    exact .leave hi
  | .ret (some e), b, b', h => by
    simp only [Stmt.compile, yields_bind, yields_instruction] at h
    obtain ⟨⟨⟩, b₁, he, rfl⟩ := h
    refine ((e.compile_lays he).andThen .ret 1).mono ?_
    rintro c p q ⟨_, he, hi, rfl⟩
    exact .ret he hi

theorem block_compile_lays : (ss : List Stmt) → {b b' : Builder} →
    Yields (compileBlock ss) b () b' → Lays b b' (blockSlots ss) fun c => BlockPlaced c ss
  | [], b, b', h => by
    simp only [compileBlock, yields_pure, true_and] at h
    subst h
    exact ⟨.refl b, fun c _ => .nil⟩
  | s :: ss, b, b', h => by
    simp only [compileBlock, yields_bind] at h
    obtain ⟨⟨⟩, b₁, hs, hss⟩ := h
    refine ((s.compile_lays hs).seq (block_compile_lays ss hss)).mono ?_
    rintro c p q ⟨m, hm, hq⟩
    exact .cons hm hq

end

theorem closed_eq_ok {b : Builder} {f : String} {n : Nat} {body : Emit Unit} {c : Code} :
    closed b f n body = .ok c ↔
      ∃ b', Yields body b () b' ∧ (b'.emit .ret 0).finish f n = c := by
  have hr : (do body; instruction .ret 0 : Emit Unit).run.run b =
      (body >>= fun _ => instruction .ret 0).exec b := rfl
  unfold closed Yields
  rw [hr, exec_bind]
  cases body.exec b with
  | mk r b' =>
    cases r with
    | error e => simp
    | ok a =>
      change Except.ok _ = _ ↔ _
      simp

/-- Parameters get the first slots, in order, and none occurs twice. -/
theorem yields_parameters {f : String} {ps : List String} {b b' : Builder}
    (h : Yields (parameters f ps) b () b') :
    b' = { b with names := internAll b.names ps } ∧
      (b.names.toList.Nodup → (b.names.toList ++ ps).Nodup) := by
  induction ps generalizing b with
  | nil =>
    simp only [parameters, yields_pure, true_and] at h
    subst h
    simp
  | cons p ps ih =>
    simp only [parameters, yields_bind, yields_get] at h
    obtain ⟨_, _, ⟨rfl, rfl⟩, h⟩ := h
    split at h
    · simp at h
    · next hp =>
      simp only [yields_bind, yields_name] at h
      obtain ⟨i, b₁, hb, h⟩ := h
      obtain ⟨rfl, -⟩ := Prod.ext_iff.mp hb
      obtain ⟨rfl, hn⟩ := ih h
      refine ⟨rfl, fun hb => ?_⟩
      have hx : b.names.idxOf? p = none := by simpa using hp
      simpa [Builder.addName, intern, hx] using hn (intern_nodup p hb)

/-- The code consists of a block and the return behind it. -/
structure Code.Runs (c : Code) (body : List Stmt) (last : Nat) : Prop where
  placed : BlockPlaced c body 0 last
  ret : c.code[last]? = some ⟨.ret, 0⟩
  size : c.code.size = last + 1
  nodup : c.names.toList.Nodup

theorem Code.covers_finish (b : Builder) (f : String) (n : Nat) : (b.finish f n).Covers b 0 :=
  ⟨fun _ _ _ => rfl, List.prefix_rfl, List.prefix_rfl, List.prefix_rfl, List.prefix_rfl⟩

theorem Code.runs_of_yields {b b' : Builder} {body : List Stmt} (f : String) (n : Nat)
    (hp : b.position = 0) (hn : b.names.toList.Nodup) (h : Yields (compileBlock body) b () b') :
    ((b'.emit .ret 0).finish f n).Runs body b'.position := by
  have hl := block_compile_lays body h
  have hc := Code.covers_finish (b'.emit .ret 0) f n
  refine ⟨?_, hc.emitted (Nat.zero_le _), b'.position_emit .ret 0, ?_⟩
  · simpa [hp] using hl.placed _ (hp ▸ hc.of_grows (.emit b' .ret 0))
  · change b'.names.toList.Nodup
    rw [hl.grows.names]
    exact internAll_nodup _ hn

theorem Builder.withNames_eq (names : List String) :
    Builder.withNames names = { Builder.empty with names := internAll #[] names } := by
  have h (b : Builder) : names.foldl (fun b x => (b.addName x).1) b =
      { b with names := internAll b.names names } := by
    induction names generalizing b with
    | nil => rfl
    | cons x xs ih => exact ih _
  exact h .empty

/-- A script's code runs its statements, and its variables come after those that were there. -/
theorem Program.compileWith_runs {p : Program} {names : List String} {c : Code}
    (h : p.compileWith names = .ok c) :
    (∃ last, c.Runs p.body last) ∧
      c.names = internAll (internAll #[] names) (blockSlots p.body) := by
  obtain ⟨b', hb, rfl⟩ := closed_eq_ok.mp h
  rw [Builder.withNames_eq] at hb
  refine ⟨⟨_, Code.runs_of_yields _ _ rfl (internAll_nodup _ List.nodup_nil) hb⟩, ?_⟩
  exact (block_compile_lays p.body hb).grows.names

/-- A function's code runs its body, and its parameters have the first slots. -/
theorem Code.ofFunction_runs {f : String} {params : List String} {body : List Stmt} {c : Code}
    (h : Code.ofFunction f params body = .ok c) :
    (∃ last, c.Runs body last) ∧ c.name = f ∧ c.argCount = params.length ∧
      params <+: c.names.toList := by
  obtain ⟨b', hb, rfl⟩ := closed_eq_ok.mp h
  obtain ⟨⟨⟩, b₁, hp, hb⟩ := yields_bind.mp hb
  obtain ⟨rfl, hn⟩ := yields_parameters hp
  have hnames : (internAll Builder.empty.names params).toList = params :=
    internAll_of_nodup #[] (hn List.nodup_nil)
  refine ⟨⟨_, Code.runs_of_yields _ _ rfl (internAll_nodup _ List.nodup_nil) hb⟩, rfl, rfl, ?_⟩
  change params <+: b'.names.toList
  rw [(block_compile_lays body hb).grows.names]
  simpa [hnames] using internAll_extends (internAll Builder.empty.names params) (blockSlots body)

/-- Every parameter has a slot. -/
theorem Code.ofFunction_argCount_le {f : String} {params : List String} {body : List Stmt} {c : Code}
    (h : Code.ofFunction f params body = .ok c) : c.argCount ≤ c.names.size := by
  obtain ⟨-, -, hcount, hparams⟩ := Code.ofFunction_runs h
  simpa [hcount] using hparams.length_le

end Scriptlet
