import Scriptlet.Proofs.Bytecode.Placement

/-! What the arguments of a tree's instructions refer to, and the order in which its variables are
given slots. -/
namespace Scriptlet

/-- A part of a tree to which the argument of an instruction refers. -/
inductive Operand where
  | number (v : Number)
  | boolean (v : Bool)
  | text (s : String)
  | function (f : String) (params : List String) (body : List Stmt)
  | load (x : String)
  | assign (x : String)

/-- The variable that is read or set. -/
def Operand.mentioned? : Operand → Option String
  | load x | assign x => some x
  | _ => none

mutual

/-- The operands of the expression in the order of their instructions. Those inside a function are
not among them. -/
def Expr.operands : Expr → List Operand
  | .number v => [.number v]
  | .boolean v => [.boolean v]
  | .text s => [.text s]
  | .name x => [.load x]
  | .binary _ l r => l.operands ++ r.operands
  | .call f args => f.operands ++ argOperands args
  | .function f params body => [.function f params body, .assign f, .function f params body]

def argOperands : List Expr → List Operand
  | [] => []
  | e :: es => e.operands ++ argOperands es

end

mutual

def Stmt.operands : Stmt → List Operand
  | .expr e => e.operands
  | .assign x e => e.operands ++ [.assign x]
  | .branch test body | .loop test body => test.operands ++ blockOperands body
  | .ret none => []
  | .ret (some e) => e.operands

def blockOperands : List Stmt → List Operand
  | [] => []
  | s :: ss => s.operands ++ blockOperands ss

end

section Mentioned

mutual

theorem Expr.mentioned_operands : (e : Expr) → e.operands.filterMap Operand.mentioned? = e.slots
  | .number _ | .boolean _ | .text _ | .name _ | .function _ _ _ => rfl
  | .binary _ l r => by
    simp only [Expr.operands, Expr.slots, List.filterMap_append, l.mentioned_operands,
      r.mentioned_operands]
  | .call f args => by
    simp only [Expr.operands, Expr.slots, List.filterMap_append, f.mentioned_operands,
      mentioned_argOperands args]

theorem mentioned_argOperands : (es : List Expr) →
    (argOperands es).filterMap Operand.mentioned? = argSlots es
  | [] => rfl
  | e :: es => by
    simp only [argOperands, argSlots, List.filterMap_append, e.mentioned_operands,
      mentioned_argOperands es]

end

mutual

theorem Stmt.mentioned_operands : (s : Stmt) → s.operands.filterMap Operand.mentioned? = s.slots
  | .expr e | .ret (some e) => e.mentioned_operands
  | .ret none => rfl
  | .assign x e => by
    rw [Stmt.operands, Stmt.slots, List.filterMap_append, e.mentioned_operands]
    rfl
  | .branch test body | .loop test body => by
    simp only [Stmt.operands, Stmt.slots, List.filterMap_append, test.mentioned_operands,
      mentioned_blockOperands body]

theorem mentioned_blockOperands : (ss : List Stmt) →
    (blockOperands ss).filterMap Operand.mentioned? = blockSlots ss
  | [] => rfl
  | s :: ss => by
    simp only [blockOperands, blockSlots, List.filterMap_append, s.mentioned_operands,
      mentioned_blockOperands ss]

end
end Mentioned

/-- The argument refers to a constant or a variable. -/
def Instruction.hasOperand (i : Instruction) : Bool :=
  match i.op with
  | .loadNumber | .loadText | .loadBoolean | .loadFunction | .loadVar | .assign => true
  | _ => false

namespace Code

variable {c : Code}

/-- In `c` the argument of the instruction refers to the operand. -/
def Denotes (c : Code) (i : Instruction) : Operand → Prop
  | .number v => i.op = .loadNumber ∧ c.numbers[i.arg]? = some v
  | .boolean v => i.op = .loadBoolean ∧ i.arg = v.toNat
  | .text s => i.op = .loadText ∧ c.texts[i.arg]? = some s
  | .function f params body => i.op = .loadFunction ∧
      ∃ g, Code.ofFunction f params body = .ok g ∧ c.functions[i.arg]? = some g
  | .load x => i.op = .loadVar ∧ c.names[i.arg]? = some x
  | .assign x => i.op = .assign ∧ c.names[i.arg]? = some x

/-- The variable that an instruction reads or sets. -/
def mentioned? (c : Code) (i : Instruction) : Option String :=
  match i.op with
  | .loadVar | .assign => c.names[i.arg]?
  | _ => none

/-- The variables that the code reads or sets, in the order of its instructions. -/
def mentioned (c : Code) : List String := c.code.toList.filterMap c.mentioned?

theorem Denotes.mentioned? {i : Instruction} : {x : Operand} → c.Denotes i x →
    c.mentioned? i = x.mentioned?
  | .number _, h | .boolean _, h | .text _, h | .function _ _ _, h => by
    simp only [Code.mentioned?, h.1, Operand.mentioned?]
  | .load _, h | .assign _, h => by
    simp only [Code.mentioned?, h.1, h.2, Operand.mentioned?]

theorem mentioned?_of_plain {i : Instruction} (h : i.hasOperand = false) :
    c.mentioned? i = none := by
  obtain ⟨op, arg⟩ := i
  cases op <;> first | rfl | cases h

/-- The instructions from `p` up to `q`. -/
def between (c : Code) (p q : Nat) : List Instruction := (c.code.extract p q).toList

theorem between_append {p m q : Nat} (hp : p ≤ m) (hq : m ≤ q) :
    c.between p q = c.between p m ++ c.between m q := by
  unfold between
  rw [← Array.toList_append, Array.extract_append_extract, min_eq_left hp, max_eq_right hq]

theorem between_single {p : Nat} {i : Instruction} (h : c.code[p]? = some i) :
    c.between p (p + 1) = [i] := by
  obtain ⟨hp, rfl⟩ := Array.getElem?_eq_some_iff.mp h
  have hp' : p < c.code.toList.length := by simpa using hp
  simp [between, List.drop_eq_getElem_cons hp']

/-- The arguments of the instructions from `p` up to `q` refer to the operands, in order. -/
structure Spells (c : Code) (p q : Nat) (xs : List Operand) : Prop where
  le : p ≤ q
  denotes : List.Forall₂ c.Denotes ((c.between p q).filter Instruction.hasOperand) xs

namespace Spells

variable {p m q : Nat} {i : Instruction} {xs ys : List Operand}

theorem nil : c.Spells p p [] := ⟨le_rfl, by simp [between]⟩

theorem append (h : c.Spells p m xs) (h' : c.Spells m q ys) : c.Spells p q (xs ++ ys) := by
  refine ⟨h.le.trans h'.le, ?_⟩
  rw [between_append h.le h'.le, List.filter_append]
  exact List.rel_append h.denotes h'.denotes

theorem operand {x : Operand} (hi : c.code[p]? = some i) (hop : i.hasOperand = true)
    (hx : c.Denotes i x) : c.Spells p (p + 1) [x] := by
  refine ⟨Nat.le_succ p, ?_⟩
  rw [between_single hi, List.filter_cons_of_pos hop]
  exact .cons hx .nil

/-- An instruction without operand. -/
theorem andThen (h : c.Spells p q xs) (hi : c.code[q]? = some i) (hop : i.hasOperand = false) :
    c.Spells p (q + 1) xs := by
  have hplain : c.Spells q (q + 1) [] := by
    refine ⟨Nat.le_succ q, ?_⟩
    rw [between_single hi, List.filter_cons_of_neg (by simp [hop])]
    exact .nil
  simpa using h.append hplain

end Spells
end Code

section Placed
variable {c : Code}

mutual

theorem Expr.Placed.spells : (e : Expr) → {p q : Nat} → e.Placed c p q → c.Spells p q e.operands
  | .number _, _, _, .number code pool => .operand code rfl ⟨rfl, pool⟩
  | .boolean _, _, _, .boolean code => .operand code rfl ⟨rfl, rfl⟩
  | .text _, _, _, .text code pool => .operand code rfl ⟨rfl, pool⟩
  | .name _, _, _, .name code pool => .operand code rfl ⟨rfl, pool⟩
  | .binary _ l r, _, _, .binary left right code =>
    ((Expr.Placed.spells l left).append (Expr.Placed.spells r right)).andThen code rfl
  | .call f args, _, _, .call callee list code =>
    ((Expr.Placed.spells f callee).append (ArgsPlaced.spells args list)).andThen code rfl
  | .function f params body, _, _, .function compiled pool slot load bind reload =>
    have hload := .operand (x := .function f params body) load rfl ⟨rfl, _, compiled, pool⟩
    have hbind := .operand (x := .assign f) bind rfl ⟨rfl, slot⟩
    have hreload := .operand (x := .function f params body) reload rfl ⟨rfl, _, compiled, pool⟩
    Code.Spells.append hload (.append hbind hreload)

theorem ArgsPlaced.spells : (es : List Expr) → {p q : Nat} → ArgsPlaced c es p q →
    c.Spells p q (argOperands es)
  | [], _, _, .nil => .nil
  | e :: es, _, _, .cons head tail => (Expr.Placed.spells e head).append (ArgsPlaced.spells es tail)

end

mutual

theorem Stmt.Placed.spells : (s : Stmt) → {p q : Nat} → s.Placed c p q → c.Spells p q s.operands
  | .expr e, _, _, .expr value code => (Expr.Placed.spells e value).andThen code rfl
  | .assign _ e, _, _, .assign value code pool =>
    (Expr.Placed.spells e value).append (.operand code rfl ⟨rfl, pool⟩)
  | .branch test body, _, _, .branch value code inner =>
    ((Expr.Placed.spells test value).andThen code rfl).append (BlockPlaced.spells body inner)
  | .loop test body, _, _, .loop value code inner back =>
    (((Expr.Placed.spells test value).andThen code rfl).append
      (BlockPlaced.spells body inner)).andThen back rfl
  | .ret none, _, _, .leave code => Code.Spells.nil.andThen code rfl
  | .ret (some e), _, _, .ret value code => (Expr.Placed.spells e value).andThen code rfl

theorem BlockPlaced.spells : (ss : List Stmt) → {p q : Nat} → BlockPlaced c ss p q →
    c.Spells p q (blockOperands ss)
  | [], _, _, .nil => .nil
  | s :: ss, _, _, .cons head tail =>
    (Stmt.Placed.spells s head).append (BlockPlaced.spells ss tail)

end

/-- Every argument in the code refers to the part of the body for which its instruction stands. -/
theorem Code.Runs.denotes {body : List Stmt} {last : Nat} (h : c.Runs body last) :
    List.Forall₂ c.Denotes (c.code.toList.filter Instruction.hasOperand) (blockOperands body) := by
  have hall := ((BlockPlaced.spells body h.placed).andThen h.ret rfl).denotes
  rw [← h.size] at hall
  simpa [Code.between] using hall

theorem Code.filterMap_mentioned? {is : List Instruction} {xs : List Operand}
    (h : List.Forall₂ c.Denotes (is.filter Instruction.hasOperand) xs) :
    is.filterMap c.mentioned? = xs.filterMap Operand.mentioned? := by
  have hplain : is.filterMap c.mentioned? =
      (is.filter Instruction.hasOperand).filterMap c.mentioned? := by
    rw [List.filterMap_filter]
    refine List.filterMap_congr fun i _ => ?_
    cases hi : i.hasOperand with
    | true => rfl
    | false => exact mentioned?_of_plain hi
  rw [hplain]
  generalize is.filter Instruction.hasOperand = js at h
  induction h with
  | nil => rfl
  | cons hx _ ih => simp only [List.filterMap_cons, hx.mentioned?, ih]

theorem Code.Runs.mentioned {body : List Stmt} {last : Nat} (h : c.Runs body last) :
    c.mentioned = blockSlots body := by
  rw [Code.mentioned, Code.filterMap_mentioned? h.denotes, mentioned_blockOperands]

end Placed

/-- Names that were not there yet are added in the order in which they first occur. -/
theorem internAll_eq (names : Array String) (xs : List String) :
    (internAll names xs).toList =
      names.toList ++ (xs.filter fun x => x ∉ names.toList).eraseDups := by
  induction xs generalizing names with
  | nil => simp
  | cons x xs ih =>
    change (internAll (intern names x).1 xs).toList = _
    rw [ih]
    cases hi : names.idxOf? x with
    | some i =>
      have hx : x ∈ names.toList := by simpa using Array.mem_of_getElem? (getElem?_of_idxOf? hi)
      have hsame : (intern names x).1 = names := by simp [intern, hi]
      rw [hsame, List.filter_cons_of_neg (by simpa using hx)]
    | none =>
      have hx : x ∉ names.toList := by simpa using hi
      have hnew : (intern names x).1.toList = names.toList ++ [x] := by simp [intern, hi]
      have hrest : (xs.filter fun y => y ∉ names.toList ++ [x]) =
          (xs.filter fun y => y ∉ names.toList).filter fun y => !y == x := by
        rw [List.filter_filter]
        exact List.filter_congr fun y _ => by simp [Bool.and_comm, Bool.beq_eq_decide_eq]
      rw [hnew, hrest, List.filter_cons_of_pos (by simpa using hx), List.eraseDups_cons,
        List.append_assoc, List.singleton_append]

/-- A function's parameters have the first slots, and its other variables come behind them in the
order in which they first occur. -/
theorem Code.ofFunction_names {f : String} {params : List String} {body : List Stmt} {c : Code}
    (h : Code.ofFunction f params body = .ok c) :
    c.names.toList = params ++ ((blockSlots body).filter fun x => x ∉ params).eraseDups := by
  obtain ⟨b', hb, rfl⟩ := closed_eq_ok.mp h
  obtain ⟨⟨⟩, b₁, hp, hb⟩ := Emit.yields_bind.mp hb
  obtain ⟨rfl, hn⟩ := yields_parameters hp
  have hnames : (internAll Builder.empty.names params).toList = params :=
    internAll_of_nodup #[] (hn List.nodup_nil)
  change b'.names.toList = _
  rw [(block_compile_lays body hb).grows.names, internAll_eq, hnames]

end Scriptlet
