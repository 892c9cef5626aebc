import Scriptlet.Proofs.Bytecode.Acceptance
import Scriptlet.Proofs.Bytecode.Heights

/-! Statements compiled at another place, among other constants: the instructions differ in nothing
but their numbers. -/
namespace Scriptlet

/-- `i'` does in `c'` what `i` does in `c`, `k` places further on. -/
def Instruction.Moved (k : Nat) (c c' : Code) (i i' : Instruction) : Prop :=
  i'.op = i.op ∧
    match i.op with
    | .loadNumber => c'.numbers[i'.arg]? = c.numbers[i.arg]?
    | .loadText => c'.texts[i'.arg]? = c.texts[i.arg]?
    | .loadFunction => c'.functions[i'.arg]? = c.functions[i.arg]?
    | .loadVar => i'.arg = i.arg ∧ c'.names[i.arg]? = c.names[i.arg]?
    | .jump | .jumpIfFalse => i'.arg = k + i.arg
    | .loadBoolean | .assign | .discard | .binary _ | .call | .ret => i'.arg = i.arg

theorem Instruction.Moved.refl (c : Code) (i : Instruction) : i.Moved 0 c c i := by
  obtain ⟨op, arg⟩ := i
  cases op <;> simp [Moved]

/-- What stands at `pc` in `c` stands `k` places further on in `c'`. -/
def Code.MovedAt (k : Nat) (c c' : Code) (pc : Nat) : Prop :=
  ∃ i i', c.code[pc]? = some i ∧ c'.code[k + pc]? = some i' ∧ i.Moved k c c' i'

section Moved
variable {k : Nat} {c c' : Code}

mutual

/-- Where both codes give variables the same slots, an expression has the same instructions. -/
theorem Expr.Placed.moved (hn : c'.names = c.names) (hd : c.names.toList.Nodup) :
    (e : Expr) → {p q q' : Nat} → e.Placed c p q → e.Placed c' (k + p) q' →
    q' = k + q ∧ Between p q (Code.MovedAt k c c')
  | .number _, _, _, _, .number code pool, .number code' pool' =>
    ⟨rfl, .single ⟨_, _, code, code', rfl, pool'.trans pool.symm⟩⟩
  | .boolean _, _, _, _, .boolean code, .boolean code' =>
    ⟨rfl, .single ⟨_, _, code, code', rfl, rfl⟩⟩
  | .text _, _, _, _, .text code pool, .text code' pool' =>
    ⟨rfl, .single ⟨_, _, code, code', rfl, pool'.trans pool.symm⟩⟩
  | .name _, _, _, _, .name code pool, .name code' pool' => by
    rw [hn] at pool'
    obtain rfl := getElem?_unique hd pool pool'
    exact ⟨rfl, .single ⟨_, _, code, code', rfl, rfl, by rw [hn]⟩⟩
  | .binary _ l r, _, _, _, .binary left right code, .binary left' right' code' => by
    obtain ⟨rfl, hl⟩ := Expr.Placed.moved hn hd l left left'
    obtain ⟨rfl, hr⟩ := Expr.Placed.moved hn hd r right right'
    exact ⟨rfl, (hl.append hr).snoc ⟨_, _, code, code', rfl, rfl⟩⟩
  | .call f args, _, _, _, .call callee list code, .call callee' list' code' => by
    obtain ⟨rfl, hf⟩ := Expr.Placed.moved hn hd f callee callee'
    obtain ⟨rfl, ha⟩ := ArgsPlaced.moved hn hd args list list'
    exact ⟨rfl, (hf.append ha).snoc ⟨_, _, code, code', rfl, rfl⟩⟩
  | .function _ _ _, _, _, _, .function compiled pool slot load bind reload,
      .function compiled' pool' slot' load' bind' reload' => by
    rw [hn] at slot'
    obtain rfl := getElem?_unique hd slot slot'
    rw [compiled, Except.ok.injEq] at compiled'
    subst compiled'
    have hpool := pool'.trans pool.symm
    refine ⟨rfl, .snoc (.snoc (.single ⟨_, _, load, load', rfl, hpool⟩) ?_) ?_⟩
    · exact ⟨_, _, bind, bind', rfl, rfl⟩
    · exact ⟨_, _, reload, reload', rfl, hpool⟩

theorem ArgsPlaced.moved (hn : c'.names = c.names) (hd : c.names.toList.Nodup) :
    (es : List Expr) → {p q q' : Nat} → ArgsPlaced c es p q → ArgsPlaced c' es (k + p) q' →
    q' = k + q ∧ Between p q (Code.MovedAt k c c')
  | [], _, _, _, .nil, .nil => ⟨rfl, .empty⟩
  | e :: es, _, _, _, .cons head tail, .cons head' tail' => by
    obtain ⟨rfl, he⟩ := Expr.Placed.moved hn hd e head head'
    obtain ⟨rfl, hes⟩ := ArgsPlaced.moved hn hd es tail tail'
    exact ⟨rfl, he.append hes⟩

end

mutual

theorem Stmt.Placed.moved (hn : c'.names = c.names) (hd : c.names.toList.Nodup) :
    (s : Stmt) → {p q q' : Nat} → s.Placed c p q → s.Placed c' (k + p) q' →
    q' = k + q ∧ Between p q (Code.MovedAt k c c')
  | .expr e, _, _, _, .expr value code, .expr value' code' => by
    obtain ⟨rfl, he⟩ := Expr.Placed.moved hn hd e value value'
    exact ⟨rfl, he.snoc ⟨_, _, code, code', rfl, rfl⟩⟩
  | .assign _ e, _, _, _, .assign value code pool, .assign value' code' pool' => by
    obtain ⟨rfl, he⟩ := Expr.Placed.moved hn hd e value value'
    rw [hn] at pool'
    obtain rfl := getElem?_unique hd pool pool'
    exact ⟨rfl, he.snoc ⟨_, _, code, code', rfl, rfl⟩⟩
  | .branch test body, _, _, _, .branch value code inner, .branch value' code' inner' => by
    obtain ⟨rfl, ht⟩ := Expr.Placed.moved hn hd test value value'
    obtain ⟨rfl, hb⟩ := BlockPlaced.moved hn hd body inner inner'
    exact ⟨rfl, (ht.snoc ⟨_, _, code, code', rfl, rfl⟩).append hb⟩
  | .loop test body, _, _, _, .loop value code inner back, .loop value' code' inner' back' => by
    obtain ⟨rfl, ht⟩ := Expr.Placed.moved hn hd test value value'
    obtain ⟨rfl, hb⟩ := BlockPlaced.moved hn hd body inner inner'
    refine ⟨rfl, .snoc (.append (ht.snoc ⟨_, _, code, code', rfl, rfl⟩) hb) ?_⟩
    exact ⟨_, _, back, back', rfl, rfl⟩
  | .ret none, _, _, _, .leave code, .leave code' => ⟨rfl, .single ⟨_, _, code, code', rfl, rfl⟩⟩
  | .ret (some e), _, _, _, .ret value code, .ret value' code' => by
    obtain ⟨rfl, he⟩ := Expr.Placed.moved hn hd e value value'
    exact ⟨rfl, he.snoc ⟨_, _, code, code', rfl, rfl⟩⟩

theorem BlockPlaced.moved (hn : c'.names = c.names) (hd : c.names.toList.Nodup) :
    (ss : List Stmt) → {p q q' : Nat} → BlockPlaced c ss p q → BlockPlaced c' ss (k + p) q' →
    q' = k + q ∧ Between p q (Code.MovedAt k c c')
  | [], _, _, _, .nil, .nil => ⟨rfl, .empty⟩
  | s :: ss, _, _, _, .cons head tail, .cons head' tail' => by
    obtain ⟨rfl, hs⟩ := Stmt.Placed.moved hn hd s head head'
    obtain ⟨rfl, hss⟩ := BlockPlaced.moved hn hd ss tail tail'
    exact ⟨rfl, hs.append hss⟩

end
end Moved

theorem BlockPlaced.split {c : Code} {ts : List Stmt} {q : Nat} : {ss : List Stmt} → {p : Nat} →
    BlockPlaced c (ss ++ ts) p q → ∃ m, BlockPlaced c ss p m ∧ BlockPlaced c ts m q
  | [], p, h => ⟨p, .nil, h⟩
  | _ :: _, _, .cons head tail => by
    obtain ⟨m, hss, hts⟩ := BlockPlaced.split tail
    exact ⟨m, .cons head hss, hts⟩

theorem blockSlots_append (ss ts : List Stmt) :
    blockSlots (ss ++ ts) = blockSlots ss ++ blockSlots ts := by
  induction ss with
  | nil => rfl
  | cons s ss ih => simp [blockSlots, ih]

open Emit

theorem yields_compileBlock_append {ss ts : List Stmt} {b b' : Builder} :
    Yields (compileBlock (ss ++ ts)) b () b' ↔
      ∃ b₁, Yields (compileBlock ss) b () b₁ ∧ Yields (compileBlock ts) b₁ () b' := by
  induction ss generalizing b with
  | nil => simp [compileBlock]
  | cons s ss ih =>
    simp only [List.cons_append, compileBlock, yields_bind, ih]
    constructor
    · rintro ⟨⟨⟩, b₁, hs, b₂, hss, hts⟩
      exact ⟨b₂, ⟨(), b₁, hs, hss⟩, hts⟩
    · rintro ⟨b₂, ⟨⟨⟩, b₁, hs, hss⟩, hts⟩
      exact ⟨(), b₁, hs, b₂, hss, hts⟩

/-- Code `c` has the instructions of `c₁` up to its last one, and then those of `c₂`. -/
structure Code.Joins (c₁ c₂ c : Code) (mid : Nat) : Prop where
  size : c₁.code.size = mid + 1
  ret : c₁.code[mid]? = some ⟨.ret, 0⟩
  name : c.name = c₁.name
  same : ∀ pc < mid, c.code[pc]? = c₁.code[pc]?
  first : ∀ pc < mid, c₁.MovedAt 0 c pc
  second : ∀ pc < c₂.code.size, c₂.MovedAt mid c pc
  total : c.code.size = mid + c₂.code.size
  layout : c₁.names.toList <+: c₂.names.toList
  names : c.names = c₂.names

section Items
variable {α : Type} {i : Nat}

theorem getElem?_eq_of_isPrefix {xs ys : List α} (h : xs <+: ys) (hi : i < xs.length) :
    ys[i]? = xs[i]? := by
  rw [List.getElem?_eq_getElem hi]
  exact getElem?_of_isPrefix h (List.getElem?_eq_getElem hi)

theorem arrayGetElem?_eq_of_isPrefix {xs ys : Array α} (h : xs.toList <+: ys.toList)
    (hi : i < xs.size) : ys[i]? = xs[i]? := by
  rw [Array.getElem?_eq_getElem hi]
  exact arrayGetElem?_of_isPrefix h (Array.getElem?_eq_getElem hi)

end Items

/-- All code with the contents of `b` has its instructions, with the same meaning. -/
theorem Code.Covers.movedAt {b : Builder} {c : Code} (h : c.Covers b 0) {f : String} {n pc : Nat}
    (hv : ((b.emit .ret 0).finish f n).Valid) (hpc : pc < b.position) :
    c.code[pc]? = ((b.emit .ret 0).finish f n).code[pc]? ∧
      ((b.emit .ret 0).finish f n).MovedAt 0 c pc := by
  have h₁ : ((b.emit .ret 0).finish f n).Covers b 0 :=
    (Code.covers_finish (b.emit .ret 0) f n).of_grows (.emit b .ret 0)
  have hsame := (h.code pc (Nat.zero_le pc) hpc).trans (h₁.code pc (Nat.zero_le pc) hpc).symm
  refine ⟨hsame, ?_⟩
  have hi := h₁.code pc (Nat.zero_le pc) hpc
  have hb : b.code[pc]? = some b.code[pc] := Array.getElem?_eq_getElem hpc
  rw [hb] at hi
  obtain ⟨hc, -, -⟩ := hv
  have hr := hc.inRange hi
  generalize b.code[pc] = i at hi hr
  refine ⟨i, i, hi, by rw [Nat.zero_add, hsame, hi], rfl, ?_⟩
  obtain ⟨op, arg⟩ := i
  cases op with
  | loadNumber => exact arrayGetElem?_eq_of_isPrefix h.numbers hr
  | loadText => exact arrayGetElem?_eq_of_isPrefix h.texts hr
  | loadFunction => exact getElem?_eq_of_isPrefix h.functions hr
  | loadVar => exact ⟨rfl, arrayGetElem?_eq_of_isPrefix h.names hr⟩
  | jump | jumpIfFalse => exact (Nat.zero_add arg).symm
  | _ => rfl

/-- The first of two scripts compiled as one has the instructions that it has alone. -/
theorem Program.compileWith_append_first {p₁ p₂ : Program} {names : List String} {c₁ c : Code}
    (h₁ : p₁.compileWith names = .ok c₁)
    (h : Program.compileWith names ⟨p₁.body ++ p₂.body⟩ = .ok c) {last pc : Nat}
    (hr : c₁.Runs p₁.body last) (hpc : pc < last) :
    c.code[pc]? = c₁.code[pc]? ∧ c₁.MovedAt 0 c pc := by
  have hv := Program.compileWith_valid h₁
  obtain ⟨b₁, hb₁, rfl⟩ := closed_eq_ok.mp h₁
  obtain ⟨b, hb, rfl⟩ := closed_eq_ok.mp h
  obtain ⟨b₁', hb₁', hb₂⟩ := yields_compileBlock_append.mp hb
  obtain rfl : b₁ = b₁' := congrArg Prod.snd (hb₁.symm.trans hb₁')
  have hcov := ((Code.covers_finish (b.emit .ret 0) Code.mainName 0).of_grows (.emit b .ret 0)).of_grows
    (block_compile_lays p₂.body hb₂).grows
  have hlast : last = b₁.position := by
    have hsize := hr.size
    have hemit : ((b₁.emit .ret 0).finish Code.mainName 0).code.size = b₁.position + 1 :=
      b₁.position_emit .ret 0
    omega
  exact hcov.movedAt hv (hlast ▸ hpc)

/-- Two scripts compiled as one, and one after the other with the variables of the first. -/
theorem Program.compileWith_joins {p₁ p₂ : Program} {names : List String} {c₁ c₂ c : Code}
    (h₁ : p₁.compileWith names = .ok c₁) (h₂ : p₂.compileWith c₁.names.toList = .ok c₂)
    (h : Program.compileWith names ⟨p₁.body ++ p₂.body⟩ = .ok c) :
    ∃ mid, Code.Joins c₁ c₂ c mid := by
  obtain ⟨⟨last₂, runs₂⟩, names₂⟩ := Program.compileWith_runs h₂
  obtain ⟨⟨last₁, runs₁⟩, names₁⟩ := Program.compileWith_runs h₁
  obtain ⟨⟨last, runs⟩, names⟩ := Program.compileWith_runs h
  have hkeep : internAll #[] c₁.names.toList = c₁.names := by
    have hnodup : ((#[] : Array String).toList ++ c₁.names.toList).Nodup := runs₁.nodup
    exact Array.toList_inj.mp (internAll_of_nodup #[] hnodup)
  rw [hkeep] at names₂
  have hnames : c.names = c₂.names := by
    rw [names, names₂, names₁, blockSlots_append, internAll_append]
  obtain ⟨mid, hfirst, hsecond⟩ := runs.placed.split
  obtain rfl : mid = last₁ := by
    rw [BlockPlaced.length p₁.body hfirst, ← BlockPlaced.length p₁.body runs₁.placed]
  obtain ⟨rfl, hmoved⟩ := BlockPlaced.moved (k := mid) hnames runs₂.nodup p₂.body runs₂.placed hsecond
  refine ⟨mid, runs₁.size, runs₁.ret, ?_, fun pc hpc => ?_, fun pc hpc => ?_, fun pc hpc => ?_, ?_,
    ?_, hnames⟩
  · obtain ⟨_, -, rfl⟩ := closed_eq_ok.mp h₁
    obtain ⟨_, -, rfl⟩ := closed_eq_ok.mp h
    rfl
  · exact (Program.compileWith_append_first h₁ h runs₁ hpc).1
  · exact (Program.compileWith_append_first h₁ h runs₁ hpc).2
  · rw [runs₂.size] at hpc
    exact hmoved.snoc ⟨_, _, runs₂.ret, runs.ret, rfl, rfl⟩ pc (Nat.zero_le pc) hpc
  · rw [runs.size, runs₂.size]
    omega
  · rw [names₂]
    exact internAll_extends c₁.names (blockSlots p₂.body)

end Scriptlet
