import Scriptlet.Proofs.Bytecode.Placement

/-! How many values lie on the stack before each instruction, and what that makes of compiled code:
every instruction finds its constants, its variables and its operands. -/
namespace Scriptlet

/-- What an instruction asks of its code, with `n` values on the stack, where `hs` are the heights
of the stack at all places and `next` is the place behind the instruction. -/
def Instruction.Fits (c : Code) (hs : List Nat) (next n : Nat) (i : Instruction) : Prop :=
  match i.op with
  | .loadNumber => i.arg < c.numbers.size ∧ hs[next]? = some (n + 1)
  | .loadText => i.arg < c.texts.size ∧ hs[next]? = some (n + 1)
  | .loadBoolean => hs[next]? = some (n + 1)
  | .loadFunction => i.arg < c.functions.length ∧ hs[next]? = some (n + 1)
  | .loadVar => i.arg < c.names.size ∧ hs[next]? = some (n + 1)
  | .assign => i.arg < c.names.size ∧ ∃ k, n = k + 1 ∧ hs[next]? = some k
  | .discard => ∃ k, n = k + 1 ∧ hs[next]? = some k
  | .jumpIfFalse => ∃ k, n = k + 1 ∧ hs[next]? = some k ∧ hs[i.arg]? = some k
  | .jump => hs[i.arg]? = some n
  | .binary _ => ∃ k, n = k + 2 ∧ hs[next]? = some (k + 1)
  | .call => ∃ k, n = k + 1 + i.arg ∧ hs[next]? = some (k + 1)
  | .ret => n = if i.arg = 0 then 0 else 1

/-- The heights are right for the code: each instruction has one and fits it, and the first one
finds an empty stack. -/
structure Code.Checked (c : Code) (hs : List Nat) : Prop where
  size : hs.length = c.code.size
  entry : hs[0]? = some 0
  fits : ∀ {i n : Nat}, hs[i]? = some n → ∃ x, c.code[i]? = some x ∧ x.Fits c hs (i + 1) n

/-- Code that never goes wrong by itself, and whose functions do not either. -/
inductive Code.Valid : Code → Prop
  | intro {c : Code} {hs : List Nat} (checked : c.Checked hs) (params : c.argCount ≤ c.names.size)
      (inner : ∀ {i k : Nat} {g : Code}, c.code[i]? = some ⟨.loadFunction, k⟩ →
        c.functions[k]? = some g → Valid g) : Valid c

/-- The constants, variables and targets that the instruction names are there. -/
def Instruction.InRange (c : Code) (i : Instruction) : Prop :=
  match i.op with
  | .loadNumber => i.arg < c.numbers.size
  | .loadText => i.arg < c.texts.size
  | .loadFunction => i.arg < c.functions.length
  | .loadVar | .assign => i.arg < c.names.size
  | .jump | .jumpIfFalse => i.arg < c.code.size
  | .loadBoolean | .discard | .binary _ | .call | .ret => True

/-- How many values the instruction takes from the stack. -/
def Instruction.operands (i : Instruction) : Nat :=
  match i.op with
  | .loadNumber | .loadText | .loadBoolean | .loadFunction | .loadVar | .jump => 0
  | .assign | .discard | .jumpIfFalse => 1
  | .binary _ => 2
  | .call => i.arg + 1
  | .ret => if i.arg = 0 then 0 else 1

theorem Instruction.Fits.operands_le {c : Code} {hs : List Nat} {next n : Nat} {i : Instruction}
    (hf : i.Fits c hs next n) : i.operands ≤ n := by
  obtain ⟨op, arg⟩ := i
  cases op with
  | assign | discard | jumpIfFalse | binary | call =>
    simp only [Instruction.Fits, Instruction.operands] at hf ⊢
    grind
  | ret => exact Nat.le_of_eq hf.symm
  | _ => exact Nat.zero_le n

namespace Code.Checked

variable {c : Code} {hs : List Nat} {n pc : Nat} {i : Instruction}

theorem lt_size {q : Nat} (h : c.Checked hs) (hq : hs[q]? = some n) : q < c.code.size := by
  rw [← h.size]
  exact (List.getElem?_eq_some_iff.mp hq).1

/-- Every instruction has a height. -/
theorem before (h : c.Checked hs) (hi : c.code[pc]? = some i) :
    ∃ n, hs[pc]? = some n ∧ i.Fits c hs (pc + 1) n := by
  have hpc := lt_size_of_getElem? hi
  rw [← h.size] at hpc
  obtain ⟨x, hx, hf⟩ := h.fits (List.getElem?_eq_getElem hpc)
  obtain rfl : i = x := Option.some.inj (hi.symm.trans hx)
  exact ⟨_, List.getElem?_eq_getElem hpc, hf⟩

theorem inRange (h : c.Checked hs) (hi : c.code[pc]? = some i) : i.InRange c := by
  obtain ⟨n, -, hf⟩ := h.before hi
  obtain ⟨op, arg⟩ := i
  cases op with
  | loadNumber | loadText | loadFunction | loadVar | assign => exact hf.1
  | jump => exact h.lt_size hf
  | jumpIfFalse =>
    obtain ⟨k, -, -, hk⟩ := hf
    exact h.lt_size hk
  | _ => trivial

end Code.Checked

mutual

/-- The heights of the stack before each instruction of an expression, begun at height `n`. -/
def Expr.heights : Expr → Nat → List Nat
  | .number _, n | .boolean _, n | .text _, n | .name _, n => [n]
  | .binary _ l r, n => l.heights n ++ (r.heights (n + 1) ++ [n + 2])
  | .call f args, n => f.heights n ++ (argHeights args (n + 1) ++ [n + 1 + args.length])
  | .function _ _ _, n => [n, n + 1, n]

def argHeights : List Expr → Nat → List Nat
  | [], _ => []
  | e :: es, n => e.heights n ++ argHeights es (n + 1)

end

mutual

/-- The heights of the stack before each instruction of a statement. -/
def Stmt.heights : Stmt → List Nat
  | .expr e | .assign _ e | .ret (some e) => e.heights 0 ++ [1]
  | .branch test body => test.heights 0 ++ 1 :: blockHeights body
  | .loop test body => test.heights 0 ++ 1 :: (blockHeights body ++ [0])
  | .ret none => [0]

def blockHeights : List Stmt → List Nat
  | [] => []
  | s :: ss => s.heights ++ blockHeights ss

end

/-- The list `xs` lies in `hs` from place `p` on. -/
def Along (hs : List Nat) (p : Nat) (xs : List Nat) : Prop := xs <+: hs.drop p

section Along
variable {hs xs ys : List Nat} {p n : Nat}

theorem along_append : Along hs p (xs ++ ys) ↔ Along hs p xs ∧ Along hs (p + xs.length) ys := by
  unfold Along
  constructor
  · rintro ⟨zs, h⟩
    refine ⟨⟨ys ++ zs, by rw [← h, List.append_assoc]⟩, zs, ?_⟩
    rw [← List.drop_drop, ← h, List.append_assoc, List.drop_left]
  · rintro ⟨⟨us, hu⟩, vs, hv⟩
    refine ⟨vs, ?_⟩
    rw [← List.drop_drop, ← hu, List.drop_left] at hv
    rw [List.append_assoc, hv, hu]

theorem along_cons : Along hs p (n :: xs) ↔ hs[p]? = some n ∧ Along hs (p + 1) xs := by
  rw [← List.singleton_append, along_append]
  refine and_congr_left fun _ => ?_
  rw [Along, List.singleton_prefix_iff_head?_eq_some, List.head?_drop]

end Along

section Length
variable {c : Code}

mutual

theorem Expr.Placed.length : (e : Expr) → {p q : Nat} → (n : Nat) → e.Placed c p q →
    q = p + (e.heights n).length
  | .number _, _, _, _, .number .. | .boolean _, _, _, _, .boolean .. | .text _, _, _, _, .text ..
  | .name _, _, _, _, .name .. | .function _ _ _, _, _, _, .function .. => rfl
  | .binary _ l r, _, _, n, .binary left right _ => by
    have hl := Expr.Placed.length l n left
    have hr := Expr.Placed.length r (n + 1) right
    simp only [Expr.heights, List.length_append, List.length_singleton]
    omega
  | .call f args, _, _, n, .call callee list _ => by
    have hf := Expr.Placed.length f n callee
    have ha := ArgsPlaced.length args (n + 1) list
    simp only [Expr.heights, List.length_append, List.length_singleton]
    omega

theorem ArgsPlaced.length : (es : List Expr) → {p q : Nat} → (n : Nat) → ArgsPlaced c es p q →
    q = p + (argHeights es n).length
  | [], _, _, _, .nil => rfl
  | e :: es, _, _, n, .cons head tail => by
    have he := Expr.Placed.length e n head
    have hes := ArgsPlaced.length es (n + 1) tail
    simp only [argHeights, List.length_append]
    omega

end

mutual

theorem Stmt.Placed.length : (s : Stmt) → {p q : Nat} → s.Placed c p q → q = p + s.heights.length
  | .expr e, _, _, .expr value _ | .assign _ e, _, _, .assign value _ _
  | .ret (some e), _, _, .ret value _ => by
    have he := Expr.Placed.length e 0 value
    simp only [Stmt.heights, List.length_append, List.length_cons, List.length_nil]
    omega
  | .branch test body, _, _, .branch value _ inner => by
    have ht := Expr.Placed.length test 0 value
    have hb := BlockPlaced.length body inner
    simp only [Stmt.heights, List.length_append, List.length_cons]
    omega
  | .loop test body, _, _, .loop value _ inner _ => by
    have ht := Expr.Placed.length test 0 value
    have hb := BlockPlaced.length body inner
    simp only [Stmt.heights, List.length_append, List.length_cons, List.length_nil]
    omega
  | .ret none, _, _, .leave _ => rfl

theorem BlockPlaced.length : (ss : List Stmt) → {p q : Nat} → BlockPlaced c ss p q →
    q = p + (blockHeights ss).length
  | [], _, _, .nil => rfl
  | s :: ss, _, _, .cons head tail => by
    have hs := Stmt.Placed.length s head
    have hss := BlockPlaced.length ss tail
    simp only [blockHeights, List.length_append]
    omega

end
end Length

/-- There is an instruction at place `i`, it fits, and if it makes a function, that is valid. -/
def Code.FitsAt (c : Code) (hs : List Nat) (i : Nat) : Prop :=
  ∃ x n, c.code[i]? = some x ∧ hs[i]? = some n ∧ x.Fits c hs (i + 1) n ∧
    ∀ k g, x = ⟨.loadFunction, k⟩ → c.functions[k]? = some g → g.Valid

/-- An instruction that does not make a function. -/
theorem Code.fitsAt_of_ne {c : Code} {hs : List Nat} {i n : Nat} {x : Instruction}
    (hc : c.code[i]? = some x) (hn : hs[i]? = some n) (hf : x.Fits c hs (i + 1) n)
    (hx : x.op ≠ .loadFunction) : c.FitsAt hs i :=
  ⟨x, n, hc, hn, hf, fun _ _ hk => absurd (congrArg Instruction.op hk) hx⟩

section Fits
variable {c : Code} {hs : List Nat}

theorem Expr.Placed.along {e : Expr} {p q n : Nat} (h : e.Placed c p q) {xs : List Nat} :
    Along hs p (e.heights n ++ xs) ↔ Along hs p (e.heights n) ∧ Along hs q xs := by
  rw [along_append, ← Expr.Placed.length e n h]

theorem Expr.along_start : (e : Expr) → {p n : Nat} → Along hs p (e.heights n) → hs[p]? = some n
  | .number _, _, _, h | .boolean _, _, _, h | .text _, _, _, h | .name _, _, _, h
  | .function _ _ _, _, _, h => (along_cons.mp h).1
  | .binary _ l _, _, _, h => l.along_start (along_append.mp h).1
  | .call f _, _, _, h => f.along_start (along_append.mp h).1

theorem ArgsPlaced.along_start {es : List Expr} {p q n : Nat} (hp : ArgsPlaced c es p q)
    (h : Along hs p (argHeights es n)) (hq : hs[q]? = some (n + es.length)) : hs[p]? = some n := by
  cases hp with
  | nil => exact hq
  | cons head tail => exact Expr.along_start _ (along_append.mp h).1

theorem Stmt.along_start : (s : Stmt) → {p : Nat} → Along hs p s.heights → hs[p]? = some 0
  | .expr e, _, h | .assign _ e, _, h | .branch e _, _, h | .loop e _, _, h | .ret (some e), _, h =>
    e.along_start (along_append.mp h).1
  | .ret none, _, h => (along_cons.mp h).1

theorem BlockPlaced.along_start {ss : List Stmt} {p q : Nat} (hp : BlockPlaced c ss p q)
    (h : Along hs p (blockHeights ss)) (hq : hs[q]? = some 0) : hs[p]? = some 0 := by
  cases hp with
  | nil => exact hq
  | cons head tail => exact Stmt.along_start _ (along_append.mp h).1

/-- The heights of a whole code. -/
theorem Code.Runs.along {body : List Stmt} {last : Nat} (h : c.Runs body last) :
    Along (blockHeights body ++ [0]) 0 (blockHeights body) ∧
      (blockHeights body ++ [0])[last]? = some 0 := by
  have hlast := BlockPlaced.length body h.placed
  exact ⟨List.prefix_append .., by simp [hlast]⟩

/-- Code is valid if the instructions of its block fit. -/
theorem Code.Runs.valid {body : List Stmt} {last : Nat} (h : c.Runs body last)
    (hargs : c.argCount ≤ c.names.size) (hf : Between 0 last (c.FitsAt (blockHeights body ++ [0]))) :
    c.Valid := by
  obtain ⟨halong, hlast⟩ := h.along
  have hall : Between 0 (last + 1) (c.FitsAt (blockHeights body ++ [0])) :=
    hf.snoc (c.fitsAt_of_ne h.ret hlast rfl (by simp))
  have hlen := BlockPlaced.length body h.placed
  refine .intro ⟨by simp [h.size, hlen], h.placed.along_start halong hlast, fun {i n} hn => ?_⟩ hargs
    fun {i k g} hi hg => ?_
  · have hlt := (List.getElem?_eq_some_iff.mp hn).1
    rw [List.length_append, List.length_singleton] at hlt
    obtain ⟨x, n', hx, hn', hfit, -⟩ := hall i (Nat.zero_le i) (by omega)
    obtain rfl : n' = n := by simpa [hn] using hn'.symm
    exact ⟨x, hx, hfit⟩
  · have hlt := lt_size_of_getElem? hi
    rw [h.size] at hlt
    obtain ⟨x, n, hx, -, -, hvalid⟩ := hall i (Nat.zero_le i) hlt
    rw [hi] at hx
    exact hvalid k g (Option.some.inj hx).symm hg

end Fits

-- The heights of a function's code are its own, so both vary in the recursion.
mutual

theorem Expr.Placed.fits : (e : Expr) → {c : Code} → {hs : List Nat} → {p q n : Nat} →
    e.Placed c p q → Along hs p (e.heights n) → hs[q]? = some (n + 1) → Between p q (c.FitsAt hs)
  | .number _, c, _, _, _, _, .number code pool, h, hq =>
    .single (c.fitsAt_of_ne code (along_cons.mp h).1 ⟨lt_size_of_getElem? pool, hq⟩ (by simp))
  | .boolean _, c, _, _, _, _, .boolean code, h, hq =>
    .single (c.fitsAt_of_ne code (along_cons.mp h).1 hq (by simp))
  | .text _, c, _, _, _, _, .text code pool, h, hq =>
    .single (c.fitsAt_of_ne code (along_cons.mp h).1 ⟨lt_size_of_getElem? pool, hq⟩ (by simp))
  | .name _, c, _, _, _, _, .name code pool, h, hq =>
    .single (c.fitsAt_of_ne code (along_cons.mp h).1 ⟨lt_size_of_getElem? pool, hq⟩ (by simp))
  | .binary _ l r, c, _, _, _, n, .binary left right code, h, hq => by
    obtain ⟨hl, h⟩ := left.along.mp h
    obtain ⟨hr, h⟩ := right.along.mp h
    have hop := (along_cons.mp h).1
    refine .snoc (.append (Expr.Placed.fits l left hl (r.along_start hr))
      (Expr.Placed.fits r right hr hop)) ?_
    exact c.fitsAt_of_ne code hop ⟨n, rfl, hq⟩ (by simp)
  | .call f args, c, _, _, _, n, .call callee list code, h, hq => by
    obtain ⟨hf, h⟩ := callee.along.mp h
    obtain ⟨ha, h⟩ := along_append.mp h
    rw [← ArgsPlaced.length args (n + 1) list] at h
    have hop := (along_cons.mp h).1
    refine .snoc (.append (Expr.Placed.fits f callee hf (list.along_start ha hop))
      (ArgsPlaced.fits args list ha hop)) ?_
    exact c.fitsAt_of_ne code hop ⟨n, rfl, hq⟩ (by simp)
  | .function _ _ body, c, _, _, _, n, .function (i := i) compiled pool slot load bind reload, h, hq => by
    obtain ⟨h₀, h⟩ := along_cons.mp h
    obtain ⟨h₁, h⟩ := along_cons.mp h
    have h₂ := (along_cons.mp h).1
    have hlt := (List.getElem?_eq_some_iff.mp pool).1
    obtain ⟨⟨last, hruns⟩, -⟩ := Code.ofFunction_runs compiled
    have hvalid := hruns.valid (Code.ofFunction_argCount_le compiled)
      (BlockPlaced.fits body hruns.placed hruns.along.1 hruns.along.2)
    have hmade : ∀ k g, (⟨.loadFunction, i⟩ : Instruction) = ⟨.loadFunction, k⟩ →
        c.functions[k]? = some g → g.Valid := by
      rintro k g ⟨⟩ hg
      rw [pool] at hg
      cases hg
      exact hvalid
    refine .snoc (.snoc (.single ⟨_, n, load, h₀, ⟨hlt, h₁⟩, hmade⟩) ?_)
      ⟨_, n, reload, h₂, ⟨hlt, hq⟩, hmade⟩
    exact c.fitsAt_of_ne bind h₁ ⟨lt_size_of_getElem? slot, n, rfl, h₂⟩ (by simp)

theorem ArgsPlaced.fits : (es : List Expr) → {c : Code} → {hs : List Nat} → {p q n : Nat} →
    ArgsPlaced c es p q → Along hs p (argHeights es n) → hs[q]? = some (n + es.length) →
    Between p q (c.FitsAt hs)
  | [], _, _, _, _, _, .nil, _, _ => .empty
  | e :: es, _, hs, _, q, n, .cons head tail, h, hq => by
    obtain ⟨he, hes⟩ := head.along.mp h
    have hq' : hs[q]? = some (n + 1 + es.length) := by
      rw [hq, List.length_cons, Nat.add_assoc, Nat.add_comm 1]
    exact .append (Expr.Placed.fits e head he (tail.along_start hes hq'))
      (ArgsPlaced.fits es tail hes hq')

theorem Stmt.Placed.fits : (s : Stmt) → {c : Code} → {hs : List Nat} → {p q : Nat} →
    s.Placed c p q → Along hs p s.heights → hs[q]? = some 0 → Between p q (c.FitsAt hs)
  | .expr e, c, _, _, _, .expr value code, h, hq => by
    obtain ⟨he, h⟩ := value.along.mp h
    have hop := (along_cons.mp h).1
    exact .snoc (Expr.Placed.fits e value he hop) (c.fitsAt_of_ne code hop ⟨0, rfl, hq⟩ (by simp))
  | .assign _ e, c, _, _, _, .assign value code pool, h, hq => by
    obtain ⟨he, h⟩ := value.along.mp h
    have hop := (along_cons.mp h).1
    exact .snoc (Expr.Placed.fits e value he hop)
      (c.fitsAt_of_ne code hop ⟨lt_size_of_getElem? pool, 0, rfl, hq⟩ (by simp))
  | .branch test body, c, _, _, _, .branch value code inner, h, hq => by
    obtain ⟨ht, h⟩ := value.along.mp h
    obtain ⟨hop, hb⟩ := along_cons.mp h
    refine .append (.snoc (Expr.Placed.fits test value ht hop) ?_) (BlockPlaced.fits body inner hb hq)
    exact c.fitsAt_of_ne code hop ⟨0, rfl, inner.along_start hb hq, hq⟩ (by simp)
  | .loop test body, c, _, _, _, .loop value code inner back, h, hq => by
    obtain ⟨ht, h⟩ := value.along.mp h
    obtain ⟨hop, h⟩ := along_cons.mp h
    obtain ⟨hb, h⟩ := along_append.mp h
    rw [← BlockPlaced.length body inner] at h
    have hback := (along_cons.mp h).1
    refine .snoc (.append (.snoc (Expr.Placed.fits test value ht hop) ?_)
      (BlockPlaced.fits body inner hb hback)) ?_
    · exact c.fitsAt_of_ne code hop ⟨0, rfl, inner.along_start hb hback, hq⟩ (by simp)
    · exact c.fitsAt_of_ne back hback (test.along_start ht) (by simp)
  | .ret none, c, _, _, _, .leave code, h, _ =>
    .single (c.fitsAt_of_ne code (along_cons.mp h).1 rfl (by simp))
  | .ret (some e), c, _, _, _, .ret value code, h, _ => by
    obtain ⟨he, h⟩ := value.along.mp h
    have hop := (along_cons.mp h).1
    exact .snoc (Expr.Placed.fits e value he hop)
      (c.fitsAt_of_ne code hop rfl (by simp))

theorem BlockPlaced.fits : (ss : List Stmt) → {c : Code} → {hs : List Nat} → {p q : Nat} →
    BlockPlaced c ss p q → Along hs p (blockHeights ss) → hs[q]? = some 0 → Between p q (c.FitsAt hs)
  | [], _, _, _, _, .nil, _, _ => .empty
  | s :: ss, _, _, _, _, .cons head tail, h, hq => by
    obtain ⟨h₁, h₂⟩ := along_append.mp h
    rw [← Stmt.Placed.length s head] at h₂
    exact .append (Stmt.Placed.fits s head h₁ (tail.along_start h₂ hq))
      (BlockPlaced.fits ss tail h₂ hq)

end

/-- A script's code is valid. -/
theorem Program.compileWith_valid {p : Program} {names : List String} {c : Code}
    (h : p.compileWith names = .ok c) : c.Valid := by
  obtain ⟨⟨last, hruns⟩, -⟩ := Program.compileWith_runs h
  refine hruns.valid ?_ (BlockPlaced.fits p.body hruns.placed hruns.along.1 hruns.along.2)
  obtain ⟨b, -, rfl⟩ := closed_eq_ok.mp h
  exact Nat.zero_le _

end Scriptlet
