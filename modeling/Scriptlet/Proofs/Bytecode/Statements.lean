import Scriptlet.Proofs.Bytecode.Heights

/-! The heights of the stack are determined by the code, and where a statement begins the stack is
empty. -/
namespace Scriptlet

section Unique
variable {c : Code} {hs : List Nat}

theorem along_nil (hs : List Nat) (p : Nat) : Along hs p [] := List.nil_prefix

theorem along_singleton {p n : Nat} : Along hs p [n] ↔ hs[p]? = some n := by
  simp [along_cons, along_nil]

/-- The height before an instruction that only pushes a value. -/
theorem Code.Checked.before_push (hc : c.Checked hs) {p n : Nat} {i : Instruction}
    (hi : c.code[p]? = some i) (hpush : ∀ k, i.Fits c hs (p + 1) k → hs[p + 1]? = some (k + 1))
    (hq : hs[p + 1]? = some (n + 1)) : hs[p]? = some n := by
  obtain ⟨k, hk, hfit⟩ := hc.before hi
  have hnext := hpush k hfit
  rw [hq] at hnext
  cases hnext
  exact hk

-- From the end of the code backward: what comes after a return is not reached from there, and the
-- height at a loop's jump back is known from the loop's test.
mutual

theorem Expr.Placed.heights_eq (hc : c.Checked hs) : (e : Expr) → {p q n : Nat} → e.Placed c p q →
    hs[q]? = some (n + 1) → Along hs p (e.heights n)
  | .number _, _, _, _, .number code _, hq =>
    along_singleton.mpr (hc.before_push code (fun _ hfit => hfit.2) hq)
  | .boolean _, _, _, _, .boolean code, hq =>
    along_singleton.mpr (hc.before_push code (fun _ hfit => hfit) hq)
  | .text _, _, _, _, .text code _, hq =>
    along_singleton.mpr (hc.before_push code (fun _ hfit => hfit.2) hq)
  | .name _, _, _, _, .name code _, hq =>
    along_singleton.mpr (hc.before_push code (fun _ hfit => hfit.2) hq)
  | .binary _ l r, _, _, _, .binary left right code, hq => by
    obtain ⟨_, hop, k, rfl, hnext⟩ := hc.before code
    rw [hq] at hnext
    cases hnext
    have hr := Expr.Placed.heights_eq hc r right hop
    have hl := Expr.Placed.heights_eq hc l left (r.along_start hr)
    exact left.along.mpr ⟨hl, right.along.mpr ⟨hr, along_singleton.mpr hop⟩⟩
  | .call f args, _, _, n, .call callee list code, hq => by
    obtain ⟨_, hop, k, rfl, hnext⟩ := hc.before code
    rw [hq] at hnext
    cases hnext
    have ha := ArgsPlaced.heights_eq hc args list hop
    have hf := Expr.Placed.heights_eq hc f callee (list.along_start ha hop)
    refine callee.along.mpr ⟨hf, along_append.mpr ⟨ha, ?_⟩⟩
    rw [← ArgsPlaced.length args (n + 1) list]
    exact along_singleton.mpr hop
  | .function _ _ _, _, _, _, .function _ _ _ load bind reload, hq => by
    have h₂ := hc.before_push reload (fun _ hfit => hfit.2) hq
    obtain ⟨_, h₁, -, k, rfl, hnext⟩ := hc.before bind
    rw [h₂] at hnext
    cases hnext
    have h₀ := hc.before_push load (fun _ hfit => hfit.2) h₁
    exact along_cons.mpr ⟨h₀, along_cons.mpr ⟨h₁, along_singleton.mpr h₂⟩⟩

theorem ArgsPlaced.heights_eq (hc : c.Checked hs) : (es : List Expr) → {p q n : Nat} →
    ArgsPlaced c es p q → hs[q]? = some (n + es.length) → Along hs p (argHeights es n)
  | [], p, _, _, .nil, _ => along_nil hs p
  | e :: es, _, q, n, .cons head tail, hq => by
    have hq' : hs[q]? = some (n + 1 + es.length) := by
      rw [hq, List.length_cons, Nat.add_assoc, Nat.add_comm 1]
    have htail := ArgsPlaced.heights_eq hc es tail hq'
    have hhead := Expr.Placed.heights_eq hc e head (tail.along_start htail hq')
    exact head.along.mpr ⟨hhead, htail⟩

end

mutual

theorem Stmt.Placed.heights_eq (hc : c.Checked hs) : (s : Stmt) → {p q : Nat} → s.Placed c p q →
    hs[q]? = some 0 → Along hs p s.heights
  | .expr e, _, _, .expr value code, hq => by
    obtain ⟨_, hop, k, rfl, hnext⟩ := hc.before code
    rw [hq] at hnext
    cases hnext
    exact value.along.mpr ⟨Expr.Placed.heights_eq hc e value hop, along_singleton.mpr hop⟩
  | .assign _ e, _, _, .assign value code _, hq => by
    obtain ⟨_, hop, -, k, rfl, hnext⟩ := hc.before code
    rw [hq] at hnext
    cases hnext
    exact value.along.mpr ⟨Expr.Placed.heights_eq hc e value hop, along_singleton.mpr hop⟩
  | .branch test body, _, _, .branch value code inner, hq => by
    obtain ⟨_, hop, k, rfl, -, htarget⟩ := hc.before code
    rw [hq] at htarget
    cases htarget
    have hb := BlockPlaced.heights_eq hc body inner hq
    exact value.along.mpr ⟨Expr.Placed.heights_eq hc test value hop, along_cons.mpr ⟨hop, hb⟩⟩
  | .loop test body, _, _, .loop value code inner back, hq => by
    obtain ⟨_, hop, k, rfl, -, htarget⟩ := hc.before code
    rw [hq] at htarget
    cases htarget
    have ht := Expr.Placed.heights_eq hc test value hop
    obtain ⟨k, hback, hstart⟩ := hc.before back
    obtain rfl : k = 0 := by
      have hzero := test.along_start ht
      rw [hstart] at hzero
      exact Option.some.inj hzero
    have hb := BlockPlaced.heights_eq hc body inner hback
    refine value.along.mpr ⟨ht, along_cons.mpr ⟨hop, along_append.mpr ⟨hb, ?_⟩⟩⟩
    rw [← BlockPlaced.length body inner]
    exact along_singleton.mpr hback
  | .ret none, _, _, .leave code, _ => by
    obtain ⟨_, hop, rfl⟩ := hc.before code
    exact along_singleton.mpr hop
  | .ret (some e), _, _, .ret value code, _ => by
    obtain ⟨_, hop, rfl⟩ := hc.before code
    exact value.along.mpr ⟨Expr.Placed.heights_eq hc e value hop, along_singleton.mpr hop⟩

theorem BlockPlaced.heights_eq (hc : c.Checked hs) : (ss : List Stmt) → {p q : Nat} →
    BlockPlaced c ss p q → hs[q]? = some 0 → Along hs p (blockHeights ss)
  | [], p, _, .nil, _ => along_nil hs p
  | s :: ss, _, _, .cons head tail, hq => by
    have htail := BlockPlaced.heights_eq hc ss tail hq
    have hhead := Stmt.Placed.heights_eq hc s head (tail.along_start htail hq)
    refine along_append.mpr ⟨hhead, ?_⟩
    rwa [← Stmt.Placed.length s head]

end

/-- There is only one way to give the places of compiled code their heights. -/
theorem Code.Runs.heights_unique {body : List Stmt} {last : Nat} (h : c.Runs body last)
    (hc : c.Checked hs) : hs = blockHeights body ++ [0] := by
  obtain ⟨_, hlast, rfl⟩ := hc.before h.ret
  have hlength := BlockPlaced.length body h.placed
  have hall : Along hs 0 (blockHeights body ++ [0]) := by
    refine along_append.mpr ⟨BlockPlaced.heights_eq hc body h.placed hlast, ?_⟩
    rw [← hlength]
    exact along_singleton.mpr hlast
  have hsize : (blockHeights body ++ [0]).length = hs.length := by
    rw [hc.size, h.size, hlength]
    simp
  exact (List.IsPrefix.eq_of_length hall hsize).symm

end Unique

/-- One of the statements of a block, at any depth, begins at place `i`. -/
inductive Begins (c : Code) : List Stmt → Nat → Nat → Nat → Prop
  | first {s : Stmt} {ss : List Stmt} {p p₁ q : Nat} (head : s.Placed c p p₁)
      (tail : BlockPlaced c ss p₁ q) : Begins c (s :: ss) p q p
  | later {s : Stmt} {ss : List Stmt} {p p₁ q i : Nat} (head : s.Placed c p p₁)
      (tail : Begins c ss p₁ q i) : Begins c (s :: ss) p q i
  | branch {test : Expr} {body ss : List Stmt} {p p₁ p₂ q i : Nat} (value : test.Placed c p p₁)
      (code : c.code[p₁]? = some ⟨.jumpIfFalse, p₂⟩) (inner : Begins c body (p₁ + 1) p₂ i)
      (tail : BlockPlaced c ss p₂ q) : Begins c (.branch test body :: ss) p q i
  | loop {test : Expr} {body ss : List Stmt} {p p₁ p₂ q i : Nat} (value : test.Placed c p p₁)
      (code : c.code[p₁]? = some ⟨.jumpIfFalse, p₂ + 1⟩) (inner : Begins c body (p₁ + 1) p₂ i)
      (back : c.code[p₂]? = some ⟨.jump, p⟩) (tail : BlockPlaced c ss (p₂ + 1) q) :
      Begins c (.loop test body :: ss) p q i

/-- Place `i` of the code of `body` is that of the first instruction of a statement, or of the return
behind all of them. A loop begins with its test, to which it comes back. -/
def Code.StatementAt (c : Code) (body : List Stmt) (i : Nat) : Prop :=
  ∃ last, c.Runs body last ∧ (Begins c body 0 last i ∨ i = last)

theorem Begins.placed {c : Code} {body : List Stmt} {p q i : Nat} (h : Begins c body p q i) :
    BlockPlaced c body p q := by
  induction h with
  | first head tail => exact .cons head tail
  | later head _ ih => exact .cons head ih
  | branch value code _ tail ih => exact .cons (.branch value code ih) tail
  | loop value code _ back tail ih => exact .cons (.loop value code ih back) tail

theorem Begins.height {c : Code} {hs : List Nat} {body : List Stmt} {p q i : Nat}
    (h : Begins c body p q i) (ha : Along hs p (blockHeights body)) (hq : hs[q]? = some 0) :
    hs[i]? = some 0 := by
  induction h with
  | first head tail => exact (BlockPlaced.cons head tail).along_start ha hq
  | @later s _ _ _ _ _ head tail ih =>
    have htail := (along_append.mp ha).2
    rw [← Stmt.Placed.length s head] at htail
    exact ih htail hq
  | @branch test body _ _ _ _ _ _ value code inner tail ih =>
    obtain ⟨hs₁, htail⟩ := along_append.mp ha
    rw [← Stmt.Placed.length _ (.branch value code inner.placed)] at htail
    obtain ⟨-, hrest⟩ := value.along.mp hs₁
    exact ih (along_cons.mp hrest).2 (tail.along_start htail hq)
  | @loop test body _ _ _ _ _ _ value code inner back tail ih =>
    obtain ⟨hs₁, -⟩ := along_append.mp ha
    obtain ⟨-, hrest⟩ := value.along.mp hs₁
    obtain ⟨hbody, hback⟩ := along_append.mp (along_cons.mp hrest).2
    rw [← BlockPlaced.length body inner.placed] at hback
    exact ih hbody (along_singleton.mp hback)

/-- Where a statement begins the stack is empty. -/
theorem Code.StatementAt.height {c : Code} {hs : List Nat} {body : List Stmt} {i : Nat}
    (h : c.StatementAt body i) (hc : c.Checked hs) : hs[i]? = some 0 := by
  obtain ⟨last, hruns, hi⟩ := h
  rw [hruns.heights_unique hc]
  obtain ⟨halong, hlast⟩ := hruns.along
  rcases hi with hbegins | rfl
  · exact hbegins.height halong hlast
  · exact hlast

end Scriptlet
