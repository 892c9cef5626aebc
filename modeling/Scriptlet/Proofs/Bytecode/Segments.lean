import Scriptlet.Proofs.Bytecode.Placement

/-! What compiling adds to the code under construction: instructions at its end, with jumps that
stay among them, and the same ones wherever they stand. -/
namespace Scriptlet

namespace Emit

/-- A conditional jump over what is emitted. -/
def guarded (x : Emit Unit) : Emit Unit := do
  let exit ← openJump .jumpIfFalse
  x
  closeJump exit

/-- What is emitted under a test, with a jump back to the test behind it. -/
def loop (test x : Emit Unit) : Emit Unit := do
  let start := (← get).position
  test
  guarded (do x; instruction .jump start)

/-- Whatever is compiled has the property: single emissions have it, and it passes on to what is
built from them. Jumps are never emitted singly. -/
structure Compositional (Q : {α : Type} → Emit α → Prop) : Prop where
  pure : ∀ {α : Type} (a : α), Q (pure a)
  lift : ∀ {α : Type} (r : Except CompileError α), Q (liftM r : Emit α)
  bind : ∀ {α β : Type} {x : Emit α} {f : α → Emit β}, Q x → (∀ a, Q (f a)) → Q (x >>= f)
  instruction : ∀ {op : Opcode}, op ≠ .jump → op ≠ .jumpIfFalse → ∀ arg, Q (instruction op arg)
  number : ∀ v, Q (number v)
  text : ∀ s, Q (text s)
  function : ∀ c, Q (function c)
  name : ∀ x, Q (name x)
  guarded : ∀ {x : Emit Unit}, Q x → Q (guarded x)
  loop : ∀ {test x : Emit Unit}, Q test → Q x → Q (loop test x)

end Emit

open Emit

section Compilation
variable {Q : {α : Type} → Emit α → Prop}

mutual

theorem Expr.compile_has (hQ : Compositional Q) : (e : Expr) → Q e.compile
  | .number v => hQ.bind (hQ.number v) fun i => hQ.instruction (by simp) (by simp) i
  | .boolean v => hQ.instruction (by simp) (by simp) v.toNat
  | .text s => hQ.bind (hQ.text s) fun i => hQ.instruction (by simp) (by simp) i
  | .name x => hQ.bind (hQ.name x) fun i => hQ.instruction (by simp) (by simp) i
  | .binary _ l r =>
    hQ.bind (l.compile_has hQ) fun _ => hQ.bind (r.compile_has hQ) fun _ =>
      hQ.instruction (by simp) (by simp) 0
  | .call f args =>
    hQ.bind (f.compile_has hQ) fun _ => hQ.bind (args_compile_has hQ args) fun _ =>
      hQ.instruction (by simp) (by simp) args.length
  | .function f _ _ =>
    hQ.bind (hQ.lift _) fun c => hQ.bind (hQ.function c) fun i => hQ.bind (hQ.name f) fun slot =>
      hQ.bind (hQ.instruction (by simp) (by simp) i) fun _ =>
        hQ.bind (hQ.instruction (by simp) (by simp) slot) fun _ =>
          hQ.instruction (by simp) (by simp) i

theorem args_compile_has (hQ : Compositional Q) : (es : List Expr) → Q (compileArgs es)
  | [] => hQ.pure ()
  | e :: es => hQ.bind (e.compile_has hQ) fun _ => args_compile_has hQ es

end

theorem Stmt.compile_branch (test : Expr) (body : List Stmt) :
    (Stmt.branch test body).compile = test.compile >>= fun _ => guarded (compileBlock body) := rfl

theorem Stmt.compile_loop (test : Expr) (body : List Stmt) :
    (Stmt.loop test body).compile = Emit.loop test.compile (compileBlock body) := by
  simp only [Stmt.compile, Emit.loop, guarded, bind_assoc]

mutual

theorem Stmt.compile_has (hQ : Compositional Q) : (s : Stmt) → Q s.compile
  | .expr e => hQ.bind (e.compile_has hQ) fun _ => hQ.instruction (by simp) (by simp) 0
  | .assign x e =>
    hQ.bind (e.compile_has hQ) fun _ => hQ.bind (hQ.name x) fun slot =>
      hQ.instruction (by simp) (by simp) slot
  | .branch test body => by
    rw [Stmt.compile_branch]
    exact hQ.bind (test.compile_has hQ) fun _ => hQ.guarded (block_compile_has hQ body)
  | .loop test body => by
    rw [Stmt.compile_loop]
    exact hQ.loop (test.compile_has hQ) (block_compile_has hQ body)
  | .ret none => hQ.instruction (by simp) (by simp) 0
  | .ret (some e) => hQ.bind (e.compile_has hQ) fun _ => hQ.instruction (by simp) (by simp) 1

theorem block_compile_has (hQ : Compositional Q) : (ss : List Stmt) → Q (compileBlock ss)
  | [] => hQ.pure ()
  | s :: ss => hQ.bind (s.compile_has hQ) fun _ => block_compile_has hQ ss

end
end Compilation

namespace Emit

section Exec
variable (b : Builder)

theorem exec_instruction (op : Opcode) (arg : Nat) :
    (instruction op arg).exec b = (.ok (), b.emit op arg) := rfl

theorem exec_guarded (x : Emit Unit) :
    (guarded x).exec b =
      match x.exec (b.emit .jumpIfFalse 0) with
      | (.ok _, b') => (.ok (), b'.patch b.position b'.position)
      | (.error e, b') => (.error e, b') := by
  unfold guarded
  rw [exec_bind]
  change (x >>= fun _ => closeJump b.position).exec (b.emit .jumpIfFalse 0) = _
  rw [exec_bind]
  cases x.exec (b.emit .jumpIfFalse 0) with
  | mk r b' => cases r <;> rfl

theorem exec_loop (test x : Emit Unit) :
    (loop test x).exec b =
      (test >>= fun _ => guarded (x >>= fun _ => instruction .jump b.position)).exec b := by
  unfold loop
  rw [exec_bind]
  rfl

end Exec

section Growth
variable {α β : Type}

/-- Whatever comes of the emission, all that was there before keeps its place. -/
def Appends (x : Emit α) : Prop := ∀ b : Builder, ∃ xs, b.Grows (x.exec b).2 xs

theorem Appends.bind {x : Emit α} {f : α → Emit β} (hx : Appends x) (hf : ∀ a, Appends (f a)) :
    Appends (x >>= f) := by
  intro b
  obtain ⟨xs, hb⟩ := hx b
  rw [exec_bind]
  cases hr : x.exec b with
  | mk r b₁ =>
    rw [hr] at hb
    cases r with
    | error e => exact ⟨xs, hb⟩
    | ok a =>
      obtain ⟨ys, hb₁⟩ := hf a b₁
      exact ⟨xs ++ ys, hb.trans hb₁⟩

theorem appends_instruction (op : Opcode) (arg : Nat) : Appends (instruction op arg) :=
  fun b => ⟨[], .emit b op arg⟩

/-- The jump that is closed was opened by the emission itself. -/
theorem Appends.guarded {x : Emit Unit} (hx : Appends x) : Appends (guarded x) := by
  intro b
  obtain ⟨xs, hb⟩ := hx (b.emit .jumpIfFalse 0)
  have hall := (Builder.Grows.emit b .jumpIfFalse 0).trans hb
  rw [exec_guarded]
  cases hr : x.exec (b.emit .jumpIfFalse 0) with
  | mk r b₁ =>
    rw [hr] at hall
    cases r with
    | error e => exact ⟨_, hall⟩
    | ok a => exact ⟨_, hall.patch le_rfl⟩

theorem Appends.loop {test x : Emit Unit} (ht : Appends test) (hx : Appends x) :
    Appends (loop test x) := by
  intro b
  rw [exec_loop]
  exact ht.bind (fun _ => (hx.bind fun _ => appends_instruction .jump b.position).guarded) b

theorem appends_compositional : Compositional Appends where
  pure _ b := ⟨[], .refl b⟩
  lift _ b := ⟨[], .refl b⟩
  bind hx hf := hx.bind hf
  instruction _ _ arg := appends_instruction _ arg
  number v b := ⟨[], { Builder.Grows.refl b with numbers := intern_extends b.numbers v }⟩
  text s b := ⟨[], { Builder.Grows.refl b with texts := intern_extends b.texts s }⟩
  function _ b := ⟨[], { Builder.Grows.refl b with functions := List.prefix_append .. }⟩
  name x b := ⟨[x], { Builder.Grows.refl b with names := rfl }⟩
  guarded hx := hx.guarded
  loop ht hx := ht.loop hx

end Growth

end Emit

/-- If the instruction at place `n` is a jump, it leads to a place from `p` up to `q`: forward if it
is conditional, otherwise back. -/
structure Instruction.Within (p q n : Nat) (i : Instruction) : Prop where
  forward : i.op = .jumpIfFalse → n < i.arg ∧ p ≤ i.arg ∧ i.arg ≤ q
  back : i.op = .jump → i.arg < n ∧ p ≤ i.arg ∧ i.arg ≤ q

namespace Instruction

variable {p p' q q' n : Nat} {i : Instruction}

theorem Within.mono (h : i.Within p q n) (hp : p' ≤ p) (hq : q ≤ q') : i.Within p' q' n where
  forward hi := ⟨(h.forward hi).1, hp.trans (h.forward hi).2.1, (h.forward hi).2.2.trans hq⟩
  back hi := ⟨(h.back hi).1, hp.trans (h.back hi).2.1, (h.back hi).2.2.trans hq⟩

theorem within_of_plain {op : Opcode} {arg : Nat} (hj : op ≠ .jump) (hc : op ≠ .jumpIfFalse) :
    Within p q n ⟨op, arg⟩ := ⟨fun h => absurd h hc, fun h => absurd h hj⟩

end Instruction

namespace Emit

section Jumps
variable {α β : Type}

/-- What the emission adds, if it succeeds, has no jump out of it. -/
def Encloses (x : Emit α) : Prop :=
  ∀ b a b', Yields x b a b' → ∀ (n : Nat) (i : Instruction), b.position ≤ n →
    b'.code[n]? = some i → i.Within b.position b'.position n

theorem Appends.yields {x : Emit α} (hx : Appends x) {b b' : Builder} {a : α}
    (h : Yields x b a b') : ∃ xs, b.Grows b' xs := by
  have hb := hx b
  rwa [h] at hb

theorem encloses_of_code {x : Emit α} (h : ∀ b, (x.exec b).2.code = b.code) : Encloses x := by
  intro b a b' hy n i hn hi
  have hcode := h b
  rw [hy] at hcode
  rw [hcode] at hi
  exact absurd (lt_size_of_getElem? hi) (Nat.not_lt.mpr hn)

theorem Encloses.bind {x : Emit α} {f : α → Emit β} (hx : Encloses x) (hax : Appends x)
    (hf : ∀ a, Encloses (f a)) (haf : ∀ a, Appends (f a)) : Encloses (x >>= f) := by
  intro b c b' h n i hn hi
  obtain ⟨a, b₁, hb₁, hb'⟩ := yields_bind.mp h
  obtain ⟨xs, hg₁⟩ := hax.yields hb₁
  obtain ⟨ys, hg⟩ := (haf a).yields hb'
  rcases Nat.lt_or_ge n b₁.position with hlt | hge
  · rw [hg.code n hlt] at hi
    exact (hx b a b₁ hb₁ n i hn hi).mono le_rfl hg.position
  · exact (hf a b₁ c b' hb' n i hge hi).mono hg₁.position le_rfl

theorem encloses_instruction {op : Opcode} (hj : op ≠ .jump) (hc : op ≠ .jumpIfFalse) (arg : Nat) :
    Encloses (instruction op arg) := by
  intro b a b' h n i hn hi
  rw [← yields_instruction.mp h] at hi
  have hlt := lt_size_of_getElem? hi
  obtain rfl : n = b.code.size := by
    simp only [Builder.emit, Array.size_push, Builder.position] at hlt hn
    omega
  obtain rfl : ⟨op, arg⟩ = i := by simpa [Builder.emit] using hi
  exact Instruction.within_of_plain hj hc

theorem yields_guarded {x : Emit Unit} {b b' : Builder} :
    Yields (guarded x) b () b' ↔
      ∃ b₁, Yields x (b.emit .jumpIfFalse 0) () b₁ ∧ b₁.patch b.position b₁.position = b' := by
  unfold Yields
  rw [exec_guarded]
  cases x.exec (b.emit .jumpIfFalse 0) with
  | mk r b₁ => cases r <;> simp

/-- The opened jump leads behind the emission, and all that comes before keeps its jumps. -/
theorem within_guarded {x : Emit Unit} (hax : Appends x) {b b₁ : Builder}
    (h : Yields x (b.emit .jumpIfFalse 0) () b₁) {p n : Nat} {i : Instruction} (hp : p ≤ b.position)
    (hn : b.position ≤ n) (hi : (b₁.patch b.position b₁.position).code[n]? = some i)
    (hrest : b.position < n → b₁.code[n]? = some i → i.Within p b₁.position n) :
    i.Within p b₁.position n := by
  obtain ⟨xs, hg⟩ := hax.yields h
  have hlt : b.position < b₁.position := by simpa using hg.position
  rcases Nat.eq_or_lt_of_le hn with rfl | hn
  · have hopen : b₁.code[b.position]? = some ⟨.jumpIfFalse, 0⟩ := by
      rw [hg.code _ (by simp)]
      simp [Builder.emit, Builder.position]
    rw [Builder.patch_code_self _ hopen] at hi
    obtain rfl := Option.some.inj hi
    exact ⟨fun _ => ⟨hlt, hp.trans hlt.le, le_rfl⟩, by simp⟩
  · rw [Builder.patch_code_of_ne _ hn.ne] at hi
    exact hrest hn hi

theorem Encloses.guarded {x : Emit Unit} (hx : Encloses x) (hax : Appends x) :
    Encloses (guarded x) := by
  intro b a b' h n i hn hi
  obtain ⟨b₁, hb₁, rfl⟩ := yields_guarded.mp h
  rw [Builder.position_patch]
  refine within_guarded hax hb₁ le_rfl hn hi fun hlt hi => ?_
  exact (hx _ () b₁ hb₁ n i (by simpa using hlt) hi).mono (by simp) le_rfl

theorem Encloses.loop {test x : Emit Unit} (ht : Encloses test) (hat : Appends test)
    (hx : Encloses x) (hax : Appends x) : Encloses (loop test x) := by
  intro b a b' h n i hn hi
  unfold Yields at h
  rw [exec_loop] at h
  obtain ⟨⟨⟩, b₁, hb₁, hb'⟩ := yields_bind.mp h
  obtain ⟨b₃, hb₃, rfl⟩ := yields_guarded.mp hb'
  obtain ⟨xs, hg₁⟩ := hat.yields hb₁
  have hback : Appends (x >>= fun _ => instruction .jump b.position) :=
    hax.bind fun _ => appends_instruction .jump b.position
  obtain ⟨ys, hg₃⟩ := hback.guarded.yields hb'
  rw [Builder.position_patch]
  rcases Nat.lt_or_ge n b₁.position with hlt | hge
  · rw [hg₃.code n hlt] at hi
    exact (ht b () b₁ hb₁ n i hn hi).mono le_rfl (by simpa using hg₃.position)
  · refine within_guarded hback hb₃ hg₁.position hge hi fun hlt hi => ?_
    obtain ⟨⟨⟩, b₂, hb₂, hjump⟩ := yields_bind.mp hb₃
    obtain ⟨zs, hg₂⟩ := hax.yields hb₂
    rw [← yields_instruction.mp hjump] at hi ⊢
    rcases Nat.lt_or_ge n b₂.position with hlt₂ | hge₂
    · rw [(Builder.Grows.emit b₂ .jump b.position).code n hlt₂] at hi
      exact (hx _ () b₂ hb₂ n i (by simpa using hlt) hi).mono
        (by simpa using hg₁.position.trans (Nat.le_succ _)) (by simp)
    · have hsize := lt_size_of_getElem? hi
      obtain rfl : n = b₂.code.size := by
        simp only [Builder.emit, Array.size_push, Builder.position] at hsize hge₂
        omega
      obtain rfl : ⟨.jump, b.position⟩ = i := by simpa [Builder.emit] using hi
      have hb : b.position < b₂.code.size := hg₁.position.trans_lt hlt
      refine ⟨by simp, fun _ => ⟨hb, le_rfl, ?_⟩⟩
      rw [Builder.position_emit]
      exact hb.le.trans (Nat.le_succ _)

end Jumps

end Emit

/-- The instruction with its target `d` places further on. A conditional jump to 0 has no target
yet. -/
def Instruction.shift (d : Int) (i : Instruction) : Instruction :=
  match i.op with
  | .jump => { i with arg := (i.arg + d).toNat }
  | .jumpIfFalse => if i.arg = 0 then i else { i with arg := (i.arg + d).toNat }
  | _ => i

namespace Instruction

theorem shift_of_plain {op : Opcode} (hj : op ≠ .jump) (hc : op ≠ .jumpIfFalse) (arg : Nat)
    (d : Int) : shift d ⟨op, arg⟩ = ⟨op, arg⟩ := by
  cases op <;> first | rfl | contradiction

@[simp] theorem op_shift (i : Instruction) (d : Int) : (i.shift d).op = i.op := by
  unfold shift
  split
  · rfl
  · split <;> rfl
  · rfl

theorem shift_jump (t k : Nat) : shift k ⟨.jump, t⟩ = ⟨.jump, k + t⟩ := by
  simp [shift]
  omega

theorem shift_open (d : Int) : shift d ⟨.jumpIfFalse, 0⟩ = ⟨.jumpIfFalse, 0⟩ := rfl

theorem shift_closed {t : Nat} (ht : 0 < t) (k : Nat) :
    shift k ⟨.jumpIfFalse, t⟩ = ⟨.jumpIfFalse, k + t⟩ := by
  simp [shift, ht.ne']
  omega

/-- From one place to another the targets move by the difference. -/
theorem shift_shift (i : Instruction) (k k' : Nat) : (i.shift k).shift (k' - k) = i.shift k' := by
  obtain ⟨op, t⟩ := i
  by_cases hj : op = .jump
  · subst hj
    rw [shift_jump, shift_jump]
    simp [shift]
    omega
  by_cases hc : op = .jumpIfFalse
  · subst hc
    rcases Nat.eq_zero_or_pos t with rfl | ht
    · rfl
    · rw [shift_closed ht, shift_closed ht]
      have hk : k + t ≠ 0 := by omega
      simp only [shift, if_neg hk, Instruction.mk.injEq, true_and]
      omega
  · simp only [shift_of_plain hj hc]

end Instruction

namespace Builder

/-- The same code under construction, with other instructions before its own. -/
def behind (pre : Array Instruction) (b : Builder) : Builder :=
  { b with code := pre ++ b.code.map (·.shift pre.size) }

@[simp] theorem position_behind (pre : Array Instruction) (b : Builder) :
    (b.behind pre).position = pre.size + b.position := by
  simp [behind, position]

theorem emit_behind {pre : Array Instruction} {b : Builder} {op : Opcode} {arg arg' : Nat}
    (h : Instruction.shift pre.size ⟨op, arg⟩ = ⟨op, arg'⟩) :
    (b.behind pre).emit op arg' = (b.emit op arg).behind pre := by
  simp [behind, emit, h]

/-- Closing a jump that is open. -/
theorem patch_behind {pre : Array Instruction} {b : Builder} {place target t : Nat}
    (h : b.code[place]? = some ⟨.jumpIfFalse, t⟩) (ht : 0 < target) :
    (b.behind pre).patch (pre.size + place) (pre.size + target) =
      (b.patch place target).behind pre := by
  have hcode : ((b.behind pre).patch (pre.size + place) (pre.size + target)).code =
      ((b.patch place target).behind pre).code := by
    refine Array.ext_getElem? fun n => ?_
    simp only [behind, patch, Array.getElem?_modify, Array.getElem?_append, Array.getElem?_map]
    rcases Nat.lt_or_ge n pre.size with hn | hn
    · have hne : pre.size + place ≠ n := by omega
      simp [hn, hne]
    · obtain ⟨k, rfl⟩ := Nat.exists_eq_add_of_le hn
      by_cases hk : place = k
      · subst hk
        have hopen : pre.size + place - pre.size = place := by omega
        simp only [Nat.not_lt.mpr hn, if_false, hopen, h, Option.map_some, if_true,
          Instruction.shift_closed ht, Instruction.op_shift]
      · simp [hk]
  exact congrArg (fun code => { b with code }) hcode

end Builder

namespace Emit

section Relocation
variable {α β : Type} {pre : Array Instruction}

/-- Behind other instructions, `x'` does what `x` does without them. -/
def Follows (pre : Array Instruction) (x x' : Emit α) : Prop :=
  ∀ b : Builder, x'.exec (b.behind pre) = ((x.exec b).1, (x.exec b).2.behind pre)

theorem Follows.bind {x x' : Emit α} {f f' : α → Emit β} (hx : Follows pre x x')
    (hf : ∀ a, Follows pre (f a) (f' a)) : Follows pre (x >>= f) (x' >>= f') := by
  intro b
  rw [exec_bind, exec_bind, hx b]
  cases x.exec b with
  | mk r b₁ =>
    cases r with
    | error e => rfl
    | ok a => exact hf a b₁

theorem follows_instruction {op : Opcode} {arg arg' : Nat}
    (h : Instruction.shift pre.size ⟨op, arg⟩ = ⟨op, arg'⟩) :
    Follows pre (instruction op arg) (instruction op arg') := by
  intro b
  rw [exec_instruction, exec_instruction, Builder.emit_behind h]

theorem Follows.guarded {x x' : Emit Unit} (hx : Follows pre x x') (hax : Appends x) :
    Follows pre (guarded x) (guarded x') := by
  intro b
  have hopen : (b.behind pre).emit .jumpIfFalse 0 = (b.emit .jumpIfFalse 0).behind pre :=
    Builder.emit_behind (Instruction.shift_open _)
  obtain ⟨xs, hg⟩ := hax (b.emit .jumpIfFalse 0)
  rw [exec_guarded, exec_guarded, hopen, hx]
  cases hr : x.exec (b.emit .jumpIfFalse 0) with
  | mk r b₁ =>
    rw [hr] at hg
    cases r with
    | error e => rfl
    | ok a =>
      have hlt : b.position < b₁.position := by simpa using hg.position
      have hjump : b₁.code[b.position]? = some ⟨.jumpIfFalse, 0⟩ := by
        rw [hg.code _ (by simp)]
        simp [Builder.emit, Builder.position]
      simp only [Builder.position_behind, Builder.patch_behind hjump (Nat.zero_lt_of_lt hlt)]

theorem Follows.loop {test test' x x' : Emit Unit} (ht : Follows pre test test')
    (hx : Follows pre x x') (hax : Appends x) : Follows pre (loop test x) (loop test' x') := by
  intro b
  rw [exec_loop, exec_loop, Builder.position_behind]
  have hback : Follows pre (instruction .jump b.position)
      (instruction .jump (pre.size + b.position)) := follows_instruction (Instruction.shift_jump _ _)
  exact ht.bind (fun _ => (hx.bind fun _ => hback).guarded
    (hax.bind fun _ => appends_instruction .jump b.position)) b

end Relocation

/-- What the emission adds depends on nothing but the pools, and what was there does not change. -/
structure SelfContained {α : Type} (x : Emit α) : Prop where
  appends : Appends x
  encloses : Encloses x
  follows : ∀ pre, Follows pre x x

theorem selfContained_compositional : Compositional SelfContained where
  pure a := ⟨appends_compositional.pure a, encloses_of_code fun _ => rfl, fun _ _ => rfl⟩
  lift r := ⟨appends_compositional.lift r, encloses_of_code fun _ => rfl, fun _ _ => rfl⟩
  bind hx hf := ⟨hx.appends.bind fun a => (hf a).appends,
    hx.encloses.bind hx.appends (fun a => (hf a).encloses) fun a => (hf a).appends,
    fun pre => (hx.follows pre).bind fun a => (hf a).follows pre⟩
  instruction hj hc arg := ⟨appends_instruction _ arg, encloses_instruction hj hc arg,
    fun _ => follows_instruction (Instruction.shift_of_plain hj hc arg _)⟩
  number v := ⟨appends_compositional.number v, encloses_of_code fun _ => rfl, fun _ _ => rfl⟩
  text s := ⟨appends_compositional.text s, encloses_of_code fun _ => rfl, fun _ _ => rfl⟩
  function c := ⟨appends_compositional.function c, encloses_of_code fun _ => rfl, fun _ _ => rfl⟩
  name x := ⟨appends_compositional.name x, encloses_of_code fun _ => rfl, fun _ _ => rfl⟩
  guarded hx := ⟨hx.appends.guarded, hx.encloses.guarded hx.appends,
    fun pre => (hx.follows pre).guarded hx.appends⟩
  loop ht hx := ⟨ht.appends.loop hx.appends, ht.encloses.loop ht.appends hx.encloses hx.appends,
    fun pre => (ht.follows pre).loop (hx.follows pre) hx.appends⟩

theorem selfContained_block (ss : List Stmt) : SelfContained (compileBlock ss) :=
  block_compile_has selfContained_compositional ss

end Emit

namespace Builder

/-- The same constants and variables, whatever the instructions are. -/
structure SamePools (b b' : Builder) : Prop where
  numbers : b.numbers = b'.numbers
  texts : b.texts = b'.texts
  functions : b.functions = b'.functions
  names : b.names = b'.names

/-- Code under construction is its instructions behind those of nothing but its pools. -/
theorem behind_code (b : Builder) : Builder.behind b.code { b with code := #[] } = b := by
  simp [behind]

theorem SamePools.behind_code {b b' : Builder} (h : b.SamePools b') :
    Builder.behind b.code { b' with code := #[] } = b := by
  have hempty : { b with code := #[] } = { b' with code := #[] } := by
    rw [h.numbers, h.texts, h.functions, h.names]
  rw [← hempty, Builder.behind_code]

theorem drop_behind (pre : Array Instruction) (b : Builder) :
    (b.behind pre).code.toList.drop pre.size = b.code.toList.map (·.shift pre.size) := by
  simp [behind]

theorem Grows.code_isPrefix {b b' : Builder} {xs : List String} (h : b.Grows b' xs) :
    b.code.toList <+: b'.code.toList := by
  refine List.prefix_iff_getElem?.mpr fun i hi => ?_
  have hlt : i < b.code.size := by simpa using hi
  have hcode := h.code i hlt
  rw [Array.getElem?_toList, hcode]
  exact Array.getElem?_eq_getElem hlt

end Builder

/-- A compiled block only adds to what is there, and what it adds stands by itself. All
instructions, constants and names of before keep their places, also if the block is refused halfway.
If it is not, the jumps among the new instructions lead to places from the block's start up to its
end, forward if they are conditional and otherwise back. And at another place, with the same constants
and names, the same instructions are added, with their targets shifted by the distance. -/
theorem compiled_blocks_are_self_contained {ss : List Stmt} {b b₁ : Builder}
    {r : Except CompileError Unit} (h : (compileBlock ss).exec b = (r, b₁)) :
    (b.code.toList <+: b₁.code.toList ∧ b.numbers.toList <+: b₁.numbers.toList ∧
      b.texts.toList <+: b₁.texts.toList ∧ b.functions <+: b₁.functions ∧
      b.names.toList <+: b₁.names.toList) ∧
    (r = .ok () → ∀ (n : Nat) (i : Instruction), b.position ≤ n → b₁.code[n]? = some i →
      (i.op = .jumpIfFalse → n < i.arg ∧ b.position ≤ i.arg ∧ i.arg ≤ b₁.position) ∧
      (i.op = .jump → i.arg < n ∧ b.position ≤ i.arg ∧ i.arg ≤ b₁.position)) ∧
    ∀ b' : Builder, b'.SamePools b → ∃ b₁', (compileBlock ss).exec b' = (r, b₁') ∧
      b₁'.SamePools b₁ ∧ b₁'.code.toList.drop b'.position =
        (b₁.code.toList.drop b.position).map (·.shift (b'.position - b.position)) := by
  have hblock := selfContained_block ss
  refine ⟨?_, ?_, ?_⟩
  · obtain ⟨xs, hg⟩ := hblock.appends b
    rw [h] at hg
    exact ⟨hg.code_isPrefix, hg.numbers, hg.texts, hg.functions,
      hg.names ▸ internAll_extends b.names xs⟩
  · rintro rfl n i hn hi
    have hwithin := hblock.encloses b () b₁ h n i hn hi
    exact ⟨hwithin.forward, hwithin.back⟩
  · intro b' hpools
    -- both are what the block adds to the pools alone, moved to their places
    have hb := hblock.follows b.code { b with code := #[] }
    have hb' := hblock.follows b'.code { b with code := #[] }
    rw [b.behind_code, h] at hb
    rw [hpools.behind_code] at hb'
    generalize (compileBlock ss).exec { b with code := #[] } = bare at hb hb'
    obtain ⟨rfl, rfl⟩ := Prod.ext_iff.mp hb
    refine ⟨_, hb', ⟨rfl, rfl, rfl, rfl⟩, ?_⟩
    simp only [Builder.position, Builder.drop_behind, List.map_map]
    exact List.map_congr_left fun i _ => (i.shift_shift b.code.size b'.code.size).symm

/-- A loop with a condition inside. -/
def nestedJumps : List Stmt := [.loop (.name "x") [.branch (.name "y") [.ret none]]]

/-- Two places further on, all three jumps lead two places further on. -/
theorem compiled_blocks_are_self_contained_nestedJumps :
    ∃ b b' b₁ b₁' : Builder, b.position = 1 ∧ b'.position = 3 ∧ b'.SamePools b ∧
      (compileBlock nestedJumps).exec b = (.ok (), b₁) ∧
      b₁.code.toList.drop 1 =
        [⟨.loadVar, 0⟩, ⟨.jumpIfFalse, 7⟩, ⟨.loadVar, 1⟩, ⟨.jumpIfFalse, 6⟩, ⟨.ret, 0⟩,
          ⟨.jump, 1⟩] ∧
      (compileBlock nestedJumps).exec b' = (.ok (), b₁') ∧
      b₁'.code.toList.drop 3 =
        [⟨.loadVar, 0⟩, ⟨.jumpIfFalse, 9⟩, ⟨.loadVar, 1⟩, ⟨.jumpIfFalse, 8⟩, ⟨.ret, 0⟩,
          ⟨.jump, 3⟩] := by
  let b := Builder.empty.emit .ret 0
  have hok : (compileBlock nestedJumps).exec b =
      (.ok (), ((compileBlock nestedJumps).exec b).2) := by
    with_unfolding_all rfl
  have hcode : ((compileBlock nestedJumps).exec b).2.code.toList.drop 1 =
      [⟨.loadVar, 0⟩, ⟨.jumpIfFalse, 7⟩, ⟨.loadVar, 1⟩, ⟨.jumpIfFalse, 6⟩, ⟨.ret, 0⟩,
        ⟨.jump, 1⟩] := by
    decide +kernel
  obtain ⟨b₁', hb', -, hdrop⟩ := (compiled_blocks_are_self_contained hok).2.2
    ((b.emit .ret 0).emit .ret 0) ⟨rfl, rfl, rfl, rfl⟩
  refine ⟨b, (b.emit .ret 0).emit .ret 0, _, b₁', rfl, rfl, ⟨rfl, rfl, rfl, rfl⟩, hok, hcode, hb',
    ?_⟩
  exact hdrop.trans (by rw [show b.position = 1 from rfl, hcode]; rfl)

end Scriptlet
