import Scriptlet.Proofs.Bytecode.Indexed
import Scriptlet.Proofs.Bytecode.Operands
import Scriptlet.Proofs.Bytecode.Segments

/-! Pools and indexes agree through everything that can be done to code under construction, and a
place that was handed out keeps its item. -/
namespace Scriptlet

/-- What is given a place in a pool. -/
inductive Item where
  | number (v : Number)
  | text (s : String)
  | function (g : Code)
  | name (x : String)

/-- What can be done to code under construction. -/
inductive Operation where
  | emit (op : Opcode) (arg : Nat)
  | register (item : Item)
  /-- A block may be refused. What was added before that stays. -/
  | block (ss : List Stmt)

/-- The item has place `i` in its pool. -/
def Code.Holds (c : Code) (i : Nat) : Item → Prop
  | .number v => c.numbers[i]? = some v
  | .text s => c.texts[i]? = some s
  | .function g => c.functions[i]? = some g
  | .name x => c.names[i]? = some x

namespace Builder

def register (b : Builder) : Item → Builder × Nat
  | .number v => b.addNumber v
  | .text s => b.addText s
  | .function g => b.addFunction g
  | .name x => b.addName x

def perform (b : Builder) : Operation → Builder
  | .emit op arg => b.emit op arg
  | .register item => (b.register item).1
  | .block ss => ((compileBlock ss).exec b).2

def after (b : Builder) (ops : List Operation) : Builder := ops.foldl perform b

theorem withNames_eq_after (names : List String) :
    withNames names = empty.after (names.map fun x => .register (.name x)) := by
  rw [after, List.foldl_map]
  rfl

/-- The item is found where it was put, in all code that comes of the builder. -/
theorem register_lays (b : Builder) (item : Item) :
    ∃ xs, Lays b (b.register item).1 xs fun c _ _ => c.Holds (b.register item).2 item := by
  cases item with
  | number v => exact ⟨_, (Lays.addNumber rfl).mono fun _ _ _ h => h.2⟩
  | text s => exact ⟨_, (Lays.addText rfl).mono fun _ _ _ h => h.2⟩
  | function g => exact ⟨_, (Lays.addFunction rfl).mono fun _ _ _ h => h.2⟩
  | name x => exact ⟨_, (Lays.addName rfl).mono fun _ _ _ h => h.2⟩

theorem perform_grows (b : Builder) (op : Operation) : ∃ xs, b.Grows (b.perform op) xs := by
  cases op with
  | emit op arg => exact ⟨_, .emit b op arg⟩
  | register item =>
    obtain ⟨xs, h⟩ := b.register_lays item
    exact ⟨xs, h.grows⟩
  | block ss => exact (Emit.selfContained_block ss).appends b

theorem after_grows (b : Builder) (ops : List Operation) : ∃ xs, b.Grows (b.after ops) xs := by
  induction ops generalizing b with
  | nil => exact ⟨_, .refl b⟩
  | cons op ops ih =>
    obtain ⟨xs, h⟩ := b.perform_grows op
    obtain ⟨ys, h'⟩ := ih (b.perform op)
    exact ⟨_, h.trans h'⟩

end Builder

/-- What was laid is found in the finished code, whatever is done later. -/
theorem Lays.finished {b b' : Builder} {xs : List String} {P : Code → Nat → Nat → Prop}
    (h : Lays b b' xs P) (later : List Operation) (f : String) (n : Nat) :
    P ((b'.after later).finish f n) b.position b'.position := by
  obtain ⟨ys, hlater⟩ := b'.after_grows later
  have hc := (Code.covers_finish (b'.after later) f n).of_grows hlater
  exact h.placed _ (hc.later (Nat.zero_le _))

namespace Context

variable {c : Context}

def register (c : Context) : Item → Context × Nat
  | .number v => c.addNumber v
  | .text s => c.addText s
  | .function g => c.addFunction g
  | .name x => c.addName x

def perform (c : Context) : Operation → Context
  | .emit op arg => c.emit op arg
  | .register item => (c.register item).1
  | .block ss => ((IndexedEmit.compileBlock ss).exec c).2

def after (c : Context) (ops : List Operation) : Context := ops.foldl perform c

theorem withNames_eq_after (names : List String) :
    withNames names = new.after (names.map fun x => .register (.name x)) := by
  rw [after, List.foldl_map]
  rfl

namespace Consistent

theorem register (h : c.Consistent) (item : Item) :
    Matches (c.register item).swap (c.toBuilder.register item).swap := by
  cases item with
  | number v => exact h.addNumber v
  | text s => exact h.addText s
  | function g => exact h.addFunction g
  | name x => exact h.addName x

theorem perform (h : c.Consistent) (op : Operation) :
    (c.perform op).Consistent ∧ (c.perform op).toBuilder = c.toBuilder.perform op := by
  cases op with
  | emit op arg => exact ⟨h.emit op arg, rfl⟩
  | register item => exact ⟨(h.register item).consistent, (h.register item).builder⟩
  | block ss =>
    have hblock := IndexedEmit.block_tracks ss c h
    exact ⟨hblock.consistent, hblock.builder⟩

theorem after (h : c.Consistent) (ops : List Operation) :
    (c.after ops).Consistent ∧ (c.after ops).toBuilder = c.toBuilder.after ops := by
  induction ops generalizing c with
  | nil => exact ⟨h, rfl⟩
  | cons op ops ih =>
    obtain ⟨hop, hbuilder⟩ := h.perform op
    obtain ⟨hall, hafter⟩ := ih hop
    rw [hbuilder] at hafter
    exact ⟨hall, hafter⟩

theorem finish_after (h : c.Consistent) (ops : List Operation) (f : String) (n : Nat) :
    (c.after ops).finish f n = (c.toBuilder.after ops).finish f n := by
  rw [← (h.after ops).2]

/-- The same place is handed out as without indexes, and it keeps the item. -/
theorem holds (h : c.Consistent) {c' : Context} {item : Item} {i : Nat}
    (hitem : c.register item = (c', i)) : c.toBuilder.register item = (c'.toBuilder, i) ∧
      ∀ (later : List Operation) (f : String) (n : Nat),
        ((c'.after later).finish f n).Holds i item := by
  obtain ⟨hplace, hbuilder, hc'⟩ := h.register item
  rw [hitem] at hplace hbuilder hc'
  change c'.Consistent at hc'
  have heq : c.toBuilder.register item = (c'.toBuilder, i) := Prod.ext hbuilder.symm hplace.symm
  refine ⟨heq, fun later f n => ?_⟩
  obtain ⟨xs, hput⟩ := c.toBuilder.register_lays item
  rw [heq] at hput
  rw [finish_after hc']
  exact hput.finished later f n

/-- The arguments of a block's instructions refer to its parts, whatever is done later. -/
theorem spells (h : c.Consistent) {c' : Context} {ss : List Stmt}
    (hblock : (IndexedEmit.compileBlock ss).exec c = (.ok (), c')) (later : List Operation)
    (f : String) (n : Nat) :
    ((c'.after later).finish f n).Spells c.position c'.position (blockOperands ss) := by
  obtain ⟨hresult, hbuilder, hc'⟩ := IndexedEmit.block_tracks ss c h
  rw [hblock] at hresult hbuilder hc'
  have hyields : Emit.Yields (compileBlock ss) c.toBuilder () c'.toBuilder :=
    Prod.ext hresult.symm hbuilder.symm
  rw [finish_after hc']
  exact BlockPlaced.spells ss ((block_compile_lays ss hyields).finished later f n)

end Consistent

theorem consistent_withNames (names : List String) :
    (withNames names).Consistent ∧ (withNames names).toBuilder = Builder.withNames names := by
  rw [withNames_eq_after, Builder.withNames_eq_after]
  exact consistent_new.after _

end Context

/-- Interning is consistent. Whatever is done to code under construction that starts with some
names, no number is there twice, by its bits, and no text and no name; each index is the inverse of
its pool; and the code is what it is without indexes. An item has the place that was handed out for it
in the finished code too, and the arguments of a block's instructions refer there to the block's
literals and names. So a function has the same code with indexes and without them. Its first names
are its parameters, in order; the others follow in the order in which its instructions first mention
them; names that are mentioned only in a function inside it are not there; and each argument in its
code refers to the literal or the name in its body for which the instruction stands. -/
theorem interning_is_consistent :
    (∀ (names : List String) (past : List Operation),
      ((Context.withNames names).after past).Consistent ∧
      ((Context.withNames names).after past).toBuilder = (Builder.withNames names).after past ∧
      (∀ (item : Item) (c : Context) (i : Nat),
        ((Context.withNames names).after past).register item = (c, i) →
          ((Builder.withNames names).after past).register item = (c.toBuilder, i) ∧
          ∀ (later : List Operation) (f : String) (n : Nat),
            ((c.after later).finish f n).Holds i item) ∧
      ∀ (ss : List Stmt) (c : Context),
        (IndexedEmit.compileBlock ss).exec ((Context.withNames names).after past) = (.ok (), c) →
          ∀ (later : List Operation) (f : String) (n : Nat),
            ((c.after later).finish f n).Spells ((Context.withNames names).after past).position
              c.position (blockOperands ss)) ∧
    ∀ (f : String) (params : List String) (body : List Stmt),
      IndexedEmit.compileFunction f params body = Code.ofFunction f params body ∧
      ∀ code, Code.ofFunction f params body = .ok code →
        code.argCount = params.length ∧
        code.names.toList = params ++ (code.mentioned.filter fun x => x ∉ params).eraseDups ∧
        (∀ x, x ∈ code.names.toList ↔ x ∈ params ∨ x ∈ blockSlots body) ∧
        List.Forall₂ code.Denotes (code.code.toList.filter Instruction.hasOperand)
          (blockOperands body) := by
  constructor
  · intro names past
    obtain ⟨hstart, hbuilder⟩ := Context.consistent_withNames names
    obtain ⟨hc, hafter⟩ := hstart.after past
    rw [hbuilder] at hafter
    rw [← hafter]
    exact ⟨hc, rfl, fun item c i hitem => hc.holds hitem, fun ss c hblock => hc.spells hblock⟩
  · intro f params body
    refine ⟨IndexedEmit.compileFunction_eq f params body, fun code hcode => ?_⟩
    obtain ⟨⟨last, hruns⟩, -, hcount, -⟩ := Code.ofFunction_runs hcode
    have hnames := Code.ofFunction_names hcode
    refine ⟨hcount, ?_, ?_, hruns.denotes⟩
    · rw [hruns.mentioned]
      exact hnames
    · intro x
      rw [hnames]
      by_cases hx : x ∈ params <;> simp [hx]

/-- A body with both zeros and with a function that has variables of its own. -/
def twoZeros : List Stmt :=
  [.assign "z" (.binary .add (.number ⟨0⟩) (.name "a")),
    .expr (.function "g" ["p"] [.ret (some (.name "q"))]),
    .assign "z" (.binary .add (.number ⟨0x8000000000000000⟩) (.number ⟨0⟩)), .ret none]

def zeroFirst : List Operation := [.register (.number ⟨0⟩)]

/-- The negative zero comes behind the other zero, alone and in a block; and the function has no
names of the one inside it. -/
theorem interning_is_consistent_twoZeros :
    (∃ c, ((Context.withNames ["a"]).after zeroFirst).register (.number ⟨0x8000000000000000⟩) =
        (c, 1) ∧
      ∀ later f n, ((c.after later).finish f n).Holds 1 (.number ⟨0x8000000000000000⟩)) ∧
    (∃ c, (IndexedEmit.compileBlock twoZeros).exec ((Context.withNames ["a"]).after zeroFirst) =
        (.ok (), c) ∧
      ∀ later f n, ((c.after later).finish f n).Spells 0 c.position (blockOperands twoZeros)) ∧
    ∃ code, IndexedEmit.compileFunction "f" ["b", "a"] twoZeros = .ok code ∧
      code.names.toList = ["b", "a", "z", "g"] ∧
      code.numbers.toList = [⟨0⟩, ⟨0x8000000000000000⟩] ∧
      List.Forall₂ code.Denotes (code.code.toList.filter Instruction.hasOperand)
        (blockOperands twoZeros) := by
  obtain ⟨hcons, hbuilder, hregister, hblock⟩ := interning_is_consistent.1 ["a"] zeroFirst
  refine ⟨?_, ?_, ?_⟩
  · cases hput : ((Context.withNames ["a"]).after zeroFirst).register
      (.number ⟨0x8000000000000000⟩) with
    | mk c i =>
      obtain ⟨hplace, hholds⟩ := hregister _ c i hput
      have hone : (((Builder.withNames ["a"]).after zeroFirst).register
          (.number ⟨0x8000000000000000⟩)).2 = 1 := by decide +kernel
      rw [hplace] at hone
      obtain rfl : i = 1 := hone
      exact ⟨c, rfl, hholds⟩
  · have hresult := (IndexedEmit.block_tracks twoZeros _ hcons).result
    rw [hbuilder] at hresult
    have hok : ((compileBlock twoZeros).exec ((Builder.withNames ["a"]).after zeroFirst)).1 =
        .ok () := by
      with_unfolding_all rfl
    have hat : ((Context.withNames ["a"]).after zeroFirst).position = 0 :=
      congrArg Builder.position hbuilder
    rw [hat] at hblock
    cases hexec : (IndexedEmit.compileBlock twoZeros).exec
        ((Context.withNames ["a"]).after zeroFirst) with
    | mk r c =>
      rw [hexec] at hresult
      obtain rfl : r = .ok () := hresult.trans hok
      exact ⟨c, rfl, hblock twoZeros c hexec⟩
  · have hpools : (Code.ofFunction "f" ["b", "a"] twoZeros).toOption.map
        (fun code => (code.names.toList, code.numbers.toList)) =
          some (["b", "a", "z", "g"], [⟨0⟩, ⟨0x8000000000000000⟩]) := by
      decide +kernel
    obtain ⟨hcompile, hall⟩ := interning_is_consistent.2 "f" ["b", "a"] twoZeros
    cases hcode : Code.ofFunction "f" ["b", "a"] twoZeros with
    | error e =>
      rw [hcode] at hpools
      cases hpools
    | ok code =>
      rw [hcode] at hpools hcompile
      obtain ⟨hnames, hnumbers⟩ := Prod.ext_iff.mp (Option.some.inj hpools)
      exact ⟨code, hcompile, hnames, hnumbers, (hall code hcode).2.2.2⟩

end Scriptlet
