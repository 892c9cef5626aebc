import Scriptlet.Proofs.Bytecode.Placement

/-! All functions that compiled code can make were compiled as well. -/
namespace Scriptlet

open Emit

/-- A property of code under construction that holds whatever is added to it. -/
structure Builder.Stable (I : Builder → Prop) : Prop where
  emit : ∀ b op arg, I b → I (b.emit op arg)
  patch : ∀ b place target, I b → I (b.patch place target)
  number : ∀ b v, I b → I (b.addNumber v).1
  text : ∀ b s, I b → I (b.addText s).1
  name : ∀ b x, I b → I (b.addName x).1
  function : ∀ b f params body g, Code.ofFunction f params body = .ok g → I b →
    I (b.addFunction g).1

namespace Emit

variable {I : Builder → Prop} {α β : Type}

/-- If the emission succeeds, the property holds afterwards. -/
def Keeps (I : Builder → Prop) (x : Emit α) : Prop := ∀ b a b', Yields x b a b' → I b → I b'

theorem Keeps.bind {x : Emit α} {f : α → Emit β} (hx : Keeps I x) (hf : ∀ a, Keeps I (f a)) :
    Keeps I (x >>= f) := by
  intro b y b' h hb
  obtain ⟨a, b₁, h₁, h₂⟩ := yields_bind.mp h
  exact hf a b₁ y b' h₂ (hx b a b₁ h₁ hb)

/-- What follows a computation that emits nothing. -/
theorem Keeps.lift_bind {r : Except CompileError α} {f : α → Emit β}
    (hf : ∀ a, r = .ok a → Keeps I (f a)) : Keeps I (liftM r >>= f) := by
  intro b y b' h hb
  obtain ⟨a, b₁, h₁, h₂⟩ := yields_bind.mp h
  obtain ⟨hr, rfl⟩ := yields_lift.mp h₁
  exact hf a hr b y b' h₂ hb

theorem keeps_pure (a : α) : Keeps I (pure a) := by
  intro b a' b' h hb
  obtain ⟨-, rfl⟩ := yields_pure.mp h
  exact hb

theorem keeps_get : Keeps I get := by
  intro b a b' h hb
  obtain ⟨-, rfl⟩ := yields_get.mp h
  exact hb

variable (hI : Builder.Stable I)
include hI

theorem keeps_instruction (op : Opcode) (arg : Nat) : Keeps I (instruction op arg) := by
  intro b a b' h hb
  rw [← yields_instruction.mp h]
  exact hI.emit b op arg hb

theorem keeps_openJump (op : Opcode) : Keeps I (openJump op) := by
  intro b place b' h hb
  rw [← (yields_openJump.mp h).2]
  exact hI.emit b op 0 hb

theorem keeps_closeJump (place : Nat) : Keeps I (closeJump place) := by
  intro b a b' h hb
  rw [← yields_closeJump.mp h]
  exact hI.patch b place b.position hb

theorem keeps_number (v : Number) : Keeps I (number v) := by
  intro b i b' h hb
  have hadd := hI.number b v hb
  rwa [yields_number.mp h] at hadd

theorem keeps_text (s : String) : Keeps I (text s) := by
  intro b i b' h hb
  have hadd := hI.text b s hb
  rwa [yields_text.mp h] at hadd

theorem keeps_name (x : String) : Keeps I (name x) := by
  intro b i b' h hb
  have hadd := hI.name b x hb
  rwa [yields_name.mp h] at hadd

theorem keeps_function {f : String} {params : List String} {body : List Stmt} {g : Code}
    (hg : Code.ofFunction f params body = .ok g) : Keeps I (function g) := by
  intro b i b' h hb
  have hadd := hI.function b f params body g hg hb
  rwa [yields_function.mp h] at hadd

theorem keeps_parameters (f : String) (ps : List String) : Keeps I (parameters f ps) := by
  induction ps with
  | nil => exact keeps_pure ()
  | cons p ps ih =>
    refine keeps_get.bind fun b => ?_
    split
    · intro b₀ a b' h
      obtain ⟨_, _, h, -⟩ := yields_bind.mp h
      exact absurd h yields_throw
    · exact (keeps_name hI p).bind fun _ => ih

end Emit

section Compilation
variable {I : Builder → Prop}

mutual

theorem Expr.compile_keeps (hI : Builder.Stable I) : (e : Expr) → Keeps I e.compile
  | .number v => (keeps_number hI v).bind fun _ => keeps_instruction hI _ _
  | .boolean _ => keeps_instruction hI _ _
  | .text s => (keeps_text hI s).bind fun _ => keeps_instruction hI _ _
  | .name x => (keeps_name hI x).bind fun _ => keeps_instruction hI _ _
  | .binary _ l r =>
    (Expr.compile_keeps hI l).bind fun _ => (Expr.compile_keeps hI r).bind fun _ =>
      keeps_instruction hI _ _
  | .call f args =>
    (Expr.compile_keeps hI f).bind fun _ => (args_compile_keeps hI args).bind fun _ =>
      keeps_instruction hI _ _
  | .function f _ _ =>
    .lift_bind fun _ hg => (keeps_function hI hg).bind fun _ => (keeps_name hI f).bind fun _ =>
      (keeps_instruction hI _ _).bind fun _ => (keeps_instruction hI _ _).bind fun _ =>
        keeps_instruction hI _ _

theorem args_compile_keeps (hI : Builder.Stable I) : (es : List Expr) → Keeps I (compileArgs es)
  | [] => keeps_pure ()
  | e :: es => (Expr.compile_keeps hI e).bind fun _ => args_compile_keeps hI es

end

mutual

theorem Stmt.compile_keeps (hI : Builder.Stable I) : (s : Stmt) → Keeps I s.compile
  | .expr e => (e.compile_keeps hI).bind fun _ => keeps_instruction hI _ _
  | .assign x e =>
    (e.compile_keeps hI).bind fun _ => (keeps_name hI x).bind fun _ => keeps_instruction hI _ _
  | .branch test body =>
    (test.compile_keeps hI).bind fun _ => (keeps_openJump hI _).bind fun _ =>
      (block_compile_keeps hI body).bind fun _ => keeps_closeJump hI _
  | .loop test body =>
    keeps_get.bind fun _ => (test.compile_keeps hI).bind fun _ =>
      (keeps_openJump hI _).bind fun _ => (block_compile_keeps hI body).bind fun _ =>
        (keeps_instruction hI _ _).bind fun _ => keeps_closeJump hI _
  | .ret none => keeps_instruction hI _ _
  | .ret (some e) => (e.compile_keeps hI).bind fun _ => keeps_instruction hI _ _

theorem block_compile_keeps (hI : Builder.Stable I) : (ss : List Stmt) → Keeps I (compileBlock ss)
  | [] => keeps_pure ()
  | s :: ss => (Stmt.compile_keeps hI s).bind fun _ => block_compile_keeps hI ss

end
end Compilation

/-- The code of a script or of a function with this body. -/
inductive Code.Of (body : List Stmt) (c : Code) : Prop
  | script {names : List String} (compiled : Program.compileWith names ⟨body⟩ = .ok c)
  | function {f : String} {params : List String} (compiled : Code.ofFunction f params body = .ok c)

/-- The code of some script or function. -/
def Code.Compiled (c : Code) : Prop := ∃ body, c.Of body

/-- All functions in the pool were compiled. -/
def Builder.Sourced (b : Builder) : Prop := ∀ g ∈ b.functions, g.Compiled

theorem Builder.stable_sourced : Builder.Stable Builder.Sourced where
  emit _ _ _ h := h
  patch _ _ _ h := h
  number _ _ h := h
  text _ _ h := h
  name _ _ h := h
  function b f params body g hg h := by
    intro k hk
    rcases List.mem_append.mp hk with hold | hnew
    · exact h k hold
    · rw [List.mem_singleton.mp hnew]
      exact ⟨body, .function hg⟩

namespace Code

variable {c : Code} {body : List Stmt}

theorem Of.runs (h : c.Of body) : ∃ last, c.Runs body last := by
  cases h with
  | script compiled => exact (Program.compileWith_runs compiled).1
  | function compiled => exact (Code.ofFunction_runs compiled).1

/-- The functions of compiled code were compiled. -/
theorem Of.functions (h : c.Of body) : ∀ g ∈ c.functions, g.Compiled := by
  have hclosed {b : Builder} {f : String} {n : Nat} {x : Emit Unit} (hb : b.Sourced)
      (hx : Keeps Builder.Sourced x) (hc : closed b f n x = .ok c) : ∀ g ∈ c.functions, g.Compiled := by
    obtain ⟨b', hy, rfl⟩ := closed_eq_ok.mp hc
    exact hx b () b' hy hb
  have hblock := block_compile_keeps Builder.stable_sourced body
  cases h with
  | @script names compiled =>
    apply hclosed _ hblock compiled
    rw [Builder.withNames_eq]
    simp [Builder.Sourced, Builder.empty]
  | @function f params compiled =>
    apply hclosed _ ((keeps_parameters Builder.stable_sourced f params).bind fun _ => hblock) compiled
    simp [Builder.Sourced, Builder.empty]

theorem Compiled.functions (h : c.Compiled) : ∀ g ∈ c.functions, g.Compiled := by
  obtain ⟨body, hc⟩ := h
  exact hc.functions

theorem Compiled.nodup (h : c.Compiled) : c.names.toList.Nodup := by
  obtain ⟨body, hc⟩ := h
  obtain ⟨last, hruns⟩ := hc.runs
  exact hruns.nodup

end Code
end Scriptlet
