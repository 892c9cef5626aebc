import Scriptlet.Proofs.Bytecode.Placement

/-! Which trees have code: those in which no function has a parameter twice. Otherwise the error
names the first function that repeats one, in the order of compilation, and the first of its
parameters that is there already. -/
namespace Scriptlet

mutual

/-- No function in the expression has a parameter twice. -/
def Expr.distinct : Expr → Bool
  | .number _ | .boolean _ | .text _ | .name _ => true
  | .binary _ l r => l.distinct && r.distinct
  | .call f args => f.distinct && argsDistinct args
  | .function _ params body => decide params.Nodup && blockDistinct body

def argsDistinct : List Expr → Bool
  | [] => true
  | e :: es => e.distinct && argsDistinct es

def Stmt.distinct : Stmt → Bool
  | .expr e => e.distinct
  | .assign _ e => e.distinct
  | .branch test body | .loop test body => test.distinct && blockDistinct body
  | .ret none => true
  | .ret (some e) => e.distinct

def blockDistinct : List Stmt → Bool
  | [] => true
  | s :: ss => s.distinct && blockDistinct ss

end

theorem blockDistinct_append (ss ts : List Stmt) :
    blockDistinct (ss ++ ts) = (blockDistinct ss && blockDistinct ts) := by
  induction ss with
  | nil => rfl
  | cons s ss ih => simp [blockDistinct, ih, Bool.and_assoc]

def Program.distinct (p : Program) : Bool := blockDistinct p.body

/-- What is known of a function before its body. -/
structure Signature where
  name : String
  params : List String

mutual

/-- The functions of an expression in the order of compilation: left before right, callee before
arguments, and a function before those in its body. -/
def Expr.signatures : Expr → List Signature
  | .number _ | .boolean _ | .text _ | .name _ => []
  | .binary _ l r => l.signatures ++ r.signatures
  | .call f args => f.signatures ++ argSignatures args
  | .function f params body => ⟨f, params⟩ :: blockSignatures body

def argSignatures : List Expr → List Signature
  | [] => []
  | e :: es => e.signatures ++ argSignatures es

def Stmt.signatures : Stmt → List Signature
  | .expr e | .assign _ e | .ret (some e) => e.signatures
  | .branch test body | .loop test body => test.signatures ++ blockSignatures body
  | .ret none => []

def blockSignatures : List Stmt → List Signature
  | [] => []
  | s :: ss => s.signatures ++ blockSignatures ss

end

def Program.signatures (p : Program) : List Signature := blockSignatures p.body

/-- The first of the names that is among `seen` or equals one before it. -/
def repeatedAfter (seen : List String) : List String → Option String
  | [] => none
  | x :: xs => if x ∈ seen then some x else repeatedAfter (seen ++ [x]) xs

section Repeated
variable {seen xs : List String}

theorem repeatedAfter_eq_none (h : seen.Nodup) :
    repeatedAfter seen xs = none ↔ (seen ++ xs).Nodup := by
  induction xs generalizing seen with
  | nil => simpa [repeatedAfter] using h
  | cons x xs ih =>
    unfold repeatedAfter
    by_cases hx : x ∈ seen
    · have hnot : ¬ (seen ++ x :: xs).Nodup := by
        intro hn
        exact (List.nodup_append.mp hn).2.2 x hx x (by simp) rfl
      simp [hx, hnot]
    · have hnext : (seen ++ [x]).Nodup := by simpa using List.Nodup.concat hx h
      rw [if_neg hx, ih hnext, List.append_assoc, List.singleton_append]

theorem repeatedAfter_eq_some (h : seen.Nodup) {y : String} :
    repeatedAfter seen xs = some y ↔
      ∃ before after, xs = before ++ y :: after ∧ (seen ++ before).Nodup ∧ y ∈ seen ++ before := by
  induction xs generalizing seen with
  | nil => simp [repeatedAfter]
  | cons x xs ih =>
    unfold repeatedAfter
    by_cases hx : x ∈ seen
    · rw [if_pos hx]
      constructor
      · intro hy
        obtain rfl := Option.some.inj hy
        exact ⟨[], xs, rfl, by simpa using h, by simpa using hx⟩
      · intro hy
        obtain ⟨before, after, hxs, hn, hmem⟩ := hy
        cases before with
        | nil =>
          obtain ⟨rfl, -⟩ := List.cons.inj hxs
          rfl
        | cons z before =>
          -- the head cannot be among the names before the repeated one
          obtain ⟨rfl, -⟩ := List.cons.inj hxs
          exact absurd rfl ((List.nodup_append.mp hn).2.2 x hx x (by simp))
    · have hnext : (seen ++ [x]).Nodup := by simpa using List.Nodup.concat hx h
      rw [if_neg hx, ih hnext]
      constructor
      · intro hy
        obtain ⟨before, after, rfl, hn, hmem⟩ := hy
        exact ⟨x :: before, after, rfl, by simpa using hn, by simpa using hmem⟩
      · intro hy
        obtain ⟨before, after, hxs, hn, hmem⟩ := hy
        cases before with
        | nil =>
          obtain ⟨rfl, -⟩ := List.cons.inj hxs
          exact absurd (by simpa using hmem) hx
        | cons z before =>
          obtain ⟨rfl, rfl⟩ := List.cons.inj hxs
          exact ⟨before, after, rfl, by simpa using hn, by simpa using hmem⟩

end Repeated

/-- What is wrong with a function's parameters, if anything is. -/
def Signature.offence? (s : Signature) : Option CompileError :=
  (repeatedAfter [] s.params).map (.duplicateParameter s.name)

theorem Signature.offence?_eq_none {s : Signature} : s.offence? = none ↔ s.params.Nodup := by
  unfold Signature.offence?
  rw [Option.map_eq_none_iff, repeatedAfter_eq_none List.nodup_nil, List.nil_append]

/-- The first thing that is wrong. -/
def offence? (ss : List Signature) : Option CompileError := ss.findSome? Signature.offence?

theorem offence?_append (ss ts : List Signature) :
    offence? (ss ++ ts) = (offence? ss).or (offence? ts) := List.findSome?_append

theorem offence?_cons (s : Signature) (ss : List Signature) :
    offence? (s :: ss) = s.offence?.or (offence? ss) := by
  rw [← List.singleton_append, offence?_append]
  congr 1
  simp [offence?]

/-- The error of a result, if it is one. -/
def error? {ε α : Type} : Except ε α → Option ε
  | .ok _ => none
  | .error e => some e

theorem error?_eq_none {ε α : Type} {r : Except ε α} : error? r = none ↔ ∃ a, r = .ok a := by
  cases r <;> simp [error?]

theorem error?_eq_some {ε α : Type} {r : Except ε α} {e : ε} : error? r = some e ↔ r = .error e := by
  cases r <;> simp [error?]

namespace Emit

variable {α β : Type} {r r' : Option CompileError}

/-- Whatever was emitted before, the emission fails with this error, or succeeds if there is none. -/
def Refuses (x : Emit α) (r : Option CompileError) : Prop := ∀ b, error? (x.exec b).1 = r

theorem Refuses.bind {x : Emit α} {f : α → Emit β} (hx : Refuses x r) (hf : ∀ a, Refuses (f a) r') :
    Refuses (x >>= f) (r.or r') := by
  intro b
  have hb := hx b
  rw [exec_bind]
  cases h : x.exec b with
  | mk result b' =>
    rw [h] at hb
    subst hb
    cases result with
    | ok a => exact hf a b'
    | error e => rfl

/-- What succeeds before or after does not matter. -/
theorem Refuses.before {x : Emit α} {f : α → Emit β} (hx : Refuses x none)
    (hf : ∀ a, Refuses (f a) r) : Refuses (x >>= f) r := by
  simpa using hx.bind hf

theorem Refuses.after {x : Emit α} {f : α → Emit β} (hx : Refuses x r)
    (hf : ∀ a, Refuses (f a) none) : Refuses (x >>= f) r := by
  simpa using hx.bind hf

theorem refuses_pure (a : α) : Refuses (pure a) none := fun _ => rfl

theorem refuses_get : Refuses get none := fun _ => rfl

theorem refuses_instruction (op : Opcode) (arg : Nat) : Refuses (instruction op arg) none :=
  fun _ => rfl

theorem refuses_openJump (op : Opcode) : Refuses (openJump op) none := fun _ => rfl

theorem refuses_closeJump (place : Nat) : Refuses (closeJump place) none := fun _ => rfl

theorem refuses_number (v : Number) : Refuses (number v) none := fun _ => rfl

theorem refuses_text (s : String) : Refuses (text s) none := fun _ => rfl

theorem refuses_function (c : Code) : Refuses (function c) none := fun _ => rfl

theorem refuses_name (x : String) : Refuses (name x) none := fun _ => rfl

theorem refuses_lift (r : Except CompileError α) : Refuses (liftM r) (error? r) := fun _ => rfl

/-- Parameters are refused at the first one that has a slot already. -/
theorem parameters_refuse (f : String) (ps : List String) (b : Builder) :
    error? ((parameters f ps).exec b).1 =
      (repeatedAfter b.names.toList ps).map (.duplicateParameter f) := by
  induction ps generalizing b with
  | nil => rfl
  | cons p ps ih =>
    unfold parameters repeatedAfter
    rw [exec_bind]
    change error? ((if b.names.contains p = true then throw _ else _ : Emit Unit).exec b).1 = _
    by_cases hp : p ∈ b.names.toList
    · have hc : b.names.contains p = true := by simpa using hp
      rw [if_pos hc, if_pos hp]
      rfl
    · have hc : ¬ b.names.contains p = true := by simpa using hp
      have hx : b.names.idxOf? p = none := by simpa using hc
      have hnames : (b.addName p).1.names.toList = b.names.toList ++ [p] := by
        simp [Builder.addName, intern, hx]
      rw [if_neg hc, if_neg hp, ← hnames, ← ih, exec_bind]
      rfl

/-- Ending the code adds no error. -/
theorem closed_refuses (b : Builder) (f : String) (n : Nat) (body : Emit Unit) :
    error? (closed b f n body) = error? (body.exec b).1 := by
  have hr : (do body; instruction .ret 0 : Emit Unit).run.run b =
      (body >>= fun _ => instruction .ret 0).exec b := rfl
  unfold closed
  rw [hr, exec_bind]
  cases body.exec b with
  | mk result b' => cases result <;> rfl

end Emit

open Emit

/-- The parameters of a function are looked at before its body. -/
theorem Code.ofFunction_refuses (f : String) (params : List String) {body : List Stmt}
    {r : Option CompileError} (h : Refuses (compileBlock body) r) :
    error? (Code.ofFunction f params body) = (Signature.offence? ⟨f, params⟩).or r := by
  have hp := parameters_refuse f params .empty
  unfold Code.ofFunction
  rw [closed_refuses, exec_bind]
  cases hx : (parameters f params).exec .empty with
  | mk result b =>
    rw [hx] at hp
    have hs : Signature.offence? ⟨f, params⟩ = error? result := hp.symm
    rw [hs]
    cases result with
    | ok a => exact h b
    | error e => rfl

mutual

theorem Expr.compile_refuses : (e : Expr) → Refuses e.compile (offence? e.signatures)
  | .number v => (refuses_number v).before fun i => refuses_instruction .loadNumber i
  | .boolean v => refuses_instruction .loadBoolean v.toNat
  | .text s => (refuses_text s).before fun i => refuses_instruction .loadText i
  | .name x => (refuses_name x).before fun i => refuses_instruction .loadVar i
  | .binary op l r => by
    rw [Expr.signatures, offence?_append]
    exact l.compile_refuses.bind fun _ => r.compile_refuses.after fun _ =>
      refuses_instruction (.binary op) 0
  | .call f args => by
    rw [Expr.signatures, offence?_append]
    exact f.compile_refuses.bind fun _ => (args_compile_refuses args).after fun _ =>
      refuses_instruction .call args.length
  | .function f params body => by
    rw [Expr.signatures, offence?_cons, ← Code.ofFunction_refuses f params (block_compile_refuses body)]
    refine (refuses_lift (Code.ofFunction f params body)).after fun c => ?_
    refine (refuses_function c).before fun i => (refuses_name f).before fun j => ?_
    exact (refuses_instruction .loadFunction i).before fun _ =>
      (refuses_instruction .assign j).before fun _ => refuses_instruction .loadFunction i

theorem args_compile_refuses : (es : List Expr) →
    Refuses (compileArgs es) (offence? (argSignatures es))
  | [] => refuses_pure ()
  | e :: es => by
    rw [argSignatures, offence?_append]
    exact e.compile_refuses.bind fun _ => args_compile_refuses es

theorem Stmt.compile_refuses : (s : Stmt) → Refuses s.compile (offence? s.signatures)
  | .expr e => e.compile_refuses.after fun _ => refuses_instruction .discard 0
  | .assign x e => e.compile_refuses.after fun _ =>
      (refuses_name x).before fun i => refuses_instruction .assign i
  | .branch test body => by
    rw [Stmt.signatures, offence?_append]
    exact test.compile_refuses.bind fun _ => (refuses_openJump .jumpIfFalse).before fun place =>
      (block_compile_refuses body).after fun _ => refuses_closeJump place
  | .loop test body => by
    rw [Stmt.signatures, offence?_append]
    exact refuses_get.before fun b => test.compile_refuses.bind fun _ =>
      (refuses_openJump .jumpIfFalse).before fun place =>
        (block_compile_refuses body).after fun _ =>
          (refuses_instruction .jump b.position).before fun _ => refuses_closeJump place
  | .ret none => refuses_instruction .ret 0
  | .ret (some e) => e.compile_refuses.after fun _ => refuses_instruction .ret 1

theorem block_compile_refuses : (ss : List Stmt) →
    Refuses (compileBlock ss) (offence? (blockSignatures ss))
  | [] => refuses_pure ()
  | s :: ss => by
    rw [blockSignatures, offence?_append]
    exact s.compile_refuses.bind fun _ => block_compile_refuses ss

end

/-- A script is refused for the first thing that is wrong in it, whatever variables are there. -/
theorem Program.compileWith_refuses (p : Program) (names : List String) :
    error? (p.compileWith names) = offence? p.signatures := by
  unfold Program.compileWith
  rw [closed_refuses]
  exact block_compile_refuses p.body _

mutual

theorem Expr.distinct_iff : (e : Expr) →
    (e.distinct = true ↔ ∀ s ∈ e.signatures, s.params.Nodup)
  | .number _ | .boolean _ | .text _ | .name _ => by simp [Expr.distinct, Expr.signatures]
  | .binary _ l r => by
    simp [Expr.distinct, Expr.signatures, l.distinct_iff, r.distinct_iff, or_imp, forall_and]
  | .call f args => by
    simp [Expr.distinct, Expr.signatures, f.distinct_iff, argsDistinct_iff args, or_imp, forall_and]
  | .function f params body => by
    simp [Expr.distinct, Expr.signatures, blockDistinct_iff body]

theorem argsDistinct_iff : (es : List Expr) →
    (argsDistinct es = true ↔ ∀ s ∈ argSignatures es, s.params.Nodup)
  | [] => by simp [argsDistinct, argSignatures]
  | e :: es => by
    simp [argsDistinct, argSignatures, e.distinct_iff, argsDistinct_iff es, or_imp, forall_and]

theorem Stmt.distinct_iff : (s : Stmt) →
    (s.distinct = true ↔ ∀ t ∈ s.signatures, t.params.Nodup)
  | .expr e | .assign _ e | .ret (some e) => by
    simp only [Stmt.distinct, Stmt.signatures, e.distinct_iff]
  | .branch test body | .loop test body => by
    simp [Stmt.distinct, Stmt.signatures, test.distinct_iff, blockDistinct_iff body, or_imp,
      forall_and]
  | .ret none => by simp [Stmt.distinct, Stmt.signatures]

theorem blockDistinct_iff : (ss : List Stmt) →
    (blockDistinct ss = true ↔ ∀ t ∈ blockSignatures ss, t.params.Nodup)
  | [] => by simp [blockDistinct, blockSignatures]
  | s :: ss => by
    simp [blockDistinct, blockSignatures, s.distinct_iff, blockDistinct_iff ss, or_imp, forall_and]

end

theorem offence?_eq_none {ss : List Signature} :
    offence? ss = none ↔ ∀ s ∈ ss, s.params.Nodup := by
  unfold offence?
  simp only [List.findSome?_eq_none_iff, Signature.offence?_eq_none]

/-- Whether a script compiles does not depend on the variables that are there. -/
theorem Program.compileWith_accepts (p : Program) (names : List String) :
    (∃ c, p.compileWith names = .ok c) ↔ p.distinct = true := by
  rw [← error?_eq_none, p.compileWith_refuses, offence?_eq_none]
  exact (blockDistinct_iff p.body).symm

/-- A script has no code exactly if one of its functions, wherever it stands, repeats a parameter.
The error then names the first such function and the first of its parameters that equals an earlier
one. -/
theorem Program.refused_at_first_repetition (p : Program) (names : List String) :
    ((∃ e, p.compileWith names = .error e) ↔ ∃ s ∈ p.signatures, ¬ s.params.Nodup) ∧
      ∀ e, p.compileWith names = .error e ↔
        ∃ before s after, p.signatures = before ++ s :: after ∧ (∀ t ∈ before, t.params.Nodup) ∧
          ∃ first x rest, s.params = first ++ x :: rest ∧ first.Nodup ∧ x ∈ first ∧
            e = .duplicateParameter s.name x := by
  have hnames (e : CompileError) :
      p.compileWith names = .error e ↔ offence? p.signatures = some e := by
    rw [← error?_eq_some, p.compileWith_refuses]
  constructor
  · have hsome : (∃ e, p.compileWith names = .error e) ↔ offence? p.signatures ≠ none := by
      simp only [hnames, Option.ne_none_iff_exists']
    rw [hsome, Ne, offence?_eq_none]
    simp only [not_forall, exists_prop]
  · intro e
    rw [hnames]
    unfold offence?
    rw [List.findSome?_eq_some_iff]
    simp only [Signature.offence?_eq_none]
    constructor
    · intro h
      obtain ⟨before, s, after, hs, ho, hbefore⟩ := h
      obtain ⟨x, hx, rfl⟩ := Option.map_eq_some_iff.mp ho
      obtain ⟨first, rest, hparams, hnodup, hmem⟩ :=
        (repeatedAfter_eq_some List.nodup_nil).mp hx
      exact ⟨before, s, after, hs, hbefore, first, x, rest, hparams, hnodup, hmem, rfl⟩
    · intro h
      obtain ⟨before, s, after, hs, hbefore, first, x, rest, hparams, hnodup, hmem, rfl⟩ := h
      have hx : repeatedAfter [] s.params = some x :=
        (repeatedAfter_eq_some List.nodup_nil).mpr ⟨first, rest, hparams, hnodup, hmem⟩
      exact ⟨before, s, after, hs, Option.map_eq_some_iff.mpr ⟨x, hx, rfl⟩, hbefore⟩

-- Of two functions that repeat a parameter, the one in the body of the callee comes first.
example : Program.compileWith []
    ⟨[.expr (.call (.function "f" [] [.expr (.function "g" ["a", "b", "b", "a"] [])])
      [.function "h" ["c", "c"] []])]⟩ = .error (.duplicateParameter "g" "b") := by
  with_unfolding_all rfl

end Scriptlet
