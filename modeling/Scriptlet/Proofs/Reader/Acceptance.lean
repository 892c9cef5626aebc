import Scriptlet.Syntax.Equality
import Scriptlet.Proofs.Reader.Building
import Scriptlet.Proofs.Reader.Soundness

/-! What is accepted as a script. -/
namespace Scriptlet

open Token (isNameChar isNameStart)

/-- Whether something can have this name: it is written like a name and is not reserved. -/
def Token.isIdentifier (x : String) : Bool :=
  x.toList.head?.any isNameStart && x.toList.all isNameChar && !keywords.contains x

theorem Identifier.isIdentifier (x : Identifier) : Token.isIdentifier x.text = true := by
  simp [Token.isIdentifier, x.start, x.chars, x.free]

mutual

/-- Whether all names in the expression are identifiers and all texts can stand between quotes. -/
def Expr.isPlain : Expr → Bool
  | .number _ | .boolean _ => true
  | .text s => !s.toList.contains '"'
  | .name x => Token.isIdentifier x
  | .binary _ l r => l.isPlain && r.isPlain
  | .call f args => f.isPlain && exprsPlain args
  | .function f params body =>
    Token.isIdentifier f && params.all Token.isIdentifier && stmtsPlain body

def exprsPlain : List Expr → Bool
  | [] => true
  | e :: es => e.isPlain && exprsPlain es

def Stmt.isPlain : Stmt → Bool
  | .expr e => e.isPlain
  | .assign x e => Token.isIdentifier x && e.isPlain
  | .loop test body | .branch test body => test.isPlain && stmtsPlain body
  | .ret none => true
  | .ret (some e) => e.isPlain

def stmtsPlain : List Stmt → Bool
  | [] => true
  | s :: ss => s.isPlain && stmtsPlain ss

end

def Clause.isPlain : Clause → Bool
  | operand _ e => e.isPlain
  | arguments es | further es => exprsPlain es
  | statement _ s => s.isPlain
  | block _ ss => stmtsPlain ss

theorem Composed.isPlain {q : Clause} {ts : List Lexeme} (h : Composed q ts) : q.isPlain = true := by
  induction h with
  | number | boolean | noArguments | noFurther | retNothing | emptyBlock => rfl
  | quoted s => simpa [Clause.isPlain, Expr.isPlain] using s.plain
  | name x => exact x.isIdentifier
  | function f params _ ih | definition f params _ _ ih =>
    have hbody : stmtsPlain _ = true := ih
    have hparams : (params.map (·.text)).all Token.isIdentifier = true := by
      simpa using fun x _ => x.isIdentifier
    simp only [Clause.isPlain, Stmt.isPlain, Expr.isPlain, f.isIdentifier, hparams, hbody,
      Bool.and_self]
  | parens _ ih | expr _ ih | ret _ ih => exact ih
  | call _ _ _ ih₁ ih₂ | binary _ _ _ ih₁ ih₂ | arguments _ _ ih₁ ih₂ | further _ _ ih₁ ih₂
  | loop _ _ ih₁ ih₂ | branch _ _ ih₁ ih₂ | block _ _ ih₁ ih₂ =>
    exact Bool.and_eq_true_iff.mpr ⟨ih₁, ih₂⟩
  | assign x _ ih => exact Bool.and_eq_true_iff.mpr ⟨x.isIdentifier, ih⟩

namespace Program

/-- Building a tree never fails, and a text is accepted as a script just if it consists of the
script's tokens: those that precedence requires, more parentheses, and fewer semicolons behind
definitions. All names are then identifiers and no text holds a quote. -/
theorem accepted_is_rendered (source : String) :
    (∀ e, parseInSteps source ≠ .error (.build e)) ∧
    parseInSteps source = (parse source).mapError .mismatch ∧
    (∀ p, parse source = .ok p ↔
      ∃ ts, Composed (.block none p.body) ts ∧ Spelled ts source.toList) ∧
    ∀ p, parse source = .ok p → stmtsPlain p.body = true := by
  have hsteps := parseInSteps_eq source
  refine ⟨fun e he => ?_, hsteps, fun p => parse_eq_ok_iff_spelled, fun p hp => ?_⟩
  · rw [hsteps] at he
    cases hparse : parse source with
    | ok p => rw [hparse] at he; cases he
    | error error => rw [hparse] at he; cases he
  · obtain ⟨ts, hcomposed, -⟩ := parse_eq_ok_iff_spelled.mp hp
    exact hcomposed.isPlain

/-- A definition without semicolon, a call with more parentheses than needed, and a comment. -/
def doubledText : String := "function f(a) \x7b return (a) + a; \x7d /* ; */ x = (f)(-.5);"

def doubled : Program :=
  ⟨[.expr (.function "f" ["a"] [.ret (some (.binary .add (.name "a") (.name "a")))]),
    .assign "x" (.call (.name "f") [.number (.ofDecimal ⟨true, 5, -1⟩)])]⟩

theorem accepted_is_rendered_doubled : ∃ p, parse doubledText = .ok p ∧ p.agrees doubled = true ∧
    (∃ ts, Composed (.block none p.body) ts ∧ Spelled ts doubledText.toList) ∧
    stmtsPlain p.body = true := by
  have hread : (parse doubledText).toOption.any (·.agrees doubled) = true := by decide +kernel
  obtain ⟨-, -, hrendered, hplain⟩ := accepted_is_rendered doubledText
  obtain ⟨p, hp, hagrees⟩ := exists_ok_of_any hread
  exact ⟨p, hp, hagrees, (hrendered p).mp hp, hplain p hp⟩

end Program
end Scriptlet
