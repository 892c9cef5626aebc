import Scriptlet.Proofs.Reader.Soundness
import Scriptlet.Proofs.Syntax.Lossless
import Scriptlet.Workload.Script

/-! The built-in workload script as a syntax tree: three summing functions and the lines that call
one of them. -/
namespace Scriptlet

mutual

/-- Trees that agree are the same if their literals are. What may follow the literals is carried
along, since those of several subtrees stand in one list. -/
theorem Expr.eq_of_agrees : (e e' : Expr) → e.agrees e' = true → {l l' : List Number} →
    e.numbers ++ l = e'.numbers ++ l' → e = e' ∧ l = l'
  | .number _, e', h, _, _, hn => by
    cases e' with
    | number v => simpa [Expr.numbers] using hn
    | _ => simp [Expr.agrees] at h
  | .boolean _, e', h, _, _, hn | .text _, e', h, _, _, hn | .name _, e', h, _, _, hn => by
    cases e' <;> simp_all [Expr.agrees, Expr.numbers]
  | .binary op l r, e', h, _, _, hn => by
    cases e' with
    | binary op' l' r' =>
      simp only [Expr.agrees, Bool.and_eq_true, beq_iff_eq] at h
      simp only [Expr.numbers, List.append_assoc] at hn
      obtain ⟨rfl, hrest⟩ := Expr.eq_of_agrees l l' h.1.2 hn
      obtain ⟨rfl, hlast⟩ := Expr.eq_of_agrees r r' h.2 hrest
      exact ⟨by rw [h.1.1], hlast⟩
    | _ => simp [Expr.agrees] at h
  | .call f args, e', h, _, _, hn => by
    cases e' with
    | call f' args' =>
      simp only [Expr.agrees, Bool.and_eq_true] at h
      simp only [Expr.numbers, List.append_assoc] at hn
      obtain ⟨rfl, hrest⟩ := Expr.eq_of_agrees f f' h.1 hn
      obtain ⟨rfl, hlast⟩ := exprs_eq_of_agree args args' h.2 hrest
      exact ⟨rfl, hlast⟩
    | _ => simp [Expr.agrees] at h
  | .function f params body, e', h, _, _, hn => by
    cases e' with
    | function f' params' body' =>
      simp only [Expr.agrees, Bool.and_eq_true, beq_iff_eq] at h
      obtain ⟨rfl, hrest⟩ := stmts_eq_of_agree body body' h.2 hn
      exact ⟨by rw [h.1.1, h.1.2], hrest⟩
    | _ => simp [Expr.agrees] at h

theorem exprs_eq_of_agree : (es es' : List Expr) → exprsAgree es es' = true → {l l' : List Number} →
    exprsNumbers es ++ l = exprsNumbers es' ++ l' → es = es' ∧ l = l'
  | [], es', h, _, _, hn => by
    cases es' with
    | nil => simpa [exprsNumbers] using hn
    | cons e es => simp [exprsAgree] at h
  | e :: es, es', h, _, _, hn => by
    cases es' with
    | nil => simp [exprsAgree] at h
    | cons e' es' =>
      simp only [exprsAgree, Bool.and_eq_true] at h
      simp only [exprsNumbers, List.append_assoc] at hn
      obtain ⟨rfl, hrest⟩ := Expr.eq_of_agrees e e' h.1 hn
      obtain ⟨rfl, hlast⟩ := exprs_eq_of_agree es es' h.2 hrest
      exact ⟨rfl, hlast⟩

theorem Stmt.eq_of_agrees : (s s' : Stmt) → s.agrees s' = true → {l l' : List Number} →
    s.numbers ++ l = s'.numbers ++ l' → s = s' ∧ l = l'
  | .expr e, s', h, _, _, hn => by
    cases s' with
    | expr e' =>
      obtain ⟨rfl, hrest⟩ := Expr.eq_of_agrees e e' (by simpa [Stmt.agrees] using h) hn
      exact ⟨rfl, hrest⟩
    | _ => simp [Stmt.agrees] at h
  | .assign x e, s', h, _, _, hn => by
    cases s' with
    | assign x' e' =>
      simp only [Stmt.agrees, Bool.and_eq_true, beq_iff_eq] at h
      obtain ⟨rfl, hrest⟩ := Expr.eq_of_agrees e e' h.2 hn
      exact ⟨by rw [h.1], hrest⟩
    | _ => simp [Stmt.agrees] at h
  | .loop test body, s', h, _, _, hn => by
    cases s' with
    | loop test' body' =>
      simp only [Stmt.agrees, Bool.and_eq_true] at h
      simp only [Stmt.numbers, List.append_assoc] at hn
      obtain ⟨rfl, hrest⟩ := Expr.eq_of_agrees test test' h.1 hn
      obtain ⟨rfl, hlast⟩ := stmts_eq_of_agree body body' h.2 hrest
      exact ⟨rfl, hlast⟩
    | _ => simp [Stmt.agrees] at h
  | .branch test body, s', h, _, _, hn => by
    cases s' with
    | branch test' body' =>
      simp only [Stmt.agrees, Bool.and_eq_true] at h
      simp only [Stmt.numbers, List.append_assoc] at hn
      obtain ⟨rfl, hrest⟩ := Expr.eq_of_agrees test test' h.1 hn
      obtain ⟨rfl, hlast⟩ := stmts_eq_of_agree body body' h.2 hrest
      exact ⟨rfl, hlast⟩
    | _ => simp [Stmt.agrees] at h
  | .ret none, s', h, _, _, hn => by
    rcases s' with _ | _ | _ | _ | _ | e' <;> simp_all [Stmt.agrees, Stmt.numbers]
  | .ret (some e), s', h, _, _, hn => by
    rcases s' with _ | _ | _ | _ | _ | e' <;> try simp [Stmt.agrees] at h
    obtain ⟨rfl, hrest⟩ := Expr.eq_of_agrees e e' h hn
    exact ⟨rfl, hrest⟩

theorem stmts_eq_of_agree : (ss ss' : List Stmt) → stmtsAgree ss ss' = true → {l l' : List Number} →
    stmtsNumbers ss ++ l = stmtsNumbers ss' ++ l' → ss = ss' ∧ l = l'
  | [], ss', h, _, _, hn => by
    cases ss' with
    | nil => simpa [stmtsNumbers] using hn
    | cons s ss => simp [stmtsAgree] at h
  | s :: ss, ss', h, _, _, hn => by
    cases ss' with
    | nil => simp [stmtsAgree] at h
    | cons s' ss' =>
      simp only [stmtsAgree, Bool.and_eq_true] at h
      simp only [stmtsNumbers, List.append_assoc] at hn
      obtain ⟨rfl, hrest⟩ := Stmt.eq_of_agrees s s' h.1 hn
      obtain ⟨rfl, hlast⟩ := stmts_eq_of_agree ss ss' h.2 hrest
      exact ⟨rfl, hlast⟩

end

theorem Program.eq_of_agrees {p q : Program} (h : p.agrees q = true) (hn : p.numbers = q.numbers) :
    p = q := by
  have hbody := stmts_eq_of_agree p.body q.body h (congrArg (· ++ []) hn)
  exact congrArg Program.mk hbody.1

namespace Workload

/-- Adds the counter to the sum if the test holds, and goes on to the next one. -/
def roundBody (test : Expr) : List Stmt := [
  .branch test [.assign "sum" (.binary .add (.name "sum") (.name "i"))],
  .assign "i" (.binary .add (.name "i") (.number (.ofNat 1)))]

/-- Adds up the numbers below the argument for which the test holds. -/
def summingBody (test : Expr) : List Stmt := [
  .assign "sum" (.number (.ofNat 0)),
  .assign "i" (.number (.ofNat 0)),
  .loop (.binary .lt (.name "i") (.name "N")) (roundBody test),
  .ret (some (.name "sum"))]

def summing (name : String) (test : Expr) : Stmt := .expr (.function name ["N"] (summingBody test))

/-- Whether a number is below half of the argument. -/
def lowerTest : Expr := .binary .lt (.name "i") (.binary .div (.name "N") (.number (.ofNat 2)))

/-- A remainder holds as a condition unless it is zero. -/
def remainderTest : Expr := .binary .mod (.name "i") (.number (.ofNat 3))

/-- The built-in script with the given input. -/
def driver (n : Number) : Program := ⟨[
  summing "sum_numbers" lowerTest,
  summing "sum_numbers_bridge" remainderTest,
  summing "sum_numbers_bridge_2" lowerTest,
  .assign "x" (.number (.ofNat 3000)),
  .assign "x" (.number n),
  .expr (.call (.name "print") [.call (.name "sum_numbers_bridge") [.name "x"]])]⟩

/-- Whether a script was read that is the given one, literal for literal. -/
def isReading (p : Program) (result : Option (Program × Cursor)) : Bool :=
  result.any fun r => r.1.agrees p && r.1.numbers == p.numbers

set_option maxRecDepth 10000 in
/-- The characters of a literal are at hand only as the list of which it is made. -/
theorem exists_reading : ∃ cs, builtinScript = String.ofList cs ∧
    isReading (driver (.ofNat 30000000)) (Grammar.program (cs.length + 1) (.start cs) .none).1 =
      true :=
  ⟨_, rfl, by decide +kernel⟩

theorem parse_builtinScript :
    Program.parse builtinScript = .ok (driver (.ofNat 30000000)) := by
  obtain ⟨cs, hcs, hread⟩ := exists_reading
  rw [Program.parse_eq_ok, hcs, String.toList_ofList]
  cases hprogram : Grammar.program (cs.length + 1) (.start cs) .none with
  | mk result a =>
    rw [hprogram] at hread
    cases result with
    | none => cases hread
    | some r =>
      obtain ⟨p, c⟩ := r
      simp only [isReading, Option.any_some, Bool.and_eq_true, beq_iff_eq] at hread
      exact ⟨c, a, by rw [Program.eq_of_agrees hread.1 hread.2]⟩

theorem withInput_of_parse {source : String} {n : Nat} {p : Program} {body : List Stmt}
    (hp : Program.parse source = .ok p) (hr : replaceFirst (.ofNat n) p.body.reverse = some body) :
    withInput source n = .ok ⟨body.reverse⟩ := by
  unfold withInput
  simp only [hp, hr]

/-- The driver is what the built-in script becomes with another input. -/
theorem withInput_builtinScript (n : Nat) : withInput builtinScript n = .ok (driver (.ofNat n)) :=
  withInput_of_parse parse_builtinScript rfl

end Workload
end Scriptlet
