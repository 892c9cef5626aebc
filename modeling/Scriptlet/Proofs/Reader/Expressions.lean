import Scriptlet.Proofs.Reader.Scanning
import Scriptlet.Proofs.Reader.Rendering

/-! Expressions are read as they were written. -/
namespace Scriptlet

/-- Whether an operand of the level ends before the token. -/
def Lexeme.stops (level : Nat) : Lexeme → Bool
  | mark .closeParen | mark .comma | mark .semicolon => true
  | operator op => decide (op.level < level)
  | _ => false

def Stops (level : Nat) (rest : List Lexeme) : Prop :=
  ∃ t ts, rest = t :: ts ∧ t.stops level = true

theorem Stops.succ {level : Nat} {rest : List Lexeme} (h : Stops level rest) :
    Stops (level + 1) rest := by
  obtain ⟨t, ts, rfl, ht⟩ := h
  refine ⟨t, ts, rfl, ?_⟩
  cases t with
  | operator op =>
    have : op.level < level := by simpa [Lexeme.stops] using ht
    simp only [Lexeme.stops, decide_eq_true_eq]
    omega
  | mark m => cases m <;> first | rfl | cases ht
  | _ => cases ht

/-- A mark that cannot begin an expression, or the end of the text. -/
def Closes (rest : List Lexeme) : Prop := ∀ t ∈ rest.head?, ∃ m, m ≠ .openParen ∧ t = .mark m

namespace Grammar

open Reader

variable {limit n : Nat} {inner : Nested} {rest ts us : List Lexeme} {e : Expr}

/-- The inner readers do their work on less than `n` tokens. -/
structure Ready (n : Nat) (inner : Nested) : Prop where
  expr {e : Expr} {ts rest : List Lexeme} : Composed (.operand 0 e) ts → ts.length < n →
    Stops 0 rest → Takes inner.expr ts e rest
  statement {s : Stmt} {ts rest : List Lexeme} : Composed (.statement rest.head? s) ts →
    ts.length < n → Takes inner.statement ts s rest
  expr_declines {rest : List Lexeme} : Closes rest → Declines inner.expr rest
  statement_declines {rest : List Lexeme} : Closes rest → Declines inner.statement rest

theorem statement_ne_nil {next : Option Lexeme} {s : Stmt} (h : Composed (.statement next s) ts) :
    ts ≠ [] := by
  cases h <;> simp [guardedLexemes, functionLexemes]

theorem Ready.finds_block (h : Ready n inner) {ss : List Stmt}
    (hw : Composed (.block rest.head? ss) ts) (hl : ts.length < n) (hrest : Closes rest) :
    Finds inner.statement rest ts ss := by
  induction ss generalizing ts with
  | nil =>
    cases hw
    exact .nil (h.statement_declines hrest)
  | cons s ss ih =>
    cases hw with
    | block hs hss =>
      rw [List.length_append] at hl
      have hne := statement_ne_nil hs
      rw [← List.head?_append] at hs
      exact .cons hne (h.statement hs (by omega)) (ih hss (by omega))

theorem closes_mark {m : Mark} (hm : m ≠ .openParen) : Closes (.mark m :: rest) :=
  fun _ ht => ⟨m, hm, (Option.some.inj ht).symm⟩

theorem takes_block (h : Ready n inner) (hn : n ≤ limit) {ss : List Stmt}
    (hw : Composed (.block (some (.mark .closeBrace)) ss) ts) (hl : ts.length < n) :
    Takes (block limit inner) (.mark .openBrace :: (ts ++ [.mark .closeBrace])) ss rest := by
  refine Takes.named (Takes.cons (fun _ => takes_mark .openBrace rfl) ?_) _
  have hbody : Finds inner.statement (.mark .closeBrace :: rest) ts ss :=
    h.finds_block hw hl (closes_mark (by decide))
  refine Takes.next (hbody.spaced (by omega)) ?_
  exact (takes_mark .closeBrace rfl).bind_pure rfl

/-- Names behind commas. -/
theorem finds_names (xs : List Identifier) (hrest : rest.head? ≠ some (.mark .comma)) :
    Finds (symbol "," >>= fun _ => layout >>= fun _ => name) rest
      (xs.flatMap fun y => [.mark .comma, .name y]) (xs.map (·.text)) := by
  induction xs with
  | nil => exact .nil ((declines_mark (m := .comma) (by decide) rfl hrest).bind _)
  | cons x xs ih =>
    exact .cons (by simp) (Takes.cons (fun _ => takes_mark .comma rfl) takes_name) ih

theorem takes_parameters (params : List Identifier) (hl : (parameterLexemes params).length ≤ limit)
    (rest : List Lexeme) :
    ∃ found : Option (List String), found.getD [] = params.map (·.text) ∧
      Takes (maybe (parameters limit)) (parameterLexemes params) found
        (.mark .closeParen :: rest) := by
  cases params with
  | nil =>
    refine ⟨none, rfl, Declines.maybe (Declines.named (Declines.bind (declines_name ?_) _) _)⟩
    simp
  | cons x xs =>
    refine ⟨some (x.text :: xs.map (·.text)), rfl, Takes.maybe (Takes.named ?_ _)⟩
    refine Takes.cons (fun _ => takes_name) ?_
    refine Takes.map ((finds_names xs (by simp)).spaced ?_) _
    simp only [parameterLexemes, List.length_cons] at hl
    omega

theorem takes_functionDef (h : Ready n inner) (hn : n ≤ limit) {f : Identifier}
    {params : List Identifier} {body : List Stmt}
    (hw : Composed (.block (some (.mark .closeBrace)) body) ts)
    (hl : (functionLexemes f params ts).length ≤ n) :
    Takes (functionDef limit inner) (functionLexemes f params ts)
      (.function f.text (params.map (·.text)) body) rest := by
  simp only [functionLexemes, List.length_cons, List.length_append] at hl
  refine Takes.named (Takes.cons (fun _ => takes_keyword .function) ?_) _
  refine Takes.cons (fun _ => takes_name) ?_
  refine Takes.cons (fun _ => takes_mark .openParen rfl) ?_
  have hlimit : (parameterLexemes params).length ≤ limit := by omega
  obtain ⟨found, hfound, hparams⟩ := takes_parameters params hlimit
    (.mark .openBrace :: (ts ++ [.mark .closeBrace]) ++ rest)
  refine Takes.next hparams ?_
  refine Takes.cons (fun _ => takes_mark .closeParen rfl) ?_
  rw [← hfound]
  exact (takes_block h hn hw (by omega)).bind_pure rfl

theorem declines_functionDef (h : ts.head? ≠ some (.keyword .function)) :
    Declines (functionDef limit inner) ts :=
  ((declines_keyword .function h).bind _).named _

theorem stops_further {es : List Expr} (h : Composed (.further es) ts) (rest : List Lexeme) :
    Stops 0 (ts ++ .mark .closeParen :: rest) := by
  cases h with
  | noFurther => exact ⟨_, _, rfl, rfl⟩
  | further _ _ => exact ⟨_, _, rfl, rfl⟩

/-- Arguments behind commas. -/
theorem finds_further (h : Ready n inner) {es : List Expr} (hw : Composed (.further es) ts)
    (hl : ts.length < n) (rest : List Lexeme) :
    Finds (symbol "," >>= fun _ => layout >>= fun _ => inner.expr) (.mark .closeParen :: rest)
      ts es := by
  induction es generalizing ts with
  | nil =>
    cases hw
    exact .nil ((declines_mark (m := .comma) (by decide) rfl (by simp)).bind _)
  | cons e es ih =>
    cases hw with
    | @further _ _ us vs he hes =>
      simp only [List.length_cons, List.length_append] at hl
      have hfirst := h.expr he (by omega) (stops_further hes rest)
      exact .cons (by simp) (Takes.cons (fun _ => takes_mark .comma rfl) hfirst) (ih hes (by omega))

theorem takes_arguments (h : Ready n inner) (hn : n ≤ limit) {args : List Expr}
    (hw : Composed (.arguments args) ts) (hl : ts.length < n) (rest : List Lexeme) :
    Takes (arguments limit inner) (.mark .openParen :: (ts ++ [.mark .closeParen])) args rest := by
  refine Takes.named (Takes.cons (fun _ => takes_mark .openParen rfl) ?_) _
  cases hw with
  | noArguments =>
    refine Takes.next (Declines.maybe ((h.expr_declines (closes_mark (by decide))).bind _)) ?_
    exact (takes_mark .closeParen rfl).bind_pure rfl
  | @arguments e es us vs he hes =>
    rw [List.length_append] at hl
    have hfirst := h.expr he (by omega) (stops_further hes rest)
    have hmore := finds_further h hes (by omega) rest
    refine Takes.next (Takes.maybe (Takes.next hfirst ((hmore.spaced (by omega)).bind_pure rfl))) ?_
    exact (takes_mark .closeParen rfl).bind_pure rfl

theorem declines_parenthesized (h : ts.head? ≠ some (.mark .openParen)) :
    Declines (parenthesized inner) ts :=
  (declines_mark (m := .openParen) (by decide) rfl h).bind _

theorem takes_primary (h : Ready n inner) (hw : Atom e ts) (hl : ts.length ≤ n)
    (hf : ts.head? ≠ some (.keyword .function)) : Takes (primary inner) ts e rest := by
  refine Takes.named ?_ _
  cases hw with
  | function f params hb => exact absurd rfl hf
  | @parens _ us he =>
    simp only [List.length_cons, List.length_append] at hl
    refine Takes.orElse (Takes.cons (fun _ => takes_mark .openParen rfl) ?_) _
    refine Takes.next (h.expr he (by omega) ⟨_, _, rfl, rfl⟩) ?_
    exact (takes_mark .closeParen rfl).bind_pure rfl
  | number n =>
    refine (declines_parenthesized (by simp)).orElse_takes ?_
    exact ((takes_number.named _).map Expr.number).orElse _
  | quoted s =>
    refine (declines_parenthesized (by simp)).orElse_takes ?_
    refine (((declines_number (by simp) (by simp)).named _).bind _).orElse_takes ?_
    exact ((takes_quoted.named _).map Expr.text).orElse _
  | boolean b =>
    refine (declines_parenthesized (by simp)).orElse_takes ?_
    refine (((declines_number (by simp) (by simp)).named _).bind _).orElse_takes ?_
    refine (((declines_quoted (by simp)).named _).bind _).orElse_takes ?_
    exact ((takes_boolean.named _).map Expr.boolean).orElse _
  | name x =>
    refine (declines_parenthesized (by simp)).orElse_takes ?_
    refine (((declines_number (by simp) (by simp)).named _).bind _).orElse_takes ?_
    refine (((declines_quoted (by simp)).named _).bind _).orElse_takes ?_
    refine (((declines_boolean (by simp)).named _).bind _).orElse_takes ?_
    exact takes_name.map Expr.name

theorem head?_append (hw : Atom e ts) : (ts ++ rest).head? = ts.head? := by
  obtain ⟨t, us, rfl, -⟩ := hw.begins
  rfl

theorem takes_callee (h : Ready n inner) (hn : n ≤ limit) (hw : Atom e ts)
    (hl : ts.length ≤ n) : Takes (callee limit inner) ts e rest := by
  refine Takes.named ?_ _
  by_cases hf : ts.head? = some (.keyword .function)
  · cases hw with
    | function f params hb => exact (takes_functionDef h hn hb hl).orElse _
    | _ => cases hf
  · refine (declines_functionDef ?_).orElse_takes (takes_primary h hw hl hf)
    rwa [head?_append hw]

/-- The tokens are read as a first expression and further items, which are put together with `f`
from the left. -/
def Folds {β : Type} (p : Reader Expr) (q : Reader β) (f : Expr → β → Expr)
    (rest ts : List Lexeme) (e : Expr) : Prop :=
  ∃ first us vs items, ts = us ++ vs ∧ Takes p us first (vs ++ rest) ∧ Finds q rest vs items ∧
    items.foldl f first = e

theorem Folds.takes {β : Type} {p : Reader Expr} {q : Reader β} {f : Expr → β → Expr}
    (h : Folds p q f rest ts e) (hl : ts.length ≤ limit) :
    Takes (p >>= fun first => layout >>= fun _ => spaced limit q >>= fun items =>
      pure (items.foldl f first)) ts e rest := by
  obtain ⟨first, us, vs, items, rfl, hfirst, hitems, rfl⟩ := h
  rw [List.length_append] at hl
  exact Takes.next hfirst ((hitems.spaced (by omega)).bind_pure rfl)

/-- A call of a call has several argument lists. Those in `us` follow the expression. -/
theorem folds_call (h : Ready n inner) (hn : n ≤ limit) (hw : Composed (.operand 3 e) ts)
    (hl : ts.length ≤ n) {calls : List (List Expr)}
    (hcalls : Finds (arguments limit inner) rest us calls) :
    Folds (callee limit inner) (arguments limit inner) .call rest (ts ++ us)
      (calls.foldl .call e) := by
  induction hlen : ts.length using Nat.strong_induction_on generalizing e ts us calls with
  | _ k ih =>
    subst hlen
    rcases hw.operand_cases with ⟨op, _, _, _, _, hlevel, _⟩ |
      ⟨f, args, fs, vs, -, rfl, rfl, hf, hargs⟩ | hatom
    · have := op.level_le
      omega
    · simp only [List.length_append, List.length_cons] at hl ih
      have hlast := takes_arguments h hn hargs (by omega) (us ++ rest)
      rw [List.append_assoc]
      exact ih fs.length (by omega) hf (by omega) (.cons (by simp) hlast hcalls) rfl
    · exact ⟨e, ts, us, calls, rfl, takes_callee h hn hatom hl, hcalls, rfl⟩

theorem takes_call (h : Ready n inner) (hn : n ≤ limit) (hw : Composed (.operand 3 e) ts)
    (hl : ts.length ≤ n) (hrest : Stops 3 rest) : Takes (call limit inner) ts e rest := by
  have hnone : Declines (arguments limit inner) rest := by
    refine Declines.named (Declines.bind (declines_mark (m := .openParen) (by decide) rfl ?_) _) _
    obtain ⟨t, ts, rfl, ht⟩ := hrest
    rintro heq
    obtain rfl := Option.some.inj heq
    cases ht
  have hfolds := folds_call h hn hw hl (.nil hnone)
  rw [List.append_nil] at hfolds
  exact (hfolds.takes (by omega)).named _

section Chain
variable {level : Nat} {op : Reader BinaryOp} {operand : Reader Expr}

/-- A chain of operations is read item by item. The items in `us` follow the expression. -/
theorem folds_chain
    (hop : ∀ o rest, o.level = level → Takes op [.operator o] o rest)
    (hoperand : ∀ {e ts rest}, Composed (.operand (level + 1) e) ts → ts.length ≤ n →
      Stops (level + 1) rest → Takes operand ts e rest)
    (hlevel : level ≤ 2) (hw : Composed (.operand level e) ts) (hl : ts.length ≤ n)
    {items : List (BinaryOp × Expr)}
    (hitems : Finds (do let o ← op; layout; let e ← operand; pure (o, e)) rest us items)
    (hstops : Stops (level + 1) (us ++ rest)) :
    Folds operand (do let o ← op; layout; let e ← operand; pure (o, e))
      (fun e (o, e') => .binary o e e') rest (ts ++ us)
      (items.foldl (fun e (o, e') => .binary o e e') e) := by
  induction hlen : ts.length using Nat.strong_induction_on generalizing e ts us items with
  | _ k ih =>
    subst hlen
    have hfirst (hw : Composed (.operand (level + 1) e) ts) :
        Folds operand (do let o ← op; layout; let e ← operand; pure (o, e))
          (fun e (o, e') => .binary o e e') rest (ts ++ us)
          (items.foldl (fun e (o, e') => .binary o e e') e) :=
      ⟨e, ts, us, items, rfl, hoperand hw hl hstops, hitems, rfl⟩
    rcases hw.operand_cases with ⟨o, l, r, ls, rs, hle, rfl, rfl, hwl, hwr⟩ |
      ⟨f, args, fs, vs, -, rfl, rfl, hf, hargs⟩ | hatom
    · by_cases heq : o.level = level
      · subst heq
        simp only [List.length_append, List.length_cons] at hl ih
        have hlast := (hoperand hwr (by omega) hstops).map fun e => (o, e)
        rw [List.append_assoc]
        exact ih ls.length (by omega) hwl (by omega)
          (.cons (by simp) (Takes.cons (fun rest => hop o rest rfl) hlast) hitems)
          ⟨_, _, rfl, by simp [Lexeme.stops]⟩ rfl
      · exact hfirst (.binary (by omega) hwl hwr)
    · exact hfirst (.call (by omega) hf hargs)
    · exact hfirst hatom.composed

end Chain

/-- The operators are those of one level, in an order in which each is found. -/
structure OfLevel (level : Nat) (ops : List BinaryOp) : Prop where
  found (o : BinaryOp) : o.level = level →
    ops.find? (·.symbol.toList.isPrefixOf o.symbol.toList) = some o
  others (o : BinaryOp) : o.level ≠ level →
    ops.all (!·.symbol.toList.isPrefixOf o.symbol.toList) = true

theorem ofLevel_comparisons : OfLevel 0 [.eq, .ne, .ge, .le, .gt, .lt] := by
  constructor <;> rintro ⟨⟩ ho <;> first | rfl | simp [BinaryOp.level] at ho

theorem ofLevel_additions : OfLevel 1 [.add, .sub] := by
  constructor <;> rintro ⟨⟩ ho <;> first | rfl | simp [BinaryOp.level] at ho

theorem ofLevel_multiplications : OfLevel 2 [.mul, .div, .mod] := by
  constructor <;> rintro ⟨⟩ ho <;> first | rfl | simp [BinaryOp.level] at ho

namespace OfLevel

variable {level : Nat} {ops : List BinaryOp} {o : BinaryOp}

theorem takes (h : OfLevel level ops) (ho : o.level = level) :
    Takes (operator ops) [.operator o] o rest :=
  takes_operator (h.found o ho)

theorem declines (h : OfLevel level ops) (ho : o.level ≠ level) :
    Declines (operator ops) (.operator o :: rest) :=
  declines_operator fun _ ht => .inr ⟨o, (Option.some.inj ht).symm, h.others o ho⟩

theorem declines_of_stops (h : OfLevel level ops) (hrest : Stops level rest) :
    Declines (operator ops) rest := by
  obtain ⟨t, ts, rfl, ht⟩ := hrest
  cases t with
  | operator o =>
    have : o.level < level := by simpa [Lexeme.stops] using ht
    exact h.declines (by omega)
  | mark m =>
    refine declines_operator fun u hu => .inl ?_
    obtain rfl := Option.some.inj hu
    rfl
  | _ => cases ht

end OfLevel

theorem takes_chain {level : Nat} {ops : List BinaryOp} {r : Rule} {operand : Reader Expr}
    (hops : OfLevel level ops)
    (hoperand : ∀ {e ts rest}, Composed (.operand (level + 1) e) ts → ts.length ≤ n →
      Stops (level + 1) rest → Takes operand ts e rest)
    (hlevel : level ≤ 2) (hn : n ≤ limit) (hw : Composed (.operand level e) ts) (hl : ts.length ≤ n)
    (hrest : Stops level rest) : Takes (chain limit (named r (operator ops)) operand) ts e rest := by
  have hnone := (hops.declines_of_stops hrest).named r
  have hfolds := folds_chain (fun o _ ho => (hops.takes ho).named r) hoperand hlevel hw hl
    (.nil (hnone.bind _)) hrest.succ
  rw [List.append_nil] at hfolds
  exact hfolds.takes (by omega)

theorem takes_multiplicative (h : Ready n inner) (hn : n ≤ limit) (hw : Composed (.operand 2 e) ts)
    (hl : ts.length ≤ n) (hrest : Stops 2 rest) : Takes (multiplicative limit inner) ts e rest :=
  (takes_chain ofLevel_multiplications (takes_call h hn) (by omega) hn hw hl hrest).named _

theorem takes_additive (h : Ready n inner) (hn : n ≤ limit) (hw : Composed (.operand 1 e) ts)
    (hl : ts.length ≤ n) (hrest : Stops 1 rest) : Takes (additive limit inner) ts e rest :=
  (takes_chain ofLevel_additions (takes_multiplicative h hn) (by omega) hn hw hl hrest).named _

theorem takes_expr (h : Ready n inner) (hn : n ≤ limit) (hw : Composed (.operand 0 e) ts)
    (hl : ts.length ≤ n) (hrest : Stops 0 rest) : Takes (expr limit inner) ts e rest :=
  (takes_chain ofLevel_comparisons (takes_additive h hn) (by omega) hn hw hl hrest).named _

theorem declines_expr (h : Closes ts) : Declines (expr limit inner) ts := by
  have hhead (t : Lexeme) (ht : ∀ m, m ≠ .openParen → t ≠ .mark m) : ts.head? ≠ some t := by
    intro heq
    obtain ⟨m, hm, rfl⟩ := h t heq
    exact ht m hm rfl
  have hparens : Declines (parenthesized inner) ts :=
    declines_parenthesized (hhead _ fun m hm => by simpa using hm.symm)
  have hnumber : Declines (token Token.number) ts :=
    declines_number (fun _ => hhead _ (by simp)) fun _ => hhead _ (by simp)
  have hquoted : Declines (token Token.text) ts := declines_quoted fun _ => hhead _ (by simp)
  have hboolean : Declines (token Token.boolean) ts := declines_boolean fun _ => hhead _ (by simp)
  have hname : Declines name ts := declines_name fun _ => hhead _ (by simp)
  have hprimary : Declines (primary inner) ts :=
    (hparens.orElse (((hnumber.named _).bind _).orElse (((hquoted.named _).bind _).orElse
      (((hboolean.named _).bind _).orElse (hname.bind _))))).named _
  have hcallee : Declines (callee limit inner) ts :=
    ((declines_functionDef (hhead _ (by simp))).orElse hprimary).named _
  have hcall : Declines (call limit inner) ts := (hcallee.bind _).named _
  exact ((((((hcall.bind _).named _).bind _).named _).bind _).named _)

end Grammar
end Scriptlet
