import Scriptlet.Proofs.Reader.Lexemes

/-! The ways to write a syntax tree as tokens. -/
namespace Scriptlet

/-- How tightly an operator binds: comparisons least, then sums, then products. -/
def BinaryOp.level : BinaryOp → Nat
  | eq | ne | lt | le | gt | ge => 0
  | add | sub => 1
  | mul | div | mod => 2

theorem BinaryOp.level_le (op : BinaryOp) : op.level ≤ 2 := by cases op <;> decide

/-- The parts of a script that are written in ways of their own. An operand of a level stands where
weaker operators must be in parentheses; level 3 is for what may be called. -/
inductive Phrase where
  | operand (level : Nat) (e : Expr)
  | arguments (es : List Expr)
  /-- Arguments that others come before. -/
  | further (es : List Expr)
  | statement (s : Stmt)
  | block (ss : List Stmt)

def parameterLexemes : List Identifier → List Lexeme
  | [] => []
  | x :: xs => .name x :: xs.flatMap fun y => [.mark .comma, .name y]

/-- The tokens of a definition with the given tokens of its body. -/
def functionLexemes (f : Identifier) (params : List Identifier) (body : List Lexeme) : List Lexeme :=
  .keyword .function :: .name f :: .mark .openParen ::
    (parameterLexemes params ++ .mark .closeParen :: .mark .openBrace :: (body ++ [.mark .closeBrace]))

/-- The tokens of a condition and of the block that it governs. -/
def guardedLexemes (k : Keyword) (test body : List Lexeme) : List Lexeme :=
  .keyword k :: .mark .openParen ::
    (test ++ .mark .closeParen :: .mark .openBrace :: (body ++ [.mark .closeBrace]))

/-- `Written q ts` says that the tokens `ts` are a way to write `q`. Operators of one level group
from the left, and parentheses may stand around every expression. -/
inductive Written : Phrase → List Lexeme → Prop
  | number {level : Nat} (n : Literal) : Written (.operand level (.number n.value)) [.number n]
  | boolean {level : Nat} (b : Bool) : Written (.operand level (.boolean b)) [.boolean b]
  | quoted {level : Nat} (s : Quotable) : Written (.operand level (.text s.text)) [.quoted s]
  | name {level : Nat} (x : Identifier) : Written (.operand level (.name x.text)) [.name x]
  | function {level : Nat} (f : Identifier) (params : List Identifier) {body : List Stmt}
      {ts : List Lexeme} : Written (.block body) ts →
      Written (.operand level (.function f.text (params.map (·.text)) body))
        (functionLexemes f params ts)
  | parens {level : Nat} {e : Expr} {ts : List Lexeme} : Written (.operand 0 e) ts →
      Written (.operand level e) (.mark .openParen :: (ts ++ [.mark .closeParen]))
  | call {level : Nat} {f : Expr} {args : List Expr} {ts us : List Lexeme} : level ≤ 3 →
      Written (.operand 3 f) ts → Written (.arguments args) us →
      Written (.operand level (.call f args))
        (ts ++ .mark .openParen :: (us ++ [.mark .closeParen]))
  | binary {level : Nat} {op : BinaryOp} {l r : Expr} {ts us : List Lexeme} : level ≤ op.level →
      Written (.operand op.level l) ts → Written (.operand (op.level + 1) r) us →
      Written (.operand level (.binary op l r)) (ts ++ .operator op :: us)
  | noArguments : Written (.arguments []) []
  | arguments {e : Expr} {es : List Expr} {ts us : List Lexeme} : Written (.operand 0 e) ts →
      Written (.further es) us → Written (.arguments (e :: es)) (ts ++ us)
  | noFurther : Written (.further []) []
  | further {e : Expr} {es : List Expr} {ts us : List Lexeme} : Written (.operand 0 e) ts →
      Written (.further es) us → Written (.further (e :: es)) (.mark .comma :: (ts ++ us))
  | expr {e : Expr} {ts : List Lexeme} : Written (.operand 0 e) ts →
      Written (.statement (.expr e)) (ts ++ [.mark .semicolon])
  | assign (x : Identifier) {e : Expr} {ts : List Lexeme} : Written (.operand 0 e) ts →
      Written (.statement (.assign x.text e))
        (.name x :: .mark .assign :: (ts ++ [.mark .semicolon]))
  | loop {test : Expr} {body : List Stmt} {ts us : List Lexeme} : Written (.operand 0 test) ts →
      Written (.block body) us → Written (.statement (.loop test body)) (guardedLexemes .loop ts us)
  | branch {test : Expr} {body : List Stmt} {ts us : List Lexeme} : Written (.operand 0 test) ts →
      Written (.block body) us →
      Written (.statement (.branch test body)) (guardedLexemes .branch ts us)
  | retNothing : Written (.statement (.ret none)) [.keyword .ret, .mark .semicolon]
  | ret {e : Expr} {ts : List Lexeme} : Written (.operand 0 e) ts →
      Written (.statement (.ret (some e))) (.keyword .ret :: (ts ++ [.mark .semicolon]))
  | emptyBlock : Written (.block []) []
  | block {s : Stmt} {ss : List Stmt} {ts us : List Lexeme} : Written (.statement s) ts →
      Written (.block ss) us → Written (.block (s :: ss)) (ts ++ us)

/-- The parts of a script as they stand in a text. Statements are told which token follows them. -/
inductive Clause where
  | operand (level : Nat) (e : Expr)
  | arguments (es : List Expr)
  /-- Arguments that others come before. -/
  | further (es : List Expr)
  | statement (next : Option Lexeme) (s : Stmt)
  | block (next : Option Lexeme) (ss : List Stmt)

/-- Whether a definition without semicolon ends before the token: it is neither operated on nor
called. -/
def Lexeme.endsDefinition : Lexeme → Bool
  | mark .openParen | mark .semicolon => false
  | t => !t.beginsOperator

theorem Lexeme.endsDefinition.beginsOperator {t : Lexeme} (h : t.endsDefinition = true) :
    t.beginsOperator = false := by
  cases t with
  | mark m => rfl
  | _ => simpa [endsDefinition] using h

/-- `Composed q ts` says that the tokens `ts` make up `q`. Everything that can be written is composed
so; besides, a definition that stands as a statement may do without its semicolon where the next
token shows that it has ended. -/
inductive Composed : Clause → List Lexeme → Prop
  | number {level : Nat} (n : Literal) : Composed (.operand level (.number n.value)) [.number n]
  | boolean {level : Nat} (b : Bool) : Composed (.operand level (.boolean b)) [.boolean b]
  | quoted {level : Nat} (s : Quotable) : Composed (.operand level (.text s.text)) [.quoted s]
  | name {level : Nat} (x : Identifier) : Composed (.operand level (.name x.text)) [.name x]
  | function {level : Nat} (f : Identifier) (params : List Identifier) {body : List Stmt}
      {ts : List Lexeme} : Composed (.block (some (.mark .closeBrace)) body) ts →
      Composed (.operand level (.function f.text (params.map (·.text)) body))
        (functionLexemes f params ts)
  | parens {level : Nat} {e : Expr} {ts : List Lexeme} : Composed (.operand 0 e) ts →
      Composed (.operand level e) (.mark .openParen :: (ts ++ [.mark .closeParen]))
  | call {level : Nat} {f : Expr} {args : List Expr} {ts us : List Lexeme} : level ≤ 3 →
      Composed (.operand 3 f) ts → Composed (.arguments args) us →
      Composed (.operand level (.call f args))
        (ts ++ .mark .openParen :: (us ++ [.mark .closeParen]))
  | binary {level : Nat} {op : BinaryOp} {l r : Expr} {ts us : List Lexeme} : level ≤ op.level →
      Composed (.operand op.level l) ts → Composed (.operand (op.level + 1) r) us →
      Composed (.operand level (.binary op l r)) (ts ++ .operator op :: us)
  | noArguments : Composed (.arguments []) []
  | arguments {e : Expr} {es : List Expr} {ts us : List Lexeme} : Composed (.operand 0 e) ts →
      Composed (.further es) us → Composed (.arguments (e :: es)) (ts ++ us)
  | noFurther : Composed (.further []) []
  | further {e : Expr} {es : List Expr} {ts us : List Lexeme} : Composed (.operand 0 e) ts →
      Composed (.further es) us → Composed (.further (e :: es)) (.mark .comma :: (ts ++ us))
  | expr {next : Option Lexeme} {e : Expr} {ts : List Lexeme} : Composed (.operand 0 e) ts →
      Composed (.statement next (.expr e)) (ts ++ [.mark .semicolon])
  | definition {next : Option Lexeme} (f : Identifier) (params : List Identifier)
      {body : List Stmt} {ts : List Lexeme} :
      Composed (.block (some (.mark .closeBrace)) body) ts →
      next.all Lexeme.endsDefinition = true →
      Composed (.statement next (.expr (.function f.text (params.map (·.text)) body)))
        (functionLexemes f params ts)
  | assign {next : Option Lexeme} (x : Identifier) {e : Expr} {ts : List Lexeme} :
      Composed (.operand 0 e) ts → Composed (.statement next (.assign x.text e))
        (.name x :: .mark .assign :: (ts ++ [.mark .semicolon]))
  | loop {next : Option Lexeme} {test : Expr} {body : List Stmt} {ts us : List Lexeme} :
      Composed (.operand 0 test) ts → Composed (.block (some (.mark .closeBrace)) body) us →
      Composed (.statement next (.loop test body)) (guardedLexemes .loop ts us)
  | branch {next : Option Lexeme} {test : Expr} {body : List Stmt} {ts us : List Lexeme} :
      Composed (.operand 0 test) ts → Composed (.block (some (.mark .closeBrace)) body) us →
      Composed (.statement next (.branch test body)) (guardedLexemes .branch ts us)
  | retNothing {next : Option Lexeme} :
      Composed (.statement next (.ret none)) [.keyword .ret, .mark .semicolon]
  | ret {next : Option Lexeme} {e : Expr} {ts : List Lexeme} : Composed (.operand 0 e) ts →
      Composed (.statement next (.ret (some e))) (.keyword .ret :: (ts ++ [.mark .semicolon]))
  | emptyBlock {next : Option Lexeme} : Composed (.block next []) []
  | block {next : Option Lexeme} {s : Stmt} {ss : List Stmt} {ts us : List Lexeme} :
      Composed (.statement (us.head?.or next) s) ts → Composed (.block next ss) us →
      Composed (.block next (s :: ss)) (ts ++ us)

/-- A phrase before the token that follows it. -/
def Phrase.before (next : Option Lexeme) : Phrase → Clause
  | operand level e => .operand level e
  | arguments es => .arguments es
  | further es => .further es
  | statement s => .statement next s
  | block ss => .block next ss

/-- All that is written stands before every token. -/
theorem Written.composed {q : Phrase} {ts : List Lexeme} (h : Written q ts)
    (next : Option Lexeme) : Composed (q.before next) ts := by
  induction h generalizing next with
  | number n => exact .number n
  | boolean b => exact .boolean b
  | quoted s => exact .quoted s
  | name x => exact .name x
  | function f params _ ih => exact .function f params (ih _)
  | parens _ ih => exact .parens (ih none)
  | call hl _ _ ihf iha => exact .call hl (ihf none) (iha none)
  | binary hl _ _ ihl ihr => exact .binary hl (ihl none) (ihr none)
  | noArguments => exact .noArguments
  | arguments _ _ ihe ihes => exact .arguments (ihe none) (ihes none)
  | noFurther => exact .noFurther
  | further _ _ ihe ihes => exact .further (ihe none) (ihes none)
  | expr _ ih => exact .expr (ih none)
  | assign x _ ih => exact .assign x (ih none)
  | loop _ _ iht ihb => exact .loop (iht none) (ihb _)
  | branch _ _ iht ihb => exact .branch (iht none) (ihb _)
  | retNothing => exact .retNothing
  | ret _ ih => exact .ret (ih none)
  | emptyBlock => exact .emptyBlock
  | block _ _ ihs ihss => exact .block (ihs _) (ihss next)

/-- The expressions that stand everywhere as they are: neither operations nor calls. -/
inductive Atom : Expr → List Lexeme → Prop
  | number (n : Literal) : Atom (.number n.value) [.number n]
  | boolean (b : Bool) : Atom (.boolean b) [.boolean b]
  | quoted (s : Quotable) : Atom (.text s.text) [.quoted s]
  | name (x : Identifier) : Atom (.name x.text) [.name x]
  | function (f : Identifier) (params : List Identifier) {body : List Stmt} {ts : List Lexeme} :
      Composed (.block (some (.mark .closeBrace)) body) ts →
      Atom (.function f.text (params.map (·.text)) body) (functionLexemes f params ts)
  | parens {e : Expr} {ts : List Lexeme} : Composed (.operand 0 e) ts →
      Atom e (.mark .openParen :: (ts ++ [.mark .closeParen]))

/-- What may follow the clause: behind an expression there is an operator or a mark. -/
def Clause.Precedes : Clause → List Lexeme → Prop
  | operand _ _, rest | arguments _, rest | further _, rest =>
    ∀ u ∈ rest.head?, u.isSymbol = true
  | statement _ _, _ | block _ _, _ => True

namespace Lexeme

/-- Whether an expression can go on with the token. -/
def continuesExpr : Lexeme → Bool
  | operator _ | mark .openParen => true
  | _ => false

/-- Whether every token may follow. -/
def isFree : Lexeme → Bool
  | operator _ | mark .assign | number _ => false
  | _ => true

end Lexeme

theorem adjacent_of_isFree {t : Lexeme} (h : t.isFree = true) (u : Lexeme) : Adjacent t u := by
  cases t with
  | operator op => cases h
  | number n => cases h
  | mark m => cases m <;> trivial
  | _ => trivial

section Operand
variable {level : Nat} {e : Expr} {ts : List Lexeme}

theorem Atom.composed (h : Atom e ts) : Composed (.operand level e) ts := by
  cases h with
  | number n => exact .number n
  | boolean b => exact .boolean b
  | quoted s => exact .quoted s
  | name x => exact .name x
  | function f params hb => exact .function f params hb
  | parens he => exact .parens he

theorem Atom.begins (h : Atom e ts) : ∃ t us, ts = t :: us ∧ t.beginsExpr = true := by
  cases h <;> exact ⟨_, _, rfl, rfl⟩

/-- What an operand is: an operation, a call, or something that stands everywhere. -/
theorem Composed.operand_cases (h : Composed (.operand level e) ts) :
    (∃ op l r us vs, level ≤ op.level ∧ e = .binary op l r ∧ ts = us ++ .operator op :: vs ∧
      Composed (.operand op.level l) us ∧ Composed (.operand (op.level + 1) r) vs) ∨
    (∃ f args us vs, level ≤ 3 ∧ e = .call f args ∧
      ts = us ++ .mark .openParen :: (vs ++ [.mark .closeParen]) ∧
      Composed (.operand 3 f) us ∧ Composed (.arguments args) vs) ∨
    Atom e ts := by
  cases h with
  | binary hl h₁ h₂ => exact .inl ⟨_, _, _, _, _, hl, rfl, rfl, h₁, h₂⟩
  | call hl h₁ h₂ => exact .inr (.inl ⟨_, _, _, _, hl, rfl, rfl, h₁, h₂⟩)
  | number n => exact .inr (.inr (.number n))
  | boolean b => exact .inr (.inr (.boolean b))
  | quoted s => exact .inr (.inr (.quoted s))
  | name x => exact .inr (.inr (.name x))
  | function f params hb => exact .inr (.inr (.function f params hb))
  | parens he => exact .inr (.inr (.parens he))

/-- An expression begins with something that stands everywhere, and if it goes on it does so with an
operator or a call. -/
theorem Composed.leading (h : Composed (.operand level e) ts) :
    ∃ e' us vs, Atom e' us ∧ ts = us ++ vs ∧
      (vs = [] ∧ e = e' ∨ ∃ t ws, vs = t :: ws ∧ t.continuesExpr = true) := by
  induction hn : ts.length using Nat.strong_induction_on generalizing level e ts with
  | _ n ih =>
    subst hn
    -- the left operand or the callee is shorter, and something follows it
    have hstep {level : Nat} {l : Expr} {us ws : List Lexeme} {t : Lexeme}
        (hts : ts = us ++ t :: ws) (hl : Composed (.operand level l) us)
        (ht : t.continuesExpr = true) :
        ∃ e' us vs, Atom e' us ∧ ts = us ++ vs ∧
          (vs = [] ∧ e = e' ∨ ∃ t ws, vs = t :: ws ∧ t.continuesExpr = true) := by
      subst hts
      obtain ⟨e', us', vs', he', rfl, hvs'⟩ := ih us.length (by simp) hl rfl
      refine ⟨e', us', vs' ++ t :: ws, he', by simp, .inr ?_⟩
      rcases hvs' with ⟨rfl, -⟩ | ⟨t', ws', rfl, ht'⟩
      · exact ⟨t, ws, rfl, ht⟩
      · exact ⟨t', ws' ++ t :: ws, rfl, ht'⟩
    rcases h.operand_cases with ⟨op, l, r, us, vs, -, -, hts, hl, -⟩ |
      ⟨f, args, us, vs, -, -, hts, hf, -⟩ | hatom
    · exact hstep hts hl rfl
    · exact hstep hts hf rfl
    · exact ⟨e, ts, [], hatom, by simp, .inl ⟨rfl, rfl⟩⟩

theorem Composed.begins (h : Composed (.operand level e) ts) :
    ∃ t us, ts = t :: us ∧ t.beginsExpr = true := by
  obtain ⟨e', us, vs, hatom, rfl, -⟩ := h.leading
  obtain ⟨t, ws, rfl, ht⟩ := hatom.begins
  exact ⟨t, ws ++ vs, rfl, ht⟩

end Operand

namespace Composed

variable {level : Nat} {e : Expr} {t : Lexeme} {ts us rest : List Lexeme} {q : Clause}

theorem isChain_cons (ht : t.isFree = true) (h : rest.IsChain Adjacent) :
    (t :: rest).IsChain Adjacent :=
  List.isChain_cons.mpr ⟨fun u _ => adjacent_of_isFree ht u, h⟩

theorem isChain_parameters (params : List Identifier) (h : rest.IsChain Adjacent) :
    (parameterLexemes params ++ rest).IsChain Adjacent := by
  cases params with
  | nil => exact h
  | cons x xs =>
    refine isChain_cons rfl ?_
    induction xs with
    | nil => exact h
    | cons y ys ih => exact isChain_cons rfl (isChain_cons rfl ih)

/-- An operator or an assignment is followed by an expression. -/
theorem isChain_cons_operand (h : Composed (.operand level e) us)
    (ht : ∀ u : Lexeme, u.beginsExpr = true → Adjacent t u)
    (hrest : (us ++ rest).IsChain Adjacent) : (t :: (us ++ rest)).IsChain Adjacent := by
  obtain ⟨u, vs, rfl, hu⟩ := h.begins
  refine List.isChain_cons.mpr ⟨fun u' hu' => ?_, hrest⟩
  obtain rfl := Option.some.inj hu'
  exact ht _ hu

theorem further_head {es : List Expr} (h : Composed (.further es) us)
    (hrest : ∀ u ∈ rest.head?, u.isSymbol = true) : ∀ u ∈ (us ++ rest).head?, u.isSymbol = true := by
  cases h with
  | noFurther => exact hrest
  | further _ _ => simp [Lexeme.isSymbol]

/-- In all that is composed the tokens follow one another as they should. -/
theorem isChain (h : Composed q ts) (hrest : rest.IsChain Adjacent) (hp : q.Precedes rest) :
    (ts ++ rest).IsChain Adjacent := by
  induction h generalizing rest with
  | number n => exact List.isChain_cons.mpr ⟨hp, hrest⟩
  | boolean | quoted | name => exact isChain_cons rfl hrest
  | function f params _ ih | definition f params _ _ ih =>
    have hbody := ih (isChain_cons (t := .mark .closeBrace) rfl hrest) trivial
    simpa [functionLexemes] using isChain_cons rfl (isChain_cons rfl (isChain_cons rfl
      (isChain_parameters params (isChain_cons rfl (isChain_cons rfl hbody)))))
  | parens _ ih =>
    have he := ih (isChain_cons (t := .mark .closeParen) rfl hrest)
      (by simp [Clause.Precedes, Lexeme.isSymbol])
    simpa using isChain_cons (t := .mark .openParen) rfl he
  | call _ _ _ ihf iha =>
    have hargs := iha (isChain_cons (t := .mark .closeParen) rfl hrest)
      (by simp [Clause.Precedes, Lexeme.isSymbol])
    simpa using ihf (isChain_cons (t := .mark .openParen) rfl hargs)
      (by simp [Clause.Precedes, Lexeme.isSymbol])
  | binary _ _ hr ihl ihr =>
    simpa using ihl (isChain_cons_operand (t := .operator _) hr (fun _ hu => hu) (ihr hrest hp))
      (by simp [Clause.Precedes, Lexeme.isSymbol])
  | noArguments | noFurther | emptyBlock => exact hrest
  | arguments _ hes ihe ihes => simpa using ihe (ihes hrest hp) (further_head hes hp)
  | further _ hes ihe ihes =>
    simpa using isChain_cons (t := .mark .comma) rfl (ihe (ihes hrest hp) (further_head hes hp))
  | expr _ ih =>
    simpa using ih (isChain_cons (t := .mark .semicolon) rfl hrest)
      (by simp [Clause.Precedes, Lexeme.isSymbol])
  | assign x he ih =>
    have he' := ih (isChain_cons (t := .mark .semicolon) rfl hrest)
      (by simp [Clause.Precedes, Lexeme.isSymbol])
    simpa using isChain_cons (t := .name x) rfl
      (isChain_cons_operand (t := .mark .assign) he (fun _ hu => hu) he')
  | loop _ _ iht ihb | branch _ _ iht ihb =>
    have hbody := ihb (isChain_cons (t := .mark .closeBrace) rfl hrest) trivial
    have htest := iht (isChain_cons (t := .mark .closeParen) rfl
      (isChain_cons (t := .mark .openBrace) rfl hbody)) (by simp [Clause.Precedes, Lexeme.isSymbol])
    simpa [guardedLexemes] using isChain_cons rfl (isChain_cons rfl htest)
  | retNothing => exact isChain_cons rfl (isChain_cons rfl hrest)
  | ret _ ih =>
    have he := ih (isChain_cons (t := .mark .semicolon) rfl hrest)
      (by simp [Clause.Precedes, Lexeme.isSymbol])
    simpa using isChain_cons (t := .keyword .ret) rfl he
  | block _ _ ihs ihss => simpa using ihs (ihss hrest trivial) trivial

end Composed

theorem Written.isChain {q : Phrase} {ts rest : List Lexeme} (h : Written q ts)
    (hrest : rest.IsChain Adjacent) (hp : (q.before none).Precedes rest) :
    (ts ++ rest).IsChain Adjacent :=
  (h.composed none).isChain hrest hp

end Scriptlet
