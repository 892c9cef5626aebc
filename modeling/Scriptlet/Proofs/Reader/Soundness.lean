import Scriptlet.Proofs.Reader.Passages
import Scriptlet.Proofs.Reader.Scripts

/-! What is read was written: the tokens that readers pass over make up the tree that they find. -/
namespace Scriptlet

open Layout (Skips)

/-- An operand stands at lower levels too. -/
theorem Composed.lower {level : Nat} {e : Expr} {ts : List Lexeme}
    (h : Composed (.operand (level + 1) e) ts) : Composed (.operand level e) ts := by
  rcases h.operand_cases with ⟨op, l, r, us, vs, hlevel, rfl, rfl, hl, hr⟩ |
    ⟨f, args, us, vs, hlevel, rfl, rfl, hf, hargs⟩ | hatom
  · exact .binary (by omega) hl hr
  · exact .call (by omega) hf hargs
  · exact hatom.composed

namespace Grammar

open Reader

variable {limit : Nat} {inner : Nested} {rest : List Char} {ts us : List Lexeme}

def IsOperand (level : Nat) (ts : List Lexeme) (e : Expr) (_ : List Char) : Prop :=
  Composed (.operand level e) ts

/-- The tokens are a statement before all that may come next. -/
def IsStatement (ts : List Lexeme) (s : Stmt) (rest : List Char) : Prop :=
  ∀ next : Option Lexeme, (∀ u ∈ next, u.chars <+: rest) → Composed (.statement next s) ts

def IsBlock (ts : List Lexeme) (ss : List Stmt) (_ : List Char) : Prop :=
  ∃ us, Composed (.block (some (.mark .closeBrace)) ss) us ∧
    ts = .mark .openBrace :: (us ++ [.mark .closeBrace])

def IsName (ts : List Lexeme) (x : String) (_ : List Char) : Prop :=
  ∃ y : Identifier, x = y.text ∧ ts = [.name y]

def IsDefinition (ts : List Lexeme) (e : Expr) (_ : List Char) : Prop :=
  ∃ (f : Identifier) (params : List Identifier) (body : List Stmt) (us : List Lexeme),
    e = .function f.text (params.map (·.text)) body ∧
    Composed (.block (some (.mark .closeBrace)) body) us ∧ ts = functionLexemes f params us

def IsArguments (ts : List Lexeme) (args : List Expr) (_ : List Char) : Prop :=
  ∃ us, Composed (.arguments args) us ∧ ts = .mark .openParen :: (us ++ [.mark .closeParen])

/-- A comma comes first. -/
def BehindComma {α : Type} (P : List Lexeme → α → List Char → Prop) (ts : List Lexeme) (x : α)
    (rest : List Char) : Prop :=
  ∃ us, P us x rest ∧ ts = .mark .comma :: us

/-- The inner readers find what is written. -/
structure Faithful (inner : Nested) : Prop where
  expr (cs : List Char) : Sound inner.expr cs (IsOperand 0)
  statement (cs : List Char) : Sound inner.statement cs IsStatement

theorem composed_block {ss : List Stmt} (h : Items IsStatement rest ts ss) {next : Option Lexeme}
    (hnext : ∀ u ∈ next, u.chars <+: rest) : Composed (.block next ss) ts := by
  induction h with
  | nil => exact .emptyBlock
  | cons hs hpasses _ ih => exact .block (hs _ (hpasses.head_prefix hnext)) ih

theorem sound_block (h : Faithful inner) (cs : List Char) : Sound (block limit inner) cs IsBlock := by
  refine Sound.named ((sound_mark .openBrace rfl cs).next ?_) _
  rintro _ ⟨⟩ mid _ rfl
  refine (sound_spaced h.statement limit mid).next ?_
  intro us ss mid' _ hss
  refine (sound_mark .closeBrace rfl mid').map ?_
  rintro _ ⟨⟩ rest hpasses rfl
  have hnone : ∀ u ∈ (none : Option Lexeme), u.chars <+: rest := by simp
  have hclose : ∀ u ∈ some (Lexeme.mark .closeBrace), u.chars <+: mid' := hpasses.head_prefix hnone
  exact ⟨us, composed_block hss hclose, rfl⟩

theorem sound_commaSeparated {α : Type} {item : Reader α} {P : List Lexeme → α → List Char → Prop}
    (h : ∀ cs, Sound item cs P) (cs : List Char) :
    Sound (commaSeparated limit item) cs fun ts xs rest => ∃ us vs x ys mid, ts = us ++ vs ∧
      xs = x :: ys ∧ P us x mid ∧ Items (BehindComma P) rest vs ys := by
  refine (h cs).next ?_
  intro us x mid _ hx
  have hmore (cs : List Char) :
      Sound (symbol "," >>= fun _ => layout >>= fun _ => item) cs (BehindComma P) := by
    refine (sound_mark .comma rfl cs).next ?_
    rintro _ ⟨⟩ mid _ rfl
    exact (h mid).imp fun ts x rest hP => ⟨ts, hP, rfl⟩
  refine (sound_spaced hmore limit mid).map ?_
  intro vs ys rest _ hitems
  exact ⟨us, vs, x, ys, mid, rfl, rfl, hx, hitems⟩

theorem names_of_items {xs : List String} (h : Items (BehindComma IsName) rest ts xs) :
    ∃ ys : List Identifier, xs = ys.map (·.text) ∧
      ts = ys.flatMap fun y => [.mark .comma, .name y] := by
  induction h with
  | nil => exact ⟨[], rfl, rfl⟩
  | cons hx _ _ ih =>
    obtain ⟨ys, rfl, rfl⟩ := ih
    obtain ⟨_, ⟨y, rfl, rfl⟩, rfl⟩ := hx
    exact ⟨y :: ys, rfl, rfl⟩

theorem sound_parameters (cs : List Char) :
    Sound (maybe (parameters limit)) cs fun ts found _ => ∃ params : List Identifier,
      found.getD [] = params.map (·.text) ∧ ts = parameterLexemes params := by
  refine Sound.maybe (Sound.named ((sound_commaSeparated sound_name cs).imp ?_) _) fun _ => ?_
  · rintro ts xs rest ⟨us, vs, x, ys, mid, rfl, rfl, ⟨y, rfl, rfl⟩, hitems⟩
    obtain ⟨zs, rfl, rfl⟩ := names_of_items hitems
    exact ⟨y :: zs, rfl, rfl⟩
  · exact ⟨[], rfl, rfl⟩

theorem sound_functionDef (h : Faithful inner) (cs : List Char) :
    Sound (functionDef limit inner) cs IsDefinition := by
  refine Sound.named ((sound_keyword .function _ cs).next ?_) _
  rintro _ ⟨⟩ mid₁ _ rfl
  refine (sound_name mid₁).next ?_
  rintro _ _ mid₂ _ ⟨f, rfl, rfl⟩
  refine (sound_mark .openParen rfl mid₂).next ?_
  rintro _ ⟨⟩ mid₃ _ rfl
  refine (sound_parameters mid₃).next ?_
  rintro _ found mid₄ _ ⟨params, hparams, rfl⟩
  refine (sound_mark .closeParen rfl mid₄).next ?_
  rintro _ ⟨⟩ mid₅ _ rfl
  refine (sound_block h mid₅).map ?_
  rintro _ body rest _ ⟨us, hbody, rfl⟩
  rw [hparams]
  exact ⟨f, params, body, us, rfl, hbody, by simp [functionLexemes]⟩

theorem sound_primary (h : Faithful inner) (cs : List Char) :
    Sound (primary inner) cs (IsOperand 3) := by
  refine Sound.named (Sound.orElse ?_ fun _ => Sound.orElse ?_ fun _ => Sound.orElse ?_ fun _ =>
    Sound.orElse ?_ fun _ => ?_) _
  · refine (sound_mark .openParen rfl cs).next ?_
    rintro _ ⟨⟩ mid _ rfl
    refine (h.expr mid).next ?_
    intro us e mid' _ he
    refine (sound_mark .closeParen rfl mid').map ?_
    rintro _ ⟨⟩ rest _ rfl
    exact .parens he
  · refine ((sound_number cs).named _).map ?_
    rintro _ _ rest _ ⟨n, rfl, rfl⟩
    exact .number n
  · refine ((sound_quoted cs).named _).map ?_
    rintro _ _ rest _ ⟨s, rfl, rfl⟩
    exact .quoted s
  · refine ((sound_boolean cs).named _).map ?_
    rintro _ b rest _ rfl
    exact .boolean b
  · refine (sound_name cs).map ?_
    rintro _ _ rest _ ⟨x, rfl, rfl⟩
    exact .name x

theorem sound_callee (h : Faithful inner) (cs : List Char) :
    Sound (callee limit inner) cs (IsOperand 3) := by
  refine Sound.named (Sound.orElse ?_ fun _ => sound_primary h cs) _
  refine (sound_functionDef h cs).imp ?_
  rintro _ _ rest ⟨f, params, body, us, rfl, hbody, rfl⟩
  exact .function f params hbody

theorem composed_further {es : List Expr} (h : Items (BehindComma (IsOperand 0)) rest ts es) :
    Composed (.further es) ts := by
  induction h with
  | nil => exact .noFurther
  | cons he _ _ ih =>
    obtain ⟨us, he, rfl⟩ := he
    exact .further he ih

theorem sound_arguments (h : Faithful inner) (cs : List Char) :
    Sound (arguments limit inner) cs IsArguments := by
  refine Sound.named ((sound_mark .openParen rfl cs).next ?_) _
  rintro _ ⟨⟩ mid _ rfl
  have hlist : Sound (maybe (commaSeparated limit inner.expr)) mid fun ts found _ =>
      Composed (.arguments (found.getD [])) ts := by
    refine Sound.maybe ((sound_commaSeparated h.expr mid).imp ?_) fun _ => .noArguments
    rintro ts es rest ⟨us, vs, e, es', mid', rfl, rfl, he, hitems⟩
    exact .arguments he (composed_further hitems)
  refine hlist.next ?_
  intro us found mid' _ hargs
  refine (sound_mark .closeParen rfl mid').map ?_
  rintro _ ⟨⟩ rest _ rfl
  exact ⟨us, hargs, rfl⟩

/-- A call of a call has several argument lists, which are taken from the left. -/
theorem composed_calls {calls : List (List Expr)} (h : Items IsArguments rest ts calls) {f : Expr}
    (hf : Composed (.operand 3 f) us) : Composed (.operand 3 (calls.foldl .call f)) (us ++ ts) := by
  induction h generalizing f us with
  | nil => simpa using hf
  | cons hargs _ _ ih =>
    obtain ⟨vs, hargs, rfl⟩ := hargs
    rw [← List.append_assoc]
    exact ih (.call (by omega) hf hargs)

theorem sound_call (h : Faithful inner) (cs : List Char) :
    Sound (call limit inner) cs (IsOperand 3) := by
  refine Sound.named ((sound_callee h cs).next ?_) _
  intro us f mid _ hf
  refine (sound_spaced (sound_arguments h) limit mid).map ?_
  intro vs calls rest _ hcalls
  exact composed_calls hcalls hf

section Chain
variable {level : Nat}

/-- An operator of the level and its right operand. -/
def IsTerm (level : Nat) (ts : List Lexeme) (term : BinaryOp × Expr) (_ : List Char) : Prop :=
  term.1.level = level ∧ ∃ us, Composed (.operand (level + 1) term.2) us ∧
    ts = .operator term.1 :: us

/-- Operations of one level are taken from the left. -/
theorem composed_chain {terms : List (BinaryOp × Expr)} (h : Items (IsTerm level) rest ts terms)
    {e : Expr} (he : Composed (.operand level e) us) :
    Composed (.operand level (terms.foldl (fun e (o, e') => .binary o e e') e)) (us ++ ts) := by
  induction h generalizing e us with
  | nil => simpa using he
  | cons hterm _ _ ih =>
    obtain ⟨rfl, vs, hright, rfl⟩ := hterm
    rw [← List.append_assoc]
    exact ih (.binary (Nat.le_refl _) he hright)

theorem sound_chain {ops : List BinaryOp} {operand : Reader Expr} {r : Rule}
    (hops : ∀ o ∈ ops, o.level = level)
    (hoperand : ∀ cs, Sound operand cs (IsOperand (level + 1))) (cs : List Char) :
    Sound (chain limit (named r (operator ops)) operand) cs (IsOperand level) := by
  refine (hoperand cs).next ?_
  intro us e mid _ he
  have hterm (cs : List Char) : Sound (named r (operator ops) >>= fun o => layout >>= fun _ =>
      operand >>= fun e => pure (o, e)) cs (IsTerm level) := by
    refine ((sound_operator ops cs).named r).next ?_
    rintro _ o mid _ ⟨ho, rfl⟩
    refine (hoperand mid).map ?_
    intro vs e' rest _ he'
    exact ⟨hops o ho, vs, he', rfl⟩
  refine (sound_spaced hterm limit mid).map ?_
  intro vs terms rest _ hterms
  exact composed_chain hterms he.lower

end Chain

theorem sound_expr (h : Faithful inner) (cs : List Char) : Sound (expr limit inner) cs (IsOperand 0) := by
  have hmultiplicative (cs : List Char) : Sound (multiplicative limit inner) cs (IsOperand 2) :=
    (sound_chain (by decide) (sound_call h) cs).named _
  have hadditive (cs : List Char) : Sound (additive limit inner) cs (IsOperand 1) :=
    (sound_chain (by decide) hmultiplicative cs).named _
  exact (sound_chain (by decide) hadditive cs).named _

theorem sound_guarded (h : Faithful inner) (k : Keyword) (r : Rule) (cs : List Char) :
    Sound (guarded limit inner r k.text) cs fun ts x _ => ∃ us vs, Composed (.operand 0 x.1) us ∧
      Composed (.block (some (.mark .closeBrace)) x.2) vs ∧ ts = guardedLexemes k us vs := by
  refine (sound_keyword k r cs).next ?_
  rintro _ ⟨⟩ mid₁ _ rfl
  refine (sound_mark .openParen rfl mid₁).next ?_
  rintro _ ⟨⟩ mid₂ _ rfl
  refine (sound_expr h mid₂).next ?_
  intro us test mid₃ _ htest
  refine (sound_mark .closeParen rfl mid₃).next ?_
  rintro _ ⟨⟩ mid₄ _ rfl
  refine (sound_block h mid₄).map ?_
  rintro _ body rest _ ⟨vs, hbody, rfl⟩
  exact ⟨us, vs, htest, hbody, by simp [guardedLexemes]⟩

theorem sound_returnStmt (h : Faithful inner) (cs : List Char) :
    Sound (returnStmt limit inner) cs IsStatement := by
  refine Sound.named ((sound_keyword .ret _ cs).next ?_) _
  rintro _ ⟨⟩ mid _ rfl
  have hvalue : Sound (maybe (expr limit inner)) mid fun ts value _ => ∀ next,
      Composed (.statement next (.ret value)) (.keyword .ret :: (ts ++ [.mark .semicolon])) :=
    Sound.maybe ((sound_expr h mid).imp fun _ _ _ he _ => .ret he) fun _ _ => .retNothing
  refine hvalue.next ?_
  intro us value mid' _ hret
  refine (sound_mark .semicolon rfl mid').map ?_
  rintro _ ⟨⟩ rest _ rfl next _
  exact hret next

theorem accepts_continuation_operator {cs : List Char} {op : BinaryOp}
    (h : op.symbol.toList <+: cs) : Accepts continuation cs := by
  have hmem : op ∈ [.eq, .ne, .ge, .le, .gt, .lt] ∨ op ∈ [.add, .sub] ∨ op ∈ [.mul, .div, .mod] := by
    cases op <;> decide
  refine Accepts.orElse_right ?_ _
  rcases hmem with hop | hop | hop
  · exact (((accepts_operator hop h).barred _).map _).orElse_left _
  · exact ((((accepts_operator hop h).barred _).map _).orElse_left _).orElse_right _
  · exact ((((accepts_operator hop h).barred _).map _).orElse_right _).orElse_right _

/-- Where a definition does not go on, no operator begins and nothing is called. -/
theorem endsDefinition_of_not_accepts {cs : List Char} (h : ¬ Accepts continuation cs)
    (hsemicolon : ¬ Accepts (symbol ";") cs) {u : Lexeme} (hu : u.chars <+: cs) :
    u.endsDefinition = true := by
  cases u with
  | operator op => exact absurd (accepts_continuation_operator hu) h
  | number n =>
    cases hm : n.minus with
    | none => simp [Lexeme.endsDefinition, Lexeme.beginsOperator, hm]
    | some minus =>
      have hsign : n.signChars <+: cs := (List.prefix_append _ _).trans hu
      have hchars : n.signChars = (if minus then BinaryOp.sub else BinaryOp.add).symbol.toList := by
        cases minus <;> simp [Literal.signChars, hm, BinaryOp.symbol]
      rw [hchars] at hsign
      exact absurd (accepts_continuation_operator hsign) h
  | mark m =>
    cases m with
    | openParen =>
      have haccepts : Accepts (symbol "(") cs := accepts_symbol hu
      exact absurd (haccepts.orElse_left _) h
    | semicolon =>
      have haccepts : Accepts (symbol ";") cs := accepts_symbol hu
      exact absurd haccepts hsemicolon
    | _ => rfl
  | _ => rfl

theorem sound_functionStmt (h : Faithful inner) (cs : List Char) :
    Sound (functionStmt limit inner) cs IsStatement := by
  refine Sound.named ((sound_functionDef h cs).next ?_) _
  rintro _ _ mid _ ⟨f, params, body, us, rfl, hbody, rfl⟩
  have habsent : Sound (absent continuation) mid fun ts _ rest =>
      ts = [] ∧ rest = mid ∧ ¬ Accepts continuation mid :=
    Sound.absent fun hnot => ⟨rfl, rfl, hnot⟩
  refine habsent.next ?_
  rintro _ ⟨⟩ _ _ ⟨rfl, rfl, hnot⟩
  refine Sound.map (f := fun _ => _) (Sound.maybe ?_ ?_) fun _ _ _ _ hs => hs
  · refine (sound_mark .semicolon rfl _).imp ?_
    rintro _ ⟨⟩ rest rfl next _
    exact .expr (.function f params hbody)
  · intro hsemicolon next hnext
    simp only [List.append_nil]
    refine .definition f params hbody ?_
    rw [Option.all_eq_true]
    intro u hu
    exact endsDefinition_of_not_accepts hnot hsemicolon (hnext u hu)

theorem sound_assignStmt (h : Faithful inner) (cs : List Char) :
    Sound (assignStmt limit inner) cs IsStatement := by
  refine Sound.named ((sound_name cs).next ?_) _
  rintro _ _ mid₁ _ ⟨x, rfl, rfl⟩
  refine (sound_mark .assign rfl mid₁).next ?_
  rintro _ ⟨⟩ mid₂ _ rfl
  have habsent : Sound (absent (symbol "=")) mid₂ fun ts _ _ => ts = [] := Sound.absent fun _ => rfl
  refine habsent.next ?_
  rintro _ ⟨⟩ mid₃ _ rfl
  refine (sound_expr h mid₃).next ?_
  intro us e mid₄ _ he
  refine (sound_mark .semicolon rfl mid₄).map ?_
  rintro _ ⟨⟩ rest _ rfl next _
  exact .assign x he

theorem sound_exprStmt (h : Faithful inner) (cs : List Char) :
    Sound (exprStmt limit inner) cs IsStatement := by
  refine Sound.named ((sound_expr h cs).next ?_) _
  intro us e mid _ he
  refine (sound_mark .semicolon rfl mid).map ?_
  rintro _ ⟨⟩ rest _ rfl next _
  exact .expr he

theorem sound_statement (h : Faithful inner) (cs : List Char) :
    Sound (statement limit inner) cs IsStatement := by
  refine Sound.named (Sound.orElse ?_ fun _ => Sound.orElse ?_ fun _ => ?_) _
  · refine Sound.named ((sound_guarded h .loop _ cs).map ?_) _
    rintro _ ⟨test, body⟩ rest _ ⟨us, vs, htest, hbody, rfl⟩ next _
    exact .loop htest hbody
  · refine Sound.named ((sound_guarded h .branch _ cs).map ?_) _
    rintro _ ⟨test, body⟩ rest _ ⟨us, vs, htest, hbody, rfl⟩ next _
    exact .branch htest hbody
  · exact Sound.orElse (sound_returnStmt h cs) fun _ => Sound.orElse (sound_functionStmt h cs)
      fun _ => Sound.orElse (sound_assignStmt h cs) fun _ => sound_exprStmt h cs

theorem faithful_nested (limit depth : Nat) : Faithful (nested limit depth) := by
  induction depth with
  | zero => exact ⟨fun _ => sound_fail, fun _ => sound_fail⟩
  | succ depth ih =>
    constructor <;> dsimp only [nested]
    · exact sound_expr ih
    · exact sound_statement ih

theorem sound_endOfText (cs : List Char) :
    Sound endOfText cs fun ts _ rest => ts = [] ∧ rest = [] := by
  intro hs pos a x c a' heq
  cases cs with
  | nil =>
    cases heq
    exact ⟨[], [], .nil, hs, rfl, rfl⟩
  | cons d cs => cases heq

theorem sound_statements (limit : Nat) (cs : List Char) :
    Sound (do
      let body ← spaced limit (nested limit limit).statement
      layout
      named .endOfInput endOfText
      pure (Program.mk body)) cs fun ts p rest => Composed (.block none p.body) ts ∧ rest = [] := by
  refine (sound_spaced (faithful_nested limit limit).statement limit cs).next ?_
  intro ts ss mid _ hss
  refine ((sound_endOfText mid).named _).map ?_
  rintro _ ⟨⟩ rest hpasses ⟨rfl, rfl⟩
  cases hpasses
  rw [List.append_nil]
  exact ⟨composed_block hss (by simp), rfl⟩

/-- What is read as a script consists of the script's tokens. -/
theorem spelled_of_program {source : List Char} {p : Program} {c : Cursor} {a a' : Attempts}
    (h : program limit (.start source) a = (some (p, c), a')) :
    ∃ ts, Composed (.block none p.body) ts ∧ Spelled ts source := by
  obtain ⟨gap, cs, rfl, hgap, hsettled⟩ := Layout.exists_gap source
  have hskips : Skips (gap ++ cs) cs := hgap.skips hsettled.skips (by simp)
  simp only [program, named] at h
  split at h
  · next hprogram =>
    cases h
    obtain ⟨pos, hstatements⟩ := layout_eq_some hskips hprogram
    obtain ⟨ts, rest, hpasses, -, hcomposed, hrest⟩ :=
      sound_statements limit cs hsettled.skips pos a p c a' hstatements
    have hchain := hcomposed.isChain .nil trivial
    rw [List.append_nil] at hchain
    have hspells : Spells ts cs := hpasses.spells hrest hsettled hchain
    rw [← hspells.isEmpty_eq] at hgap
    exact ⟨ts, hcomposed, gap, cs, hgap, rfl, hspells⟩
  · cases h

/-- What consists of the tokens of a script is read as that script. -/
theorem reads_spelled {ss : List Stmt} {source : List Char} (hw : Composed (.block none ss) ts)
    (hs : Spelled ts source) : ∃ rest, Reads (program (source.length + 1)) source ⟨ss⟩ rest := by
  obtain ⟨gap, cs, hgap, rfl, hspells⟩ := hs
  have hchain := hw.isChain .nil trivial
  rw [List.append_nil] at hchain
  have hlaid : Laid ts cs := ⟨hspells, hchain⟩
  have hlength : ts.length < (gap ++ cs).length + 1 := by
    have := hspells.length_le
    simp only [List.length_append]
    omega
  exact reads_composed hw hlength hlaid (hgap.skips hlaid.skips hspells.eq_nil)

end Grammar

namespace Program

variable {p : Program} {source : String}

theorem parse_eq_ok : parse source = .ok p ↔
    ∃ c a, Grammar.program (source.toList.length + 1) (.start source.toList) .none =
      (some (p, c), a) := by
  unfold parse
  dsimp only
  split
  · next q c a heq =>
    rw [heq]
    constructor
    · intro h
      cases h
      exact ⟨c, a, rfl⟩
    · rintro ⟨c', a', h⟩
      cases h
      rfl
  · next a heq => simp [heq]

/-- The texts that are read as a script are those that consist of its tokens. -/
theorem parse_eq_ok_iff_spelled : parse source = .ok p ↔
    ∃ ts, Composed (.block none p.body) ts ∧ Spelled ts source.toList := by
  rw [parse_eq_ok]
  constructor
  · rintro ⟨c, a, h⟩
    exact Grammar.spelled_of_program h
  · rintro ⟨ts, hw, hs⟩
    obtain ⟨rest, hreads⟩ := Grammar.reads_spelled hw hs
    obtain ⟨mid, pos, a, hprogram, -⟩ := hreads 0 .none
    exact ⟨⟨mid, pos⟩, a, hprogram⟩

/-- What a check of a result says about it. -/
theorem exists_ok_of_any {ε α : Type} {result : Except ε α} {check : α → Bool}
    (h : result.toOption.any check = true) : ∃ x, result = .ok x ∧ check x = true := by
  cases result with
  | error e => cases h
  | ok x => exact ⟨x, rfl, h⟩

end Program
end Scriptlet
