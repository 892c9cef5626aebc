import Scriptlet.Reader.Parse
import Scriptlet.Proofs.Reader.Expressions

/-! Scripts are read as they were written. -/
namespace Scriptlet

namespace Grammar

open Reader
open Layout (Skips)

variable {limit n : Nat} {inner : Nested} {rest ts us : List Lexeme} {e : Expr} {t : Lexeme}

theorem takes_guarded (h : Ready n inner) (hn : n ≤ limit) (k : Keyword) {r : Rule} {body : List Stmt}
    (he : Composed (.operand 0 e) ts) (hb : Composed (.block (some (.mark .closeBrace)) body) us)
    (hl : (guardedLexemes k ts us).length ≤ n) :
    Takes (guarded limit inner r k.text) (guardedLexemes k ts us) (e, body) rest := by
  simp only [guardedLexemes, List.length_cons, List.length_append] at hl
  refine Takes.cons (fun _ => takes_keyword k) ?_
  refine Takes.cons (fun _ => takes_mark .openParen rfl) ?_
  refine Takes.next (takes_expr h hn he (by omega) ⟨_, _, rfl, rfl⟩) ?_
  refine Takes.cons (fun _ => takes_mark .closeParen rfl) ?_
  exact (takes_block h hn hb (by omega)).bind_pure rfl

theorem declines_guarded (k : Keyword) {r : Rule} (h : ts.head? ≠ some (.keyword k)) :
    Declines (guarded limit inner r k.text) ts :=
  (declines_keyword k h).bind _

theorem takes_loopStmt (h : Ready n inner) (hn : n ≤ limit) {body : List Stmt}
    (he : Composed (.operand 0 e) ts) (hb : Composed (.block (some (.mark .closeBrace)) body) us)
    (hl : (guardedLexemes .loop ts us).length ≤ n) :
    Takes (loopStmt limit inner) (guardedLexemes .loop ts us) (.loop e body) rest := by
  refine Takes.named ?_ _
  exact (takes_guarded h hn .loop he hb hl).bind_pure rfl

theorem takes_branchStmt (h : Ready n inner) (hn : n ≤ limit) {body : List Stmt}
    (he : Composed (.operand 0 e) ts) (hb : Composed (.block (some (.mark .closeBrace)) body) us)
    (hl : (guardedLexemes .branch ts us).length ≤ n) :
    Takes (branchStmt limit inner) (guardedLexemes .branch ts us) (.branch e body) rest := by
  refine Takes.named ?_ _
  exact (takes_guarded h hn .branch he hb hl).bind_pure rfl

theorem declines_loopStmt (h : ts.head? ≠ some (.keyword .loop)) :
    Declines (loopStmt limit inner) ts :=
  ((declines_guarded .loop h).bind _).named _

theorem declines_branchStmt (h : ts.head? ≠ some (.keyword .branch)) :
    Declines (branchStmt limit inner) ts :=
  ((declines_guarded .branch h).bind _).named _

theorem declines_returnStmt (h : ts.head? ≠ some (.keyword .ret)) :
    Declines (returnStmt limit inner) ts :=
  ((declines_keyword .ret h).bind _).named _

theorem takes_returnStmt (h : Ready n inner) (hn : n ≤ limit) {value : Option Expr}
    (hw : Composed (.statement rest.head? (.ret value)) ts) (hl : ts.length ≤ n) :
    Takes (returnStmt limit inner) ts (.ret value) rest := by
  refine Takes.named ?_ _
  cases hw with
  | retNothing =>
    refine Takes.cons (fun _ => takes_keyword .ret) ?_
    refine Takes.next (Declines.maybe (declines_expr (closes_mark (by decide)))) ?_
    exact (takes_mark .semicolon rfl).bind_pure rfl
  | ret he =>
    simp only [List.length_cons, List.length_append] at hl
    refine Takes.cons (fun _ => takes_keyword .ret) ?_
    refine Takes.next (takes_expr h hn he (by omega) ⟨_, _, rfl, rfl⟩).maybe ?_
    exact (takes_mark .semicolon rfl).bind_pure rfl

theorem takes_exprStmt (h : Ready n inner) (hn : n ≤ limit) (he : Composed (.operand 0 e) ts)
    (hl : ts.length ≤ n) :
    Takes (exprStmt limit inner) (ts ++ [.mark .semicolon]) (.expr e) rest := by
  refine Takes.named (Takes.next (takes_expr h hn he hl ⟨_, _, rfl, rfl⟩) ?_) _
  exact (takes_mark .semicolon rfl).bind_pure rfl

theorem takes_continuation (ht : t.continuesExpr = true) : Takes continuation [t] () rest := by
  cases t with
  | mark m =>
    obtain rfl : m = .openParen := by cases m <;> first | rfl | cases ht
    exact (takes_mark .openParen rfl).orElse _
  | operator op =>
    refine Declines.orElse_takes (declines_mark (m := .openParen) (by decide) rfl (by simp)) ?_
    by_cases h₀ : op.level = 0
    · exact (((ofLevel_comparisons.takes h₀).barred _).map fun _ => ()).orElse _
    · refine (((ofLevel_comparisons.declines h₀).barred _).bind _).orElse_takes ?_
      by_cases h₁ : op.level = 1
      · exact (((ofLevel_additions.takes h₁).barred _).map fun _ => ()).orElse _
      · have h₂ : op.level = 2 := by
          have := op.level_le
          omega
        refine (((ofLevel_additions.declines h₁).barred _).bind _).orElse_takes ?_
        exact ((ofLevel_multiplications.takes h₂).barred _).bind_pure rfl
  | _ => cases ht

theorem declines_continuation (hb : ∀ t ∈ ts.head?, t.beginsOperator = false)
    (hparen : ts.head? ≠ some (.mark .openParen)) : Declines continuation ts := by
  have hops (ops : List BinaryOp) : Declines (operator ops) ts :=
    declines_operator fun t ht => .inl (hb t ht)
  refine Declines.orElse (declines_mark (m := .openParen) (by decide) rfl hparen) ?_
  refine Declines.orElse (((hops _).barred _).bind _) ?_
  exact (((hops _).barred _).bind _).orElse (((hops _).barred _).bind _)

/-- A definition with a semicolon is a statement. -/
theorem takes_functionStmt (h : Ready n inner) (hn : n ≤ limit) {f : Identifier}
    {params : List Identifier} {body : List Stmt}
    (hw : Composed (.block (some (.mark .closeBrace)) body) ts)
    (hl : (functionLexemes f params ts).length ≤ n) :
    Takes (functionStmt limit inner) (functionLexemes f params ts ++ [.mark .semicolon])
      (.expr (.function f.text (params.map (·.text)) body)) rest := by
  refine Takes.named (Takes.next (takes_functionDef h hn hw hl) ?_) _
  refine (declines_continuation (by simp [Lexeme.beginsOperator]) (by simp)).absent_next ?_
  exact (takes_mark .semicolon rfl).maybe.bind_pure rfl

/-- A definition without semicolon is a statement before a token with which it does not go on. -/
theorem takes_functionStmt_of_ends (h : Ready n inner) (hn : n ≤ limit) {f : Identifier}
    {params : List Identifier} {body : List Stmt}
    (hw : Composed (.block (some (.mark .closeBrace)) body) ts)
    (hl : (functionLexemes f params ts).length ≤ n)
    (hrest : rest.head?.all Lexeme.endsDefinition = true) :
    Takes (functionStmt limit inner) (functionLexemes f params ts)
      (.expr (.function f.text (params.map (·.text)) body)) rest := by
  have hnot (t : Lexeme) (ht : t.endsDefinition = false) : rest.head? ≠ some t := by
    rintro heq
    simp [heq, ht] at hrest
  have hcontinuation : Declines continuation rest := by
    refine declines_continuation (fun t ht => ?_) (hnot _ rfl)
    have hends : t.endsDefinition = true := by
      rw [Option.mem_def] at ht
      simpa [ht] using hrest
    exact Lexeme.endsDefinition.beginsOperator hends
  refine Takes.named ?_ _
  rw [← List.append_nil (functionLexemes f params ts)]
  refine Takes.next (takes_functionDef h hn hw hl) (hcontinuation.absent_next ?_)
  exact (declines_mark (m := .semicolon) (by decide) rfl (hnot _ rfl)).maybe.bind_pure rfl

/-- A definition that is called or operated on is no statement. -/
theorem declines_functionStmt_of_continues (h : Ready n inner) (hn : n ≤ limit) {f : Identifier}
    {params : List Identifier} {body : List Stmt}
    (hw : Composed (.block (some (.mark .closeBrace)) body) ts)
    (hl : (functionLexemes f params ts).length ≤ n) (ht : t.continuesExpr = true) :
    Declines (functionStmt limit inner) (functionLexemes f params ts ++ t :: rest) := by
  refine Declines.named (Takes.next_declines (takes_functionDef h hn hw hl) ?_) _
  exact Declines.bind (takes_continuation ht).absent _

theorem declines_functionStmt (h : ts.head? ≠ some (.keyword .function)) :
    Declines (functionStmt limit inner) ts :=
  ((declines_functionDef h).bind _).named _

theorem declines_equals (ht : t.beginsExpr = true) : Declines (symbol "=") (t :: ts) := by
  refine declines_symbol rfl fun u hu tail _ => ?_
  obtain rfl := Option.some.inj hu
  obtain ⟨c, cs, hcs, hb⟩ := t.begins
  simp [hcs, List.isPrefixOf, (hb.expr ht).1.symm]

theorem takes_assignStmt (h : Ready n inner) (hn : n ≤ limit) {x : Identifier}
    (he : Composed (.operand 0 e) ts) (hl : ts.length ≤ n) :
    Takes (assignStmt limit inner) (.name x :: .mark .assign :: (ts ++ [.mark .semicolon]))
      (.assign x.text e) rest := by
  refine Takes.named (Takes.cons (fun _ => takes_name) ?_) _
  refine Takes.cons (fun _ => takes_mark .assign rfl) ?_
  have hequals : Declines (symbol "=") (ts ++ [.mark .semicolon] ++ rest) := by
    obtain ⟨t, us, rfl, ht⟩ := he.begins
    exact declines_equals ht
  refine hequals.absent_next ?_
  refine Takes.next (takes_expr h hn he hl ⟨_, _, rfl, rfl⟩) ?_
  exact (takes_mark .semicolon rfl).bind_pure rfl

theorem declines_assignStmt (h : ∀ x, ts.head? ≠ some (.name x)) :
    Declines (assignStmt limit inner) ts :=
  ((declines_name h).bind _).named _

/-- An equality is no assignment: one sign of equality follows the other. -/
theorem declines_assignment_eq {β : Type} {f : Unit → Reader β} :
    Declines (symbol "=" >>= fun _ => layout >>= fun _ => absent (symbol "=") >>= f)
      (.operator .eq :: ts) := by
  intro cs hcs
  obtain ⟨tail, cs', rfl, -, hskips, -⟩ := hcs.uncons
  have hsecond : Reads (symbol "=") ('=' :: tail) () cs' := reads_token rfl hskips
  have hfirst : Reads (symbol "=") ('=' :: '=' :: tail) () ('=' :: tail) :=
    reads_token rfl (Layout.skips_cons rfl (by decide))
  exact hfirst.next_refuses (hsecond.absent.bind f)

/-- What follows a name that begins an expression is no assignment. -/
theorem declines_assignment {β : Type} {f : Unit → Reader β}
    (ht : t.continuesExpr = true ∨ t = .mark .semicolon) :
    Declines (symbol "=" >>= fun _ => layout >>= fun _ => absent (symbol "=") >>= f) (t :: ts) := by
  by_cases heq : t = .operator .eq
  · subst heq
    exact declines_assignment_eq
  · refine Declines.bind (declines_symbol rfl fun u hu tail _ => ?_) _
    obtain rfl := Option.some.inj hu
    obtain ⟨c, cs, hcs, hb⟩ := t.begins
    have hc : '=' ≠ c := by
      rintro rfl
      rcases ht with ht | rfl
      · cases t with
        | mark m => cases m <;> cases ht; cases hb
        | operator op => cases op <;> first | exact heq rfl | cases hb
        | _ => cases ht
      · cases hb
    simp [hcs, List.isPrefixOf, hc]

/-- An expression as a statement is neither taken for a definition nor for an assignment. -/
theorem takes_expression (h : Ready n inner) (hn : n ≤ limit) (he : Composed (.operand 0 e) ts)
    (hl : ts.length ≤ n) :
    Takes (functionStmt limit inner <|> assignStmt limit inner <|> exprStmt limit inner)
      (ts ++ [.mark .semicolon]) (.expr e) rest := by
  have hexpr : Takes (exprStmt limit inner) (ts ++ [.mark .semicolon]) (.expr e) rest :=
    takes_exprStmt h hn he hl
  obtain ⟨e', us, vs, hatom, rfl, hvs⟩ := he.leading
  rw [List.length_append] at hl
  cases hatom with
  | @function f params body ts hb =>
    rcases hvs with ⟨rfl, rfl⟩ | ⟨t, ws, rfl, ht⟩
    · rw [List.append_nil]
      exact (takes_functionStmt h hn hb (by omega)).orElse _
    · refine Declines.orElse_takes ?_ (Declines.orElse_takes ?_ hexpr)
      · simpa using declines_functionStmt_of_continues h hn hb (by omega) ht
      · exact declines_assignStmt (by simp [functionLexemes])
  | name x =>
    refine (declines_functionStmt (by simp)).orElse_takes (Declines.orElse_takes ?_ hexpr)
    refine Declines.named (Takes.next_declines takes_name ?_) _
    rcases hvs with ⟨rfl, -⟩ | ⟨t, ws, rfl, ht⟩
    · exact declines_assignment (.inr rfl)
    · exact declines_assignment (.inl ht)
  | _ =>
    refine (declines_functionStmt (by simp)).orElse_takes ?_
    exact (declines_assignStmt (by simp)).orElse_takes hexpr

theorem takes_statement (h : Ready n inner) (hn : n ≤ limit) {s : Stmt}
    (hw : Composed (.statement rest.head? s) ts) (hl : ts.length ≤ n) :
    Takes (statement limit inner) ts s rest := by
  refine Takes.named ?_ _
  cases hw with
  | loop he hb => exact (takes_loopStmt h hn he hb hl).orElse _
  | branch he hb =>
    refine (declines_loopStmt (by simp [guardedLexemes])).orElse_takes ?_
    exact (takes_branchStmt h hn he hb hl).orElse _
  | retNothing =>
    refine (declines_loopStmt (by simp)).orElse_takes ?_
    refine (declines_branchStmt (by simp)).orElse_takes ?_
    exact (takes_returnStmt h hn .retNothing hl).orElse _
  | ret he =>
    refine (declines_loopStmt (by simp)).orElse_takes ?_
    refine (declines_branchStmt (by simp)).orElse_takes ?_
    exact (takes_returnStmt h hn (.ret he) hl).orElse _
  | assign x he =>
    refine (declines_loopStmt (by simp)).orElse_takes ?_
    refine (declines_branchStmt (by simp)).orElse_takes ?_
    refine (declines_returnStmt (by simp)).orElse_takes ?_
    refine (declines_functionStmt (by simp)).orElse_takes ?_
    simp only [List.length_cons, List.length_append] at hl
    exact (takes_assignStmt h hn he (by omega)).orElse _
  | definition f params hb hnext =>
    refine (declines_loopStmt (by simp [functionLexemes])).orElse_takes ?_
    refine (declines_branchStmt (by simp [functionLexemes])).orElse_takes ?_
    refine (declines_returnStmt (by simp [functionLexemes])).orElse_takes ?_
    exact (takes_functionStmt_of_ends h hn hb hl hnext).orElse _
  | @expr _ _ ts he =>
    rw [List.length_append] at hl
    have hhead (k : Keyword) (hk : k ≠ .function) :
        (ts ++ [Lexeme.mark .semicolon] ++ rest).head? ≠ some (.keyword k) := by
      obtain ⟨t, us, rfl, ht⟩ := he.begins
      rintro heq
      obtain rfl : t = .keyword k := Option.some.inj heq
      cases k <;> first | exact hk rfl | cases ht
    refine (declines_loopStmt (hhead .loop (by decide))).orElse_takes ?_
    refine (declines_branchStmt (hhead .branch (by decide))).orElse_takes ?_
    refine (declines_returnStmt (hhead .ret (by decide))).orElse_takes ?_
    exact takes_expression h hn he (by omega)

theorem declines_statement (h : Closes ts) : Declines (statement limit inner) ts := by
  have hhead (t : Lexeme) (ht : ∀ m, t ≠ .mark m) : ts.head? ≠ some t := by
    intro heq
    obtain ⟨m, -, rfl⟩ := h t heq
    exact ht m rfl
  refine Declines.named ?_ _
  refine (declines_loopStmt (hhead _ (by simp))).orElse ?_
  refine (declines_branchStmt (hhead _ (by simp))).orElse ?_
  refine (declines_returnStmt (hhead _ (by simp))).orElse ?_
  refine (declines_functionStmt (hhead _ (by simp))).orElse ?_
  refine (declines_assignStmt fun x => hhead _ (by simp)).orElse ?_
  exact ((declines_expr h).bind _).named _

theorem ready_succ (h : Ready n inner) (hn : n ≤ limit) :
    Ready (n + 1) ⟨expr limit inner, statement limit inner⟩ := by
  constructor <;> dsimp only
  · exact fun hw hl hrest => takes_expr h hn hw (Nat.le_of_lt_succ hl) hrest
  · exact fun hw hl => takes_statement h hn hw (Nat.le_of_lt_succ hl)
  · exact declines_expr
  · exact declines_statement

/-- Readers for more brackets are ready for more tokens. -/
theorem ready_nested (hn : n ≤ limit) : Ready n (nested limit n) := by
  induction n with
  | zero =>
    exact ⟨fun _ hl => absurd hl (Nat.not_lt_zero _), fun _ hl => absurd hl (Nat.not_lt_zero _),
      fun _ _ _ => refuses_fail, fun _ _ _ => refuses_fail⟩
  | succ n ih => exact ready_succ (ih (Nat.le_of_succ_le hn)) (Nat.le_of_succ_le hn)

theorem closes_nil : Closes [] := fun _ ht => nomatch ht

theorem takes_endOfText : Takes endOfText [] () [] := by
  intro cs hcs
  cases hcs.spells
  exact ⟨[], hcs, reads_token rfl Layout.skips_nil⟩

/-- The statements of a script, up to the end of the text. -/
theorem takes_statements {ss : List Stmt} (hw : Composed (.block none ss) ts) (hl : ts.length < limit) :
    Takes (do
      let body ← spaced limit (nested limit limit).statement
      layout
      named .endOfInput endOfText
      pure (Program.mk body)) ts ⟨ss⟩ [] := by
  have hready := ready_nested (n := limit) (Nat.le_refl limit)
  have hfinds : Finds (nested limit limit).statement [] ts ss := hready.finds_block hw hl closes_nil
  have hbody := hfinds.spaced (Nat.le_of_lt hl)
  rw [← List.append_nil ts]
  refine Takes.next ?_ ((takes_endOfText.named _).bind_pure rfl)
  simpa using hbody

theorem reads_composed {ss : List Stmt} {source cs : List Char} (hw : Composed (.block none ss) ts)
    (hl : ts.length < limit) (hcs : Laid ts cs) (hskips : Skips source cs) :
    ∃ cs', Reads (program limit) source ⟨ss⟩ cs' := by
  rw [← List.append_nil ts] at hcs
  obtain ⟨cs', -, hreads⟩ := takes_statements hw hl cs hcs
  exact ⟨cs', (layout_reads hskips hreads).named _⟩

theorem reads_program {ss : List Stmt} {source cs : List Char} (hw : Written (.block ss) ts)
    (hl : ts.length < limit) (hcs : Laid ts cs) (hskips : Skips source cs) :
    ∃ cs', Reads (program limit) source ⟨ss⟩ cs' :=
  reads_composed (hw.composed none) hl hcs hskips

end Grammar

namespace Program

/-- A script is read as the tree that it was written for, whatever layout stands between its tokens
and wherever there are more parentheses than needed. -/
theorem parse_spelled {p : Program} {ts : List Lexeme} {source : String}
    (hw : Written (.block p.body) ts) (hs : Spelled ts source.toList) : parse source = .ok p := by
  obtain ⟨gap, cs, hgap, hsource, hspells⟩ := hs
  have hchain : (ts ++ []).IsChain Adjacent := hw.isChain .nil trivial
  rw [List.append_nil] at hchain
  have hlaid : Laid ts cs := ⟨hspells, hchain⟩
  have hlength : ts.length < source.toList.length + 1 := by
    have := hspells.length_le
    simp only [hsource, List.length_append]
    omega
  have hskips : Layout.Skips source.toList cs := by
    rw [hsource]
    exact hgap.skips hlaid.skips hspells.eq_nil
  obtain ⟨rest, hreads⟩ := Grammar.reads_program hw hlength hlaid hskips
  obtain ⟨mid, pos, a, hparse, -⟩ := hreads 0 .none
  unfold parse
  dsimp only
  split
  · next heq =>
    cases hparse.symm.trans heq
    rfl
  · next heq => cases hparse.symm.trans heq

def quotientTarget : Identifier := ⟨"x", rfl, rfl, by decide⟩
def quotientSource : Identifier := ⟨"y", rfl, rfl, by decide⟩
def one : Literal := ⟨none, ['1'], none, rfl, by decide⟩
def minusHalf : Literal := ⟨some true, [], some ['5'], rfl, by decide⟩

/-- The tokens of the script `x = (y - 1) / -.5;`. -/
def quotientLexemes : List Lexeme :=
  [.name quotientTarget, .mark .assign, .mark .openParen, .name quotientSource, .operator .sub,
    .number one, .mark .closeParen, .operator .div, .number minusHalf, .mark .semicolon]

def quotient : Program :=
  ⟨[.assign "x" (.binary .div (.binary .sub (.name "y") (.number (.ofDecimal ⟨false, 1, 0⟩)))
    (.number (.ofDecimal ⟨true, 5, -1⟩)))]⟩

theorem parse_spelled_quotient :
    Written (.block quotient.body) quotientLexemes ∧
      Spelled quotientLexemes "x=(y-1)/ /*c*/-.5; // z".toList ∧
      parse "x=(y-1)/ /*c*/-.5; // z" = .ok quotient := by
  have hsub : Written (.operand 0 (.binary .sub (.name "y") (.number one.value)))
      [.name quotientSource, .operator .sub, .number one] :=
    .binary (by decide) (.name quotientSource) (.number one)
  have hdiv : Written (.operand 0 (.binary .div (.binary .sub (.name "y") (.number one.value))
      (.number minusHalf.value))) (quotientLexemes.drop 2).dropLast :=
    .binary (by decide) (.parens hsub) (.number minusHalf)
  have hw : Written (.block quotient.body) quotientLexemes :=
    .block (.assign quotientTarget hdiv) .emptyBlock
  have hs : Spelled quotientLexemes "x=(y-1)/ /*c*/-.5; // z".toList := by
    have hcomment : Layout.Gap false [' ', '/', '*', 'c', '*', '/'] :=
      .blank rfl (@Layout.Gap.block false ['c'] [] (by decide) .nil)
    have hend : Layout.Gap true [' ', '/', '/', ' ', 'z'] := .blank rfl (.lastLine rfl (by decide))
    refine ⟨[], _, .nil, ?_, .cons .nil ⟨by decide, by simp⟩ (.cons .nil ⟨by decide, by simp⟩
      (.cons .nil ⟨by decide, by simp⟩ (.cons .nil ⟨by decide, by simp⟩
      (.cons .nil ⟨by decide, by simp⟩ (.cons .nil ⟨by decide, by simp⟩
      (.cons .nil ⟨by decide, by simp⟩ (.cons hcomment ⟨by decide, fun _ => rfl⟩
      (.cons .nil ⟨by decide, by simp⟩ (.cons hend ⟨by decide, by simp⟩ .nil)))))))))⟩
    decide
  exact ⟨hw, hs, parse_spelled hw hs⟩

end Program
end Scriptlet
