import Scriptlet.Proofs.Reader.Soundness

/-! Scripts one below the other. -/
namespace Scriptlet

open Layout (Gap Skips isBlank)

namespace Layout

variable {last : Bool} {gap gap' : List Char}

/-- Layout may be followed by more layout. -/
theorem Gap.append (h : Gap false gap) (h' : Gap last gap') : Gap last (gap ++ gap') := by
  induction h with
  | nil => exact h'
  | blank hc _ ih => exact .blank hc ih
  | @line body gap hbody _ ih =>
    simpa using Gap.line hbody ih
  | @block body gap hbody _ ih =>
    simpa using Gap.block hbody ih
  | lastLine hlast _ => cases hlast

/-- A line feed ends the last comment. -/
theorem Gap.newline (h : Gap last gap) : Gap false (gap ++ ['\n']) := by
  induction h with
  | nil => exact .blank rfl .nil
  | blank hc _ ih => exact .blank hc ih
  | @line body gap hbody _ ih => simpa using Gap.line hbody ih
  | @block body gap hbody _ ih => simpa using Gap.block hbody ih
  | @lastLine body _ hbody => exact .line hbody .nil

end Layout

section Spelling
variable {ts us : List Lexeme} {xs ys : List Char}

theorem Separates.newline {t : Lexeme} {gap : List Char} {next : Option Lexeme}
    (h : Separates t gap none) (gap' : List Char) :
    Separates t (gap ++ '\n' :: gap') next := by
  refine ⟨fun _ _ => by simp, fun ht => ?_⟩
  have hslash := h.slash ht
  cases gap with
  | nil => rfl
  | cons c gap => exact hslash

theorem Spells.join (h : Spells ts xs) (hne : ts ≠ []) (h' : Spelled us ys) :
    Spells (ts ++ us) (xs ++ '\n' :: ys) := by
  induction h with
  | nil => exact absurd rfl hne
  | @cons t ts gap cs hgap hseparates hspells ih =>
    cases ts with
    | nil =>
      obtain rfl := hspells.eq_nil rfl
      obtain ⟨gap', zs, hgap', rfl, hus⟩ := h'
      have hjoined : Gap us.isEmpty (gap ++ ['\n'] ++ gap') := hgap.newline.append hgap'
      rw [List.append_assoc] at hjoined
      have hspelled := Spells.cons hjoined (hseparates.newline gap') hus
      simpa using hspelled
    | cons u vs =>
      have hrest : Spells (u :: (vs ++ us)) (cs ++ '\n' :: ys) := ih (by simp)
      have hgap : Gap (u :: (vs ++ us)).isEmpty gap := hgap
      have hspelled := Spells.cons hgap hseparates hrest
      simpa using hspelled

/-- The tokens of two texts, one below the other. -/
theorem Spelled.join (h : Spelled ts xs) (h' : Spelled us ys) :
    Spelled (ts ++ us) (xs ++ '\n' :: ys) := by
  obtain ⟨gap, cs, hgap, rfl, hspells⟩ := h
  cases ts with
  | nil =>
    obtain rfl := hspells.eq_nil rfl
    obtain ⟨gap', zs, hgap', rfl, hus⟩ := h'
    have hjoined : Gap us.isEmpty (gap ++ ['\n'] ++ gap') := hgap.newline.append hgap'
    exact ⟨gap ++ ['\n'] ++ gap', zs, hjoined, by simp, hus⟩
  | cons t ts =>
    refine ⟨gap, cs ++ '\n' :: ys, hgap, by simp, ?_⟩
    exact hspells.join (by simp) h'

theorem spelled_nil : Spelled [] [] := ⟨[], [], .nil, rfl, .nil⟩

theorem Spelled.newline (h : Spelled ts xs) : Spelled ts (xs ++ ['\n']) := by
  simpa using h.join spelled_nil

end Spelling

/-- The lines one below the other, each with its line feed. -/
def Text.unlines : List String → String
  | [] => ""
  | line :: lines => line ++ "\n" ++ unlines lines

/-- The first character that is not layout. -/
def Layout.next? (cs : List Char) : Option Char := (skip 0 cs).rest.head?

theorem Laid.head {ts : List Lexeme} {cs : List Char} (h : Laid ts cs) :
    cs.head? = ts.head?.bind fun t => t.chars.head? := by
  cases h.spells with
  | nil => rfl
  | @cons t ts gap cs _ _ _ =>
    obtain ⟨c, ds, hd, -⟩ := t.begins
    simp [hd]

theorem Spelled.laid {ts : List Lexeme} {source : List Char} (h : Spelled ts source)
    (hchain : ts.IsChain Adjacent) : ∃ cs, Laid ts cs ∧ Skips source cs := by
  obtain ⟨gap, cs, hgap, rfl, hspells⟩ := h
  have hlaid : Laid ts cs := ⟨hspells, hchain⟩
  exact ⟨cs, hlaid, hgap.skips hlaid.skips hspells.eq_nil⟩

theorem Spelled.next? {ts : List Lexeme} {source : List Char} (h : Spelled ts source)
    (hchain : ts.IsChain Adjacent) :
    Layout.next? source = ts.head?.bind fun t => t.chars.head? := by
  obtain ⟨cs, hlaid, hskips⟩ := h.laid hchain
  obtain ⟨pos, hpos⟩ := hskips 0
  rw [Layout.next?, hpos]
  exact hlaid.head

def Stmt.isDefinition : Stmt → Bool
  | .expr (.function _ _ _) => true
  | _ => false

/-- The last statement is a definition without semicolon, so that it matters which token follows. -/
def EndsOpen (ss : List Stmt) (ts : List Lexeme) : Prop :=
  ss.getLast?.any Stmt.isDefinition = true ∧ ts.getLast? = some (.mark .closeBrace)

namespace Composed

variable {next : Option Lexeme} {s : Stmt} {ss ss' : List Stmt} {ts us : List Lexeme}

theorem statement_begins (h : Composed (.statement next s) ts) :
    ∃ t, ts.head? = some t ∧ (t.beginsExpr = true ∨ ∃ k, t = .keyword k) := by
  cases h with
  | expr he =>
    obtain ⟨t, us, rfl, ht⟩ := he.begins
    exact ⟨t, rfl, .inl ht⟩
  | assign x _ => exact ⟨.name x, rfl, .inl rfl⟩
  | definition | loop | branch | retNothing | ret => exact ⟨_, rfl, .inr ⟨_, rfl⟩⟩

theorem block_head (h : Composed (.block next (s :: ss)) ts) :
    ∃ t, ts.head? = some t ∧ (t.beginsExpr = true ∨ ∃ k, t = .keyword k) := by
  cases h with
  | block hs _ =>
    obtain ⟨t, ht, hbegins⟩ := hs.statement_begins
    exact ⟨t, by rw [List.head?_append, ht, Option.some_or], hbegins⟩

theorem block_begins (h : Composed (.block next ss) ts) :
    ∀ t ∈ ts.head?, t.beginsExpr = true ∨ ∃ k, t = .keyword k := by
  intro t ht
  cases ss with
  | nil =>
    cases h
    cases ht
  | cons s ss =>
    obtain ⟨u, hu, hbegins⟩ := h.block_head
    obtain rfl := Option.some.inj (hu.symm.trans ht)
    exact hbegins

/-- Statements that end the text stand before other tokens as well. -/
theorem block_before (h : Composed (.block none ss) ts)
    (hopen : EndsOpen ss ts → next.all Lexeme.endsDefinition = true) :
    Composed (.block next ss) ts := by
  induction ss generalizing ts with
  | nil =>
    cases h
    exact .emptyBlock
  | cons s ss ih =>
    cases h with
    | @block _ _ _ ts us hs hss =>
      cases ss with
      | nil =>
        cases hss
        refine .block ?_ .emptyBlock
        cases hs with
        | definition f params hbody _ =>
          refine .definition f params hbody (hopen ⟨rfl, ?_⟩)
          simp [functionLexemes, List.getLast?_cons, List.getLast?_append]
        | expr he => exact .expr he
        | assign x he => exact .assign x he
        | loop htest hbody => exact .loop htest hbody
        | branch htest hbody => exact .branch htest hbody
        | retNothing => exact .retNothing
        | ret he => exact .ret he
      | cons s' ss =>
        obtain ⟨t, ht, -⟩ := hss.block_head
        have hrest : Composed (.block next (s' :: ss)) us := by
          refine ih hss fun hlast => hopen ?_
          obtain ⟨hdefinition, hbrace⟩ := hlast
          constructor
          · rw [List.getLast?_cons_cons, hdefinition]
          · rw [List.getLast?_append, hbrace, Option.some_or]
        refine .block ?_ hrest
        rw [ht, Option.some_or] at hs ⊢
        exact hs

/-- Statements one below the other. -/
theorem block_append (h : Composed (.block (us.head?.or next) ss) ts)
    (h' : Composed (.block next ss') us) : Composed (.block next (ss ++ ss')) (ts ++ us) := by
  induction ss generalizing ts with
  | nil =>
    cases h
    exact h'
  | cons s ss ih =>
    cases h with
    | @block _ _ _ ts vs hs hss =>
      rw [List.append_assoc, List.cons_append]
      refine .block ?_ (ih hss)
      rw [List.head?_append, Option.or_assoc]
      exact hs

end Composed

/-- A token that a statement begins with ends the definition before it, unless it is an opening
parenthesis or a number with a sign. -/
theorem Lexeme.endsDefinition_of_head {t : Lexeme} (h : t.beginsExpr = true ∨ ∃ k, t = .keyword k)
    (hc : ∀ c ∈ t.chars.head?, c ≠ '(' ∧ c ≠ '+' ∧ c ≠ '-') : t.endsDefinition = true := by
  rcases h with h | ⟨k, rfl⟩
  · cases t with
    | number n =>
      cases hm : n.minus with
      | none => simp [endsDefinition, beginsOperator, hm]
      | some b => cases b <;> simp [chars, Literal.chars, Literal.signChars, hm] at hc
    | mark m =>
      obtain rfl : m = .openParen := by cases m <;> first | rfl | cases h
      simp [chars, Mark.char] at hc
    | operator op => cases h
    | _ => rfl
  · rfl

namespace Program

variable {p q : Program} {source upper lower : String}

/-- The tokens of an accepted script, in order. -/
theorem exists_lexemes (h : parse source = .ok p) : ∃ ts,
    Composed (.block none p.body) ts ∧ Spelled ts source.toList ∧ ts.IsChain Adjacent := by
  obtain ⟨ts, hcomposed, hspelled⟩ := parse_eq_ok_iff_spelled.mp h
  have hchain := hcomposed.isChain .nil trivial
  rw [List.append_nil] at hchain
  exact ⟨ts, hcomposed, hspelled, hchain⟩

/-- The script ends with a definition that stands as a statement and has no semicolon. -/
def EndsInDefinition (source : String) : Prop :=
  ∃ ss ts, Composed (.block none ss) ts ∧ Spelled ts source.toList ∧ EndsOpen ss ts

theorem not_endsInDefinition (h : parse source = .ok p)
    (hlast : p.body.getLast?.any Stmt.isDefinition = false) : ¬ EndsInDefinition source := by
  rintro ⟨ss, ts, hcomposed, hspelled, hdefinition, -⟩
  have hp : parse source = .ok ⟨ss⟩ := parse_eq_ok_iff_spelled.mpr ⟨ts, hcomposed, hspelled⟩
  obtain rfl := Except.ok.inj (h.symm.trans hp)
  rw [hdefinition] at hlast
  cases hlast

theorem parse_newline (h : parse source = .ok p) : parse (source ++ "\n") = .ok p := by
  obtain ⟨ts, hcomposed, hspelled⟩ := parse_eq_ok_iff_spelled.mp h
  refine parse_eq_ok_iff_spelled.mpr ⟨ts, hcomposed, ?_⟩
  rw [String.toList_append]
  exact hspelled.newline

/-- Two scripts one below the other are one script, unless the upper one ends with a definition that
the lower one calls or operates on. -/
theorem parse_join (hp : parse upper = .ok p) (hq : parse lower = .ok q)
    (hnext : EndsInDefinition upper →
      ∀ c ∈ Layout.next? lower.toList, c ≠ '(' ∧ c ≠ '+' ∧ c ≠ '-') :
    parse (upper ++ "\n" ++ lower) = .ok ⟨p.body ++ q.body⟩ := by
  obtain ⟨ts, hts, hupper⟩ := parse_eq_ok_iff_spelled.mp hp
  obtain ⟨us, hus, hlower, hchain⟩ := exists_lexemes hq
  have hbefore : Composed (.block (us.head?.or none) p.body) ts := by
    refine hts.block_before fun hopen => ?_
    have hchar := hnext ⟨p.body, ts, hts, hupper, hopen⟩
    rw [hlower.next? hchain] at hchar
    rw [Option.or_none, Option.all_eq_true]
    intro t ht
    refine Lexeme.endsDefinition_of_head (hus.block_begins t ht) fun c hc => hchar c ?_
    rw [ht]
    exact hc
  refine parse_eq_ok_iff_spelled.mpr ⟨ts ++ us, hbefore.block_append hus, ?_⟩
  simpa using hupper.join hlower

/-- No script ends with a definition that the text below it calls or operates on. -/
def Apart : List String → Prop
  | [] => True
  | part :: below => (EndsInDefinition part →
      ∀ c ∈ Layout.next? (Text.unlines below).toList, c ≠ '(' ∧ c ≠ '+' ∧ c ≠ '-') ∧ Apart below

/-- Scripts one below the other are one script. -/
theorem parse_unlines {parts : List String} {ps : List Program}
    (h : List.Forall₂ (fun part p => parse part = .ok p) parts ps) (hapart : Apart parts) :
    parse (Text.unlines parts) = .ok ⟨ps.flatMap (·.body)⟩ := by
  induction h with
  | nil => exact parse_eq_ok_iff_spelled.mpr ⟨[], .emptyBlock, spelled_nil⟩
  | @cons part p parts ps hpart _ ih =>
    obtain ⟨hnext, hbelow⟩ := hapart
    exact parse_join hpart (ih hbelow) hnext

end Program
end Scriptlet
