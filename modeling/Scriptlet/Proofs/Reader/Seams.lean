import Scriptlet.Proofs.Reader.Joining

/-! Where two scripts meet: the one exception to reading them one after the other. -/
namespace Scriptlet

open Layout (Skips)

namespace Reader

variable {α : Type} {p : Reader α} {x y : α} {cs rest rest' : List Char}

/-- Where a reader stops is determined by the text. -/
theorem Reads.rest_unique (h : Reads p cs x rest) (h' : Reads p cs y rest') : rest = rest' := by
  obtain ⟨mid, pos, a, heq, hskips⟩ := h 0 .none
  obtain ⟨mid', pos', a', heq', hskips'⟩ := h' 0 .none
  have hsame := heq.symm.trans heq'
  simp only [Prod.mk.injEq, Option.some.injEq, Cursor.mk.injEq] at hsame
  obtain ⟨⟨-, rfl, -⟩, -⟩ := hsame
  exact hskips.unique hskips'

end Reader

/-- A token that ends a definition begins neither like a call nor like an operator. -/
theorem Lexeme.head_of_endsDefinition {t : Lexeme} (h : t.endsDefinition = true) {c : Char}
    (hc : c ∈ t.chars.head?) : c ≠ '(' ∧ c ≠ '+' ∧ c ≠ '-' := by
  have hop := endsDefinition.beginsOperator h
  have hbegins : t.Begins c := by
    obtain ⟨d, ds, hd, hb⟩ := t.begins
    obtain rfl : d = c := by simpa [hd] using hc
    exact hb
  cases t with
  | number n =>
    have hminus : n.minus = none := by simpa [beginsOperator] using hop
    obtain ⟨d, ds, hd, hdigit⟩ := n.unsigned_begins
    obtain rfl : d = c := by simpa [chars, Literal.chars, Literal.signChars, hminus, hd] using hc
    refine ⟨?_, ?_, ?_⟩ <;> rintro rfl <;> simp at hdigit
  | operator op => cases hop
  | mark m =>
    obtain rfl : c = m.char := hbegins
    cases m with
    | openParen => cases h
    | _ => decide
  | _ => refine ⟨?_, ?_, ?_⟩ <;> rintro rfl <;> simp [Begins, Token.isNameStart] at hbegins

namespace Composed

variable {next : Option Lexeme} {ss ss' : List Stmt} {ts us ts' us' rest rest' : List Lexeme}
  {cs : List Char} {body body' : List Stmt} {f f' : Identifier} {params params' : List Identifier}

theorem block_split (h : Composed (.block next (ss ++ ss')) ts) :
    ∃ us vs, ts = us ++ vs ∧ Composed (.block (vs.head?.or next) ss) us ∧
      Composed (.block next ss') vs := by
  induction ss generalizing ts with
  | nil => exact ⟨[], ts, rfl, .emptyBlock, h⟩
  | cons s ss ih =>
    cases h with
    | @block _ _ _ ts₁ ts₂ hs hss =>
      obtain ⟨us, vs, rfl, hus, hvs⟩ := ih hss
      rw [List.head?_append, Option.or_assoc] at hs
      exact ⟨ts₁ ++ us, vs, (List.append_assoc _ _ _).symm, .block hs hus, hvs⟩

/-- The same statements in the same text have the same end. -/
theorem block_end (h : Composed (.block rest.head? ss) ts) (h' : Composed (.block rest'.head? ss) ts')
    (hcs : Laid (ts ++ rest) cs) (hcs' : Laid (ts' ++ rest') cs) :
    ∃ cs', Laid rest cs' ∧ Laid rest' cs' := by
  induction ss generalizing ts ts' cs with
  | nil =>
    cases h
    cases h'
    exact ⟨cs, hcs, hcs'⟩
  | cons s ss ih =>
    cases h with
    | @block _ _ _ ts₁ ts₂ hs hss =>
      cases h' with
      | @block _ _ _ ts₁' ts₂' hs' hss' =>
        rw [← List.head?_append] at hs hs'
        rw [List.append_assoc] at hcs hcs'
        have hready := Grammar.ready_nested (Nat.le_refl (ts₁.length + ts₁'.length + 1))
        obtain ⟨mid, hmid, hreads⟩ := hready.statement hs (by omega) cs hcs
        obtain ⟨mid', hmid', hreads'⟩ := hready.statement hs' (by omega) cs hcs'
        obtain rfl := hreads.rest_unique hreads'
        exact ih hss hss' hmid hmid'

/-- Definitions in the same text have the same end. -/
theorem definition_end (h : Composed (.block (some (.mark .closeBrace)) body) us)
    (h' : Composed (.block (some (.mark .closeBrace)) body') us')
    (hcs : Laid (functionLexemes f params us ++ rest) cs)
    (hcs' : Laid (functionLexemes f' params' us' ++ rest') cs) :
    ∃ cs', Laid rest cs' ∧ Laid rest' cs' := by
  have hle := Nat.le_refl
    ((functionLexemes f params us).length + (functionLexemes f' params' us').length)
  have hready := Grammar.ready_nested hle
  obtain ⟨mid, hmid, hreads⟩ := Grammar.takes_functionDef hready hle h (by omega) cs hcs
  obtain ⟨mid', hmid', hreads'⟩ := Grammar.takes_functionDef hready hle h' (by omega) cs hcs'
  obtain rfl := hreads.rest_unique hreads'
  exact ⟨mid, hmid, hmid'⟩

/-- The definition without semicolon at the end of a script. -/
theorem block_endsOpen (h : Composed (.block none ss) ts) (hopen : EndsOpen ss ts) :
    ∃ (ss₀ : List Stmt) (ts₀ : List Lexeme) (f : Identifier) (params : List Identifier)
      (body : List Stmt) (us : List Lexeme),
      ss = ss₀ ++ [.expr (.function f.text (params.map (·.text)) body)] ∧
      ts = ts₀ ++ functionLexemes f params us ∧
      Composed (.block (some (.keyword .function)) ss₀) ts₀ ∧
      Composed (.block (some (.mark .closeBrace)) body) us := by
  obtain ⟨hdefinition, hbrace⟩ := hopen
  rcases List.eq_nil_or_concat ss with rfl | ⟨ss₀, s, rfl⟩
  · cases hdefinition
  · rw [List.concat_eq_append] at *
    obtain ⟨ts₀, vs, rfl, hts₀, hvs⟩ := h.block_split
    rw [List.getLast?_concat] at hdefinition
    cases hvs with
    | @block _ _ _ vs ws hs hws =>
      cases hws
      cases hs with
      | definition f params hbody _ =>
        rw [List.append_nil] at hts₀ ⊢
        exact ⟨ss₀, ts₀, f, params, _, _, rfl, rfl, hts₀, hbody⟩
      | expr => simp [List.getLast?_append] at hbrace
      | assign | loop | branch | retNothing | ret => cases hdefinition

/-- The tokens of a definition in a text that begins like one: it ends here, or a semicolon follows. -/
theorem statement_definition {g : String} {names : List String}
    (h : Composed (.statement rest.head? (.expr (.function g names body))) ts)
    (hcs : Laid (ts ++ rest) cs) (hparen : cs.head? ≠ some '(') :
    ∃ (f : Identifier) (params : List Identifier) (us tail : List Lexeme),
      Composed (.block (some (.mark .closeBrace)) body) us ∧
      Laid (functionLexemes f params us ++ tail) cs ∧
      ∀ t ∈ tail.head?, t = .mark .semicolon ∨ t.endsDefinition = true := by
  cases h with
  | definition f params hbody hnext =>
    refine ⟨f, params, _, rest, hbody, hcs, ?_⟩
    intro t ht
    rw [Option.all_eq_true] at hnext
    exact .inr (hnext t ht)
  | expr he =>
    cases he with
    | @function _ f params _ us hbody =>
      refine ⟨f, params, us, .mark .semicolon :: rest, hbody, by simpa using hcs, ?_⟩
      intro t ht
      exact .inl (Option.some.inj ht).symm
    | parens _ => exact absurd hcs.head hparen

end Composed

namespace Program

variable {p q : Program} {upper lower : String}

/-- A definition that the text below it calls or operates on is not read as a statement. -/
theorem not_parse_join (hp : parse upper = .ok p) (hq : parse lower = .ok q)
    (hopen : EndsInDefinition upper) {c : Char} (hc : c ∈ Layout.next? lower.toList)
    (hjoins : c = '(' ∨ c = '+' ∨ c = '-') :
    parse (upper ++ "\n" ++ lower) ≠ .ok ⟨p.body ++ q.body⟩ := by
  intro hjoined
  obtain ⟨ss, ts, hts, hupper, hends⟩ := hopen
  have hss : parse upper = .ok ⟨ss⟩ := parse_eq_ok_iff_spelled.mpr ⟨ts, hts, hupper⟩
  obtain rfl : ⟨ss⟩ = p := Except.ok.inj (hss.symm.trans hp)
  obtain ⟨us, hus, hlower, husChain⟩ := exists_lexemes hq
  obtain ⟨vs, hvs, hvsSpelled, hvsChain⟩ := exists_lexemes hjoined
  -- both the tokens of the two scripts and those of the whole are in the text
  have hboth : Spelled (ts ++ us) (upper ++ "\n" ++ lower).toList := by
    simpa using hupper.join hlower
  obtain ⟨cs, hcs, hskips⟩ := hboth.laid (hts.isChain husChain trivial)
  obtain ⟨cs', hcs', hskips'⟩ := hvsSpelled.laid hvsChain
  obtain rfl := hskips.unique hskips'
  obtain ⟨ss₀, ts₀, f, params, body, ws, rfl, rfl, hss₀, hbody⟩ := hts.block_endsOpen hends
  rw [List.append_assoc] at hcs hvs
  obtain ⟨vs₀, vs₁, rfl, hvs₀, hvs₁⟩ := hvs.block_split
  rw [Option.or_none] at hvs₀
  have hfirst : Composed (.block (functionLexemes f params ws ++ us).head? ss₀) ts₀ := hss₀
  obtain ⟨mid, hmid, hmid'⟩ := hfirst.block_end hvs₀ hcs hcs'
  cases hvs₁ with
  | @block _ _ _ as bs hs _ =>
    rw [Option.or_none] at hs
    have hparen : mid.head? ≠ some '(' := by
      rw [hmid.head]
      change some 'f' ≠ some '('
      decide
    obtain ⟨f', params', ws', tail, hbody', hlaid, htail⟩ := hs.statement_definition hmid' hparen
    obtain ⟨rest, hrest, hrest'⟩ := hbody.definition_end hbody' hmid hlaid
    -- the same text begins with a token that goes on and with one that does not
    rw [hlower.next? husChain, ← hrest.head, hrest'.head] at hc
    obtain ⟨t, ht, hct⟩ := Option.bind_eq_some_iff.mp hc
    rcases htail t ht with rfl | hends
    · obtain rfl : ';' = c := Option.some.inj hct
      simp at hjoins
    · obtain ⟨hnotParen, hnotPlus, hnotMinus⟩ := Lexeme.head_of_endsDefinition hends hct
      rcases hjoins with hparen | hplus | hminus
      · exact hnotParen hparen
      · exact hnotPlus hplus
      · exact hnotMinus hminus

/-- Two accepted scripts, one below the other, are one script with the statements of both, but for
one exception: the upper one ends with a definition that has no semicolon, and the lower one begins
with a parenthesis or a sign. -/
theorem parse_join_iff (hp : parse upper = .ok p) (hq : parse lower = .ok q) :
    parse (upper ++ "\n" ++ lower) = .ok ⟨p.body ++ q.body⟩ ↔
      ¬ (EndsInDefinition upper ∧
        ∃ c ∈ Layout.next? lower.toList, c = '(' ∨ c = '+' ∨ c = '-') := by
  constructor
  · intro hjoined hexception
    obtain ⟨hopen, c, hc, hjoins⟩ := hexception
    exact not_parse_join hp hq hopen hc hjoins hjoined
  · intro hnot
    apply parse_join hp hq
    intro hopen c hc
    have hother : ¬ (c = '(' ∨ c = '+' ∨ c = '-') := fun hjoins => hnot ⟨hopen, c, hc, hjoins⟩
    simpa only [not_or] using hother

def definedName : Identifier := ⟨"f", rfl, rfl, by decide⟩

theorem endsInDefinition_empty : EndsInDefinition "function f()\x7b\x7d" := by
  have hcomposed : Composed (.block none [.expr (.function "f" [] [])])
      (functionLexemes definedName [] []) := by
    rw [← List.append_nil (functionLexemes _ _ _)]
    exact .block (.definition definedName [] .emptyBlock rfl) .emptyBlock
  have hspells : Spelled (functionLexemes definedName [] []) "function f()\x7b\x7d".toList := by
    refine ⟨[], _, .nil, ?_, .cons (.blank (c := ' ') rfl .nil) ⟨by decide, by simp⟩
      (.cons .nil ⟨by decide, by simp⟩ (.cons .nil ⟨by decide, by simp⟩
      (.cons .nil ⟨by decide, by simp⟩ (.cons .nil ⟨by decide, by simp⟩
      (.cons .nil ⟨by decide, by simp⟩ .nil)))))⟩
    decide
  exact ⟨_, _, hcomposed, hspells, rfl, rfl⟩

theorem parse_join_iff_definition :
    ∃ p q r, parse "function f()\x7b\x7d" = .ok p ∧ parse "f();" = .ok q ∧
      parse "(f)();" = .ok r ∧
      parse ("function f()\x7b\x7d" ++ "\n" ++ "f();") = .ok ⟨p.body ++ q.body⟩ ∧
      parse ("function f()\x7b\x7d" ++ "\n" ++ "(f)();") ≠ .ok ⟨p.body ++ r.body⟩ := by
  have haccepted (source : String) (h : (parse source).isOk = true) :
      ∃ p, parse source = .ok p := by
    cases hparse : parse source with
    | ok p => exact ⟨p, rfl⟩
    | error e =>
      rw [hparse] at h
      cases h
  obtain ⟨p, hp⟩ := haccepted "function f()\x7b\x7d" (by decide +kernel)
  obtain ⟨q, hq⟩ := haccepted "f();" (by decide +kernel)
  obtain ⟨r, hr⟩ := haccepted "(f)();" (by decide +kernel)
  have hname : Layout.next? "f();".toList = some 'f' := by decide +kernel
  have hparen : Layout.next? "(f)();".toList = some '(' := by decide +kernel
  refine ⟨p, q, r, hp, hq, hr, (parse_join_iff hp hq).mpr ?_, ?_⟩
  · rintro ⟨-, c, hc, hjoins⟩
    rw [hname] at hc
    obtain rfl : 'f' = c := Option.some.inj hc
    simp at hjoins
  · intro hjoined
    exact (parse_join_iff hp hr).mp hjoined ⟨endsInDefinition_empty, '(', hparen, .inl rfl⟩

end Program
end Scriptlet
