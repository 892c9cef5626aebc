import Scriptlet.Prompt.Basic
import Scriptlet.Proofs.Reader.Places

/-! The prompt's count of open brackets, and the brackets of accepted scripts. -/
namespace Scriptlet

open Layout (Gap isBlank)

theorem prefix_append_cases {α : Type} {xs ys zs : List α} (h : xs <+: ys ++ zs) :
    xs <+: ys ∨ ∃ ws, xs = ys ++ ws ∧ ws <+: zs := by
  rcases List.prefix_or_prefix_of_prefix h (List.prefix_append ys zs) with hxs | ⟨ws, rfl⟩
  · exact .inl hxs
  · exact .inr ⟨ws, rfl, (List.prefix_append_right_inj ys).mp h⟩

namespace Brackets

variable {d : Int} {c : Char} {cs body xs : List Char}

/-- Characters that mean nothing to the count. -/
def isPlain (c : Char) : Bool :=
  c ≠ '"' && c ≠ '/' && c ≠ '(' && c ≠ ')' && c ≠ '\x7b' && c ≠ '\x7d'

theorem scan_plain (h : isPlain c = true) : scan d (c :: cs) = scan d cs := by
  simp only [isPlain, Bool.and_eq_true, decide_eq_true_eq] at h
  obtain ⟨⟨⟨⟨⟨hquote, hslash⟩, hopen⟩, hclose⟩, hbrace⟩, hbrace'⟩ := h
  rw [scan] <;> simp [hquote, hslash, hopen, hclose, hbrace, hbrace']

theorem scan_all_plain (h : body.all isPlain = true) : scan d (body ++ cs) = scan d cs := by
  induction body with
  | nil => rfl
  | cons c body ih =>
    rw [List.all_cons, Bool.and_eq_true] at h
    rw [List.cons_append, scan_plain h.1, ih h.2]

theorem scan_quote : scan d ('"' :: cs) = scanText d cs := by
  rw [scan] <;> simp

/-- A slash that begins no comment. -/
theorem scan_slash (h : ∀ e ∈ cs.head?, e ≠ '/' ∧ e ≠ '*') : scan d ('/' :: cs) = scan d cs := by
  cases cs with
  | nil => simp [scan]
  | cons e cs =>
    obtain ⟨h₁, h₂⟩ := h e rfl
    rw [scan] <;> simp [h₁, h₂]

theorem scanText_open (h : '"' ∉ cs) : scanText d cs = d := by
  induction cs with
  | nil => rw [scanText]
  | cons c cs ih =>
    obtain ⟨hc, hcs⟩ : c ≠ '"' ∧ '"' ∉ cs := by simpa [eq_comm] using h
    rw [scanText, if_neg hc, ih hcs]

theorem scanText_close (h : '"' ∉ body) : scanText d (body ++ '"' :: cs) = scan d cs := by
  induction body with
  | nil => rw [List.nil_append, scanText, if_pos rfl]
  | cons c body ih =>
    obtain ⟨hc, hbody⟩ : c ≠ '"' ∧ '"' ∉ body := by simpa [eq_comm] using h
    rw [List.cons_append, scanText, if_neg hc, ih hbody]

theorem scanLine_open (h : '\n' ∉ cs) : scanLine d cs = d := by
  induction cs with
  | nil => rw [scanLine]
  | cons c cs ih =>
    obtain ⟨hc, hcs⟩ : c ≠ '\n' ∧ '\n' ∉ cs := by simpa [eq_comm] using h
    rw [scanLine, if_neg hc, ih hcs]

theorem scanLine_close (h : '\n' ∉ body) : scanLine d (body ++ '\n' :: cs) = scan d cs := by
  induction body with
  | nil => rw [List.nil_append, scanLine, if_pos rfl]
  | cons c body ih =>
    obtain ⟨hc, hbody⟩ : c ≠ '\n' ∧ '\n' ∉ body := by simpa [eq_comm] using h
    rw [List.cons_append, scanLine, if_neg hc, ih hbody]

theorem scanBlock_open (h : ¬ ['*', '/'] <:+: cs) : scanBlock d cs = d := by
  induction cs with
  | nil => rw [scanBlock]
  | cons c cs ih =>
    have hcs : ¬ ['*', '/'] <:+: cs := fun hcs => h (hcs.trans (List.suffix_cons c cs).isInfix)
    rw [scanBlock, ih hcs]
    rintro ds rfl rfl
    exact h ⟨[], ds, rfl⟩

theorem scanBlock_close (h : ¬ ['*', '/'] <:+: body) :
    scanBlock d (body ++ '*' :: '/' :: cs) = scan d cs := by
  induction body with
  | nil => rw [List.nil_append, scanBlock]
  | cons c body ih =>
    have hbody : ¬ ['*', '/'] <:+: body := fun hb => h (hb.trans (List.suffix_cons c body).isInfix)
    rw [List.cons_append, scanBlock, ih hbody]
    -- the first two characters do not close the comment
    rintro ds rfl hds
    cases body with
    | nil => simp at hds
    | cons e body =>
      obtain rfl : e = '/' := by simpa using congrArg List.head? hds
      exact h ⟨[], body, rfl⟩

theorem not_infix_append_star (h : ¬ ['*', '/'] <:+: body) : ¬ ['*', '/'] <:+: body ++ ['*'] := by
  rintro ⟨before, after, heq⟩
  rcases List.eq_nil_or_concat after with rfl | ⟨after, c, rfl⟩
  · have hlast := congrArg List.getLast? heq
    simp at hlast
  · rw [List.concat_eq_append, ← List.append_assoc] at heq
    exact h ⟨before, after, (List.append_inj' heq rfl).1⟩

theorem isPlain_of_isBlank (h : isBlank c = true) : isPlain c = true := by
  obtain rfl | rfl | rfl | rfl := Layout.isBlank_iff.mp h <;> rfl

/-- Layout does not count, nor does a part of it. -/
theorem scan_gap {last : Bool} {gap : List Char} (h : Gap last gap) (hxs : xs <+: gap) :
    scan d xs = d := by
  induction h generalizing xs with
  | nil =>
    rw [List.prefix_nil.mp hxs]
    rw [scan]
  | blank hc _ ih =>
    rcases List.prefix_cons_iff.mp hxs with rfl | ⟨ys, rfl, hys⟩
    · rw [scan]
    · rw [scan_plain (isPlain_of_isBlank hc), ih hys]
  | @line body gap hbody _ ih =>
    rcases List.prefix_cons_iff.mp hxs with rfl | ⟨ys, rfl, hys⟩
    · rw [scan]
    rcases List.prefix_cons_iff.mp hys with rfl | ⟨zs, rfl, hzs⟩
    · exact scan_slash (by simp)
    rw [scan]
    rcases prefix_append_cases hzs with hzs | ⟨ws, rfl, hws⟩
    · exact scanLine_open fun hmem => hbody (hzs.subset hmem)
    · rcases List.prefix_cons_iff.mp hws with rfl | ⟨vs, rfl, hvs⟩
      · rw [List.append_nil]
        exact scanLine_open hbody
      · rw [scanLine_close hbody, ih hvs]
  | @block body gap hbody _ ih =>
    rcases List.prefix_cons_iff.mp hxs with rfl | ⟨ys, rfl, hys⟩
    · rw [scan]
    rcases List.prefix_cons_iff.mp hys with rfl | ⟨zs, rfl, hzs⟩
    · exact scan_slash (by simp)
    rw [scan]
    rcases prefix_append_cases hzs with hzs | ⟨ws, rfl, hws⟩
    · exact scanBlock_open fun hpart => hbody (hpart.trans hzs.isInfix)
    rcases List.prefix_cons_iff.mp hws with rfl | ⟨vs, rfl, hvs⟩
    · rw [List.append_nil]
      exact scanBlock_open hbody
    rcases List.prefix_cons_iff.mp hvs with rfl | ⟨us, rfl, hus⟩
    · exact scanBlock_open (not_infix_append_star hbody)
    · rw [scanBlock_close hbody, ih hus]
  | @lastLine body _ hbody =>
    rcases List.prefix_cons_iff.mp hxs with rfl | ⟨ys, rfl, hys⟩
    · rw [scan]
    rcases List.prefix_cons_iff.mp hys with rfl | ⟨zs, rfl, hzs⟩
    · exact scan_slash (by simp)
    rw [scan]
    exact scanLine_open fun hmem => hbody (hzs.subset hmem)

theorem scan_gap_append {gap : List Char} (h : Gap false gap) : scan d (gap ++ cs) = scan d cs := by
  induction h with
  | nil => rfl
  | blank hc _ ih => rw [List.cons_append, scan_plain (isPlain_of_isBlank hc), ih]
  | @line body gap hbody _ ih =>
    rw [List.cons_append, List.cons_append, scan, List.append_assoc, List.cons_append,
      scanLine_close hbody, ih]
  | @block body gap hbody _ ih =>
    rw [List.cons_append, List.cons_append, scan, List.append_assoc, List.cons_append,
      List.cons_append, scanBlock_close hbody, ih]
  | lastLine hlast _ => cases hlast

end Brackets

/-- How the token changes the number of open brackets. -/
def Lexeme.turn : Lexeme → Int
  | mark .openParen | mark .openBrace => 1
  | mark .closeParen | mark .closeBrace => -1
  | _ => 0

namespace Brackets

variable {d : Int} {cs xs : List Char} {t : Lexeme} {ts us : List Lexeme}

/-- Opening brackets minus closing ones. -/
def balance (ts : List Lexeme) : Int := (ts.map Lexeme.turn).sum

@[simp] theorem balance_nil : balance [] = 0 := rfl

@[simp] theorem balance_cons : balance (t :: ts) = t.turn + balance ts := by
  simp [balance]

@[simp] theorem balance_append : balance (ts ++ us) = balance ts + balance us := by
  simp [balance]

theorem isPlain_of_isNameChar {c : Char} (h : Token.isNameChar c = true) : isPlain c = true := by
  by_contra hplain
  have hcases : c = '"' ∨ c = '/' ∨ c = '(' ∨ c = ')' ∨ c = '\x7b' ∨ c = '\x7d' := by
    simpa [isPlain, imp_iff_not_or, or_assoc] using hplain
  rcases hcases with rfl | rfl | rfl | rfl | rfl | rfl <;> cases h

theorem isPlain_of_isDigit {c : Char} (h : c.isDigit = true) : isPlain c = true :=
  isPlain_of_isNameChar (by simp [Token.isNameChar, Char.isAlphanum, h])

theorem literal_isPlain (n : Literal) : n.chars.all isPlain = true := by
  have hdigits (c : Char) (hc : c ∈ n.whole ++ n.fraction.getD []) : isPlain c = true :=
    isPlain_of_isDigit (List.all_eq_true.mp n.digits c hc)
  have hsign : n.signChars.all isPlain = true := by
    unfold Literal.signChars
    split <;> rfl
  have hunsigned : n.unsignedChars.all isPlain = true := by
    refine List.all_eq_true.mpr fun c hc => ?_
    unfold Literal.unsignedChars at hc
    cases hf : n.fraction with
    | none => exact hdigits c (by simpa [hf] using hc)
    | some ds =>
      have hcases : c = '.' ∨ c ∈ n.whole ++ ds := by
        simp only [hf, Option.elim_some, List.mem_append, List.mem_cons] at hc ⊢
        tauto
      rcases hcases with rfl | hc
      · rfl
      · exact hdigits c (by simpa [hf] using hc)
  rw [Literal.chars, List.all_append, hsign, hunsigned, Bool.and_self]

/-- Tokens that are neither quoted nor brackets nor slashes. -/
theorem token_cases (t : Lexeme) : (t.chars.all isPlain = true ∧ t.turn = 0) ∨
    (∃ s, t = .quoted s) ∨ t = .operator .div ∨ ∃ m, t = .mark m := by
  cases t with
  | keyword k => cases k <;> exact .inl ⟨rfl, rfl⟩
  | boolean b => cases b <;> exact .inl ⟨rfl, rfl⟩
  | name x =>
    refine .inl ⟨List.all_eq_true.mpr fun c hc => ?_, rfl⟩
    exact isPlain_of_isNameChar (List.all_eq_true.mp x.chars c hc)
  | number n => exact .inl ⟨literal_isPlain n, rfl⟩
  | quoted s => exact .inr (.inl ⟨s, rfl⟩)
  | operator op => cases op <;> first | exact .inl ⟨rfl, rfl⟩ | exact .inr (.inr (.inl rfl))
  | mark m => exact .inr (.inr (.inr ⟨m, rfl⟩))

theorem scan_token (h : Ends t cs) : scan d (t.chars ++ cs) = scan (d + t.turn) cs := by
  rcases token_cases t with ⟨hplain, hturn⟩ | ⟨s, rfl⟩ | rfl | ⟨m, rfl⟩
  · rw [scan_all_plain hplain, hturn, add_zero]
  · rw [show (Lexeme.quoted s).chars = '"' :: (s.text.toList ++ ['"']) from rfl, List.cons_append,
      List.append_assoc, scan_quote]
    exact (scanText_close s.plain).trans (by simp [Lexeme.turn])
  · have hslash := h.slash rfl
    rw [show (Lexeme.operator .div).chars = ['/'] from rfl, List.cons_append, List.nil_append,
      scan_slash hslash]
    simp [Lexeme.turn]
  · cases m <;> simp [Lexeme.chars, Mark.char, Lexeme.turn, scan, sub_eq_add_neg]

/-- A token that is not complete does not count. -/
theorem scan_token_part (h : xs <+: t.chars) (hlt : xs.length < t.chars.length) : scan d xs = d := by
  rcases token_cases t with ⟨hplain, -⟩ | ⟨s, rfl⟩ | rfl | ⟨m, rfl⟩
  · have hxs : xs.all isPlain = true :=
      List.all_eq_true.mpr fun c hc => List.all_eq_true.mp hplain c (h.subset hc)
    have hscan : scan d (xs ++ []) = scan d [] := scan_all_plain hxs
    rw [List.append_nil] at hscan
    exact hscan.trans (by rw [scan])
  · rcases List.prefix_cons_iff.mp h with rfl | ⟨ys, rfl, hys⟩
    · rw [scan]
    rw [scan_quote]
    rcases prefix_append_cases hys with hys | ⟨ws, rfl, -⟩
    · exact scanText_open fun hmem => s.plain (hys.subset hmem)
    · -- only the closing quote is missing
      obtain rfl : ws = [] := by
        simp only [Lexeme.chars, List.length_cons, List.length_append, List.length_nil] at hlt
        exact List.length_eq_zero_iff.mp (by omega)
      rw [List.append_nil]
      exact scanText_open s.plain
  -- a slash or a mark is a single character
  all_goals
    obtain rfl : xs = [] := List.length_eq_zero_iff.mp (Nat.lt_one_iff.mp hlt)
    rw [scan]

theorem ends_of_isPrefix (h : Ends t cs) (hxs : xs <+: cs) : Ends t xs := by
  have hhead (c : Char) (hc : c ∈ xs.head?) : c ∈ cs.head? := by
    obtain ⟨ys, rfl⟩ := hxs
    simp [Option.mem_def.mp hc]
  constructor
  · exact fun ht c hc => h.word ht c (hhead c hc)
  · exact fun n ht c hc => h.number n ht c (hhead c hc)
  · exact fun ht c hc => h.operator ht c (hhead c hc)
  · exact fun ht c hc => h.slash ht c (hhead c hc)

/-- However much of the layout has been read, only what comes behind it counts. -/
theorem scan_take_gap {last : Bool} {gap : List Char} (h : Gap last gap)
    (hend : last = true → cs = []) (n : Nat) :
    scan d ((gap ++ cs).take n) = scan d (cs.take (n - gap.length)) := by
  rw [List.take_append]
  by_cases hn : n ≤ gap.length
  · rw [Nat.sub_eq_zero_of_le hn, List.take_zero, List.append_nil, scan,
      scan_gap h (List.take_prefix n gap)]
  · rw [List.take_of_length_le (by omega)]
    cases last with
    | false => exact scan_gap_append h
    | true =>
      -- the layout ends the text
      rw [hend rfl, List.take_nil, List.append_nil, scan, scan_gap h (List.prefix_refl gap)]

/-- The count after the first `n` characters is that of the tokens that are complete then. -/
theorem scan_take_written {pieces : List Piece} (h : Piece.Spaced pieces)
    (hchain : (Piece.tokens pieces).IsChain Adjacent) (n : Nat) :
    scan d ((Piece.written pieces).take n) = d + balance (Piece.complete n pieces) := by
  induction h generalizing d n with
  | nil => simp [Piece.written, Piece.complete, scan]
  | @cons x pieces layout separates rest ih =>
    have hends : Ends x.token (x.gap ++ Piece.written pieces) :=
      Laid.ends layout separates rest.spells hchain
    rw [Piece.written, Piece.complete]
    by_cases hn : x.token.chars.length ≤ n
    · obtain ⟨k, rfl⟩ := Nat.exists_eq_add_of_le hn
      have hk : x.token.chars.length + k - (x.token.chars.length + x.gap.length) =
          k - x.gap.length := by omega
      rw [List.take_length_add_append, scan_token (ends_of_isPrefix hends (List.take_prefix k _)),
        scan_take_gap layout rest.spells.eq_nil, ih hchain.tail, if_pos hn, hk, balance_cons]
      omega
    · rw [List.take_append_of_le_length (by omega), if_neg hn, balance_nil, add_zero]
      refine scan_token_part (List.take_prefix n _) ?_
      rw [List.length_take]
      omega

/-- All brackets are closed, and none before it is opened. -/
structure Balanced (ts : List Lexeme) : Prop where
  closed : balance ts = 0
  opened (us : List Lexeme) : us <+: ts → 0 ≤ balance us

theorem balanced_nil : Balanced [] := by
  refine ⟨rfl, fun us hus => ?_⟩
  rw [List.prefix_nil.mp hus]
  exact le_refl _

theorem Balanced.append (h : Balanced ts) (h' : Balanced us) : Balanced (ts ++ us) := by
  constructor
  · rw [balance_append, h.closed, h'.closed, add_zero]
  · intro vs hvs
    rcases prefix_append_cases hvs with hvs | ⟨ws, rfl, hws⟩
    · exact h.opened vs hvs
    · rw [balance_append, h.closed, zero_add]
      exact h'.opened ws hws

theorem Balanced.cons (h : Balanced ts) (ht : t.turn = 0) : Balanced (t :: ts) := by
  constructor
  · rw [balance_cons, ht, h.closed, add_zero]
  · intro us hus
    rcases List.prefix_cons_iff.mp hus with rfl | ⟨vs, rfl, hvs⟩
    · exact le_refl _
    · rw [balance_cons, ht, zero_add]
      exact h.opened vs hvs

theorem Balanced.snoc (h : Balanced ts) (ht : t.turn = 0) : Balanced (ts ++ [t]) :=
  h.append (balanced_nil.cons ht)

/-- Brackets around balanced tokens. -/
theorem Balanced.wrap (h : Balanced ts) {u : Lexeme} (ht : t.turn = 1) (hu : u.turn = -1) :
    Balanced (t :: (ts ++ [u])) := by
  constructor
  · simp [ht, hu, h.closed]
  · intro us hus
    rcases List.prefix_cons_iff.mp hus with rfl | ⟨vs, rfl, hvs⟩
    · exact le_refl _
    rw [balance_cons, ht]
    rcases prefix_append_cases hvs with hvs | ⟨ws, rfl, hws⟩
    · have := h.opened vs hvs
      omega
    · rcases List.prefix_cons_iff.mp hws with rfl | ⟨ys, rfl, hys⟩
      · simp [h.closed]
      · simp [List.prefix_nil.mp hys, h.closed, hu]

theorem balanced_parameters (params : List Identifier) : Balanced (parameterLexemes params) := by
  cases params with
  | nil => exact balanced_nil
  | cons x xs =>
    refine Balanced.cons ?_ rfl
    induction xs with
    | nil => exact balanced_nil
    | cons y ys ih => exact (ih.cons rfl).cons rfl

theorem balanced_functionLexemes (f : Identifier) (params : List Identifier) (h : Balanced ts) :
    Balanced (functionLexemes f params ts) := by
  have hparams := (balanced_parameters params).wrap (t := .mark .openParen) (u := .mark .closeParen)
    rfl rfl
  have hbody := h.wrap (t := .mark .openBrace) (u := .mark .closeBrace) rfl rfl
  simpa [functionLexemes] using ((hparams.append hbody).cons (t := .name f) rfl).cons
    (t := .keyword .function) rfl

theorem balanced_guardedLexemes (k : Keyword) (h : Balanced ts) (h' : Balanced us) :
    Balanced (guardedLexemes k ts us) := by
  have htest := h.wrap (t := .mark .openParen) (u := .mark .closeParen) rfl rfl
  have hbody := h'.wrap (t := .mark .openBrace) (u := .mark .closeBrace) rfl rfl
  simpa [guardedLexemes] using (htest.append hbody).cons (t := .keyword k) rfl

theorem balanced_of_composed {q : Clause} (h : Composed q ts) : Balanced ts := by
  induction h with
  | number | boolean | quoted | name => exact balanced_nil.cons rfl
  | function f params _ ih | definition f params _ _ ih => exact balanced_functionLexemes f params ih
  | parens _ ih => exact ih.wrap rfl rfl
  | call _ _ _ ihf iha => exact ihf.append (iha.wrap rfl rfl)
  | binary _ _ _ ihl ihr => exact ihl.append (ihr.cons rfl)
  | noArguments | noFurther | emptyBlock => exact balanced_nil
  | arguments _ _ ihe ihes => exact ihe.append ihes
  | further _ _ ihe ihes => exact (ihe.append ihes).cons rfl
  | expr _ ih => exact ih.snoc rfl
  | assign x _ ih => exact ((ih.snoc rfl).cons rfl).cons rfl
  | loop _ _ iht ihb | branch _ _ iht ihb => exact balanced_guardedLexemes _ iht ihb
  | retNothing => exact (balanced_nil.cons rfl).cons rfl
  | ret _ ih => exact (ih.snoc rfl).cons rfl
  | block _ _ ihs ihss => exact ihs.append ihss

end Brackets

namespace Prompt

/-- What may become of an entry: it waits for brackets, it is blank, or it is run. -/
inductive Fed (fuel : Nat) (q : Prompt) (entry : String) : Feed × Prompt → Prop
  | waits (opened : 0 < Brackets.depth entry) :
      Fed fuel q entry (.incomplete, { q with pending := entry })
  | blank (closed : ¬ 0 < Brackets.depth entry) (blank : Text.isAllBlank entry = true) :
      Fed fuel q entry (.done, { q with pending := "" })
  | ran {result : Except ScriptError Value} {s₁ s₂ : Session} (ok : Bool)
      (closed : ¬ 0 < Brackets.depth entry) (run : q.session.run fuel entry = (result, s₁))
      (print : s₁.print (outcome result) = (ok, s₂)) :
      Fed fuel q entry (if ok then .done else .unprintable, ⟨s₂, ""⟩)

theorem fed (fuel : Nat) (q : Prompt) (line : String) :
    Fed fuel q (q.pending ++ line ++ "\n") (q.feed fuel line) := by
  unfold feed
  dsimp only
  generalize hrun : q.session.run fuel (q.pending ++ line ++ "\n") = r
  obtain ⟨result, s₁⟩ := r
  split_ifs with hopen hblank
  · exact .waits hopen
  · exact .blank hopen hblank
  · split
    · next hprint => exact .ran true hopen hrun hprint
    · next hprint => exact .ran false hopen hrun hprint

/-- The prompt waits just as long as brackets are open. -/
theorem feed_incomplete_iff {fuel : Nat} {q : Prompt} {line : String} :
    (q.feed fuel line).1 = .incomplete ↔ 0 < Brackets.depth (q.pending ++ line ++ "\n") := by
  have h := q.fed fuel line
  generalize q.feed fuel line = r at h
  cases h with
  | waits hopen => simp [hopen]
  | blank hclosed _ => simp [hclosed]
  | ran ok hclosed => cases ok <;> simp [hclosed]

end Prompt

section Accepted
variable {p : Program} {source : String}

/-- The count of any part from the beginning is that of the tokens that are complete in it. -/
theorem Brackets.depth_part (s : Dissection p source) {part : String}
    (hpart : part.toList <+: source.toList) : depth part = balance (s.complete part.length) := by
  have htake : part.toList = source.toList.take part.length := by
    rw [← String.length_toList]
    exact List.prefix_iff_eq_take.mp hpart
  rw [depth, htake, s.text, scan_take_gap s.opening s.spaced.spells.eq_nil,
    scan_take_written s.spaced s.isChain, zero_add]
  rfl

theorem Brackets.depth_of_parse (h : Program.parse source = .ok p) : depth source = 0 := by
  obtain ⟨s⟩ := Dissection.exists_of_parse h
  rw [depth_part s (List.prefix_refl _), s.complete_all]
  exact (balanced_of_composed s.composed).closed

theorem Brackets.depth_nonneg_of_parse (h : Program.parse source = .ok p) {part : String}
    (hpart : part.toList <+: source.toList) : 0 ≤ depth part := by
  obtain ⟨s⟩ := Dissection.exists_of_parse h
  rw [depth_part s hpart]
  exact (balanced_of_composed s.composed).opened _ (s.complete_isPrefix _)

/-- In an accepted script all brackets are closed and none before it is opened, so that the prompt
does not wait for more once it has the whole script. This is because the prompt's count and the
grammar agree on what a text and a comment is: however the script is taken apart into its tokens, the
count of every part from the beginning is the number of opening brackets minus that of closing ones
among the tokens that are complete in this part. -/
theorem Brackets.accepted_are_closed (h : Program.parse source = .ok p) :
    depth source = 0 ∧
    (∀ part : String, part.toList <+: source.toList → 0 ≤ depth part) ∧
    (∀ (fuel : Nat) (q : Prompt) (line : String), q.pending ++ line = source →
      (q.feed fuel line).1 ≠ .incomplete) ∧
    Nonempty (Dissection p source) ∧
    ∀ (s : Dissection p source) (part : String), part.toList <+: source.toList →
      depth part = balance (s.complete part.length) := by
  refine ⟨depth_of_parse h, fun part hpart => depth_nonneg_of_parse h hpart, ?_,
    Dissection.exists_of_parse h, fun s part hpart => depth_part s hpart⟩
  rintro fuel q line rfl
  have hdepth := depth_of_parse (Program.parse_newline h)
  rw [Ne, Prompt.feed_incomplete_iff, hdepth]
  exact lt_irrefl 0

/-- Brackets and quotes in texts and comments, and a slash before a comment. -/
def Brackets.quarters : String :=
  "s = \"(/*\"; /*/ \" \x7d */ // \" (\nfunction f(a) \x7b return (a) / /* \x7d **/ 4; \x7d"

/-- The beginning of it, up to the opening bracket in the function. -/
def Brackets.quartersOpen : String :=
  "s = \"(/*\"; /*/ \" \x7d */ // \" (\nfunction f(a) \x7b return ("

/-- Of the seven brackets at the beginning, the two that belong to no text, comment or closed pair
are counted. -/
theorem Brackets.accepted_are_closed_quarters : ∃ p, ∃ s : Dissection p quarters,
    Program.parse quarters = .ok p ∧ depth quarters = 0 ∧
    (∀ part : String, part.toList <+: quarters.toList → 0 ≤ depth part) ∧
    (∀ (fuel : Nat) (q : Prompt) (line : String), q.pending ++ line = quarters →
      (q.feed fuel line).1 ≠ .incomplete) ∧
    quartersOpen.toList <+: quarters.toList ∧ depth quartersOpen = 2 ∧
    balance (s.complete quartersOpen.length) = 2 := by
  have hread : (Program.parse quarters).toOption.any (fun _ => true) = true := by decide +kernel
  obtain ⟨p, hp, -⟩ := Program.exists_ok_of_any hread
  obtain ⟨hclosed, hopened, hfeed, ⟨s⟩, hagree⟩ := accepted_are_closed hp
  have hpart : quartersOpen.toList <+: quarters.toList := by decide +kernel
  have htwo : depth quartersOpen = 2 := by decide +kernel
  exact ⟨p, s, hp, hclosed, hopened, hfeed, hpart, htwo, (hagree s _ hpart).symm.trans htwo⟩

end Accepted
end Scriptlet
