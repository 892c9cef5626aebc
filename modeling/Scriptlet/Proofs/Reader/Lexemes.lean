import Mathlib
import Scriptlet.Syntax.Basic
import Scriptlet.Reader.Token
import Scriptlet.Proofs.Reader.Readings

/-! Tokens as they are written, and texts made of tokens with layout between them. -/
namespace Scriptlet

open Token (isNameChar isNameStart)
open Layout (Gap Skips isBlank)

/-- What variables, functions and parameters can be called. -/
structure Identifier where
  text : String
  start : text.toList.head?.any isNameStart = true
  chars : text.toList.all isNameChar = true
  free : text ∉ Token.keywords

/-- A text that can stand between quotes. -/
structure Quotable where
  text : String
  plain : '"' ∉ text.toList

/-- A number as it is written. The sign is a minus if `minus` says so. -/
structure Literal where
  minus : Option Bool
  whole : List Char
  fraction : Option (List Char)
  digits : (whole ++ fraction.getD []).all Char.isDigit = true
  nonempty : whole ++ fraction.getD [] ≠ []

namespace Literal

def signChars (n : Literal) : List Char :=
  match n.minus with
  | none => []
  | some false => ['+']
  | some true => ['-']

def unsignedChars (n : Literal) : List Char := n.whole ++ n.fraction.elim [] ('.' :: ·)

def chars (n : Literal) : List Char := n.signChars ++ n.unsignedChars

def decimal (n : Literal) : Decimal :=
  ⟨n.minus == some true, Decimal.digitsValue (n.whole ++ n.fraction.getD []),
    -(n.fraction.getD []).length⟩

def value (n : Literal) : Number := .ofDecimal n.decimal

end Literal

inductive Keyword where
  | loop | branch | ret | function
deriving DecidableEq

def Keyword.text : Keyword → String
  | loop => "while"
  | branch => "if"
  | ret => "return"
  | function => "function"

inductive Mark where
  | assign | comma | semicolon | openParen | closeParen | openBrace | closeBrace
deriving DecidableEq

def Mark.char : Mark → Char
  | assign => '='
  | comma => ','
  | semicolon => ';'
  | openParen => '('
  | closeParen => ')'
  | openBrace => '\x7b'
  | closeBrace => '\x7d'

inductive Lexeme where
  | keyword (k : Keyword)
  | boolean (b : Bool)
  | name (x : Identifier)
  | number (n : Literal)
  | quoted (s : Quotable)
  | operator (op : BinaryOp)
  | mark (m : Mark)

namespace Lexeme

def chars : Lexeme → List Char
  | keyword k => k.text.toList
  | boolean b => (if b then "true" else "false").toList
  | name x => x.text.toList
  | number n => n.chars
  | quoted s => '"' :: (s.text.toList ++ ['"'])
  | operator op => op.symbol.toList
  | mark m => [m.char]

def endsInWord (t : Lexeme) : Bool := t.chars.getLast?.any isNameChar

def startsWord (t : Lexeme) : Bool := t.chars.head?.any isNameChar

/-- Whether an expression can begin with the token. -/
def beginsExpr : Lexeme → Bool
  | keyword .function | boolean _ | name _ | number _ | quoted _ | mark .openParen => true
  | _ => false

/-- Operators and marks. They are what can follow an expression. -/
def isSymbol : Lexeme → Bool
  | operator _ | mark _ => true
  | _ => false

/-- Whether the token begins like an operator. The sign of a number does. -/
def beginsOperator : Lexeme → Bool
  | operator _ => true
  | number n => n.minus.isSome
  | _ => false

/-- What can be said of the first character of a token. -/
def Begins (c : Char) : Lexeme → Prop
  | keyword _ | boolean _ | name _ => isNameStart c = true
  | number _ => c.isDigit = true ∨ c = '+' ∨ c = '-' ∨ c = '.'
  | quoted _ => c = '"'
  | operator op => c ∈ op.symbol.toList.head?
  | mark m => c = m.char

end Lexeme

/-- What stands between a token and the next one keeps them apart: words do not run together, and a
slash does not become the beginning of a comment. -/
structure Separates (t : Lexeme) (gap : List Char) (next : Option Lexeme) : Prop where
  words : t.endsInWord = true → next.any Lexeme.startsWord = true → gap ≠ []
  slash : t = .operator .div → gap.head?.all isBlank = true

/-- The text begins with the first token, and layout follows each token. -/
inductive Spells : List Lexeme → List Char → Prop
  | nil : Spells [] []
  | cons {t : Lexeme} {ts : List Lexeme} {gap cs : List Char} : Gap ts.isEmpty gap →
      Separates t gap ts.head? → Spells ts cs → Spells (t :: ts) (t.chars ++ (gap ++ cs))

/-- The text consists of the tokens, with layout before, between and after them. -/
def Spelled (ts : List Lexeme) (source : List Char) : Prop :=
  ∃ gap cs, Gap ts.isEmpty gap ∧ source = gap ++ cs ∧ Spells ts cs

namespace Token

variable {c : Char}

theorem isNameStart_iff : isNameStart c = true ↔ c.isAlpha = true ∨ c = '_' := by
  simp [isNameStart]

theorem isDigit_of_start (h : isNameStart c = true) : c.isDigit = false := by
  rcases isNameStart_iff.mp h with h | rfl
  · grind [Char.isAlpha, Char.isUpper, Char.isLower, Char.isDigit]
  · rfl

end Token

namespace Literal

theorem unsigned_begins (n : Literal) :
    ∃ c cs, n.unsignedChars = c :: cs ∧ (c.isDigit = true ∨ c = '.') := by
  obtain ⟨minus, whole, fraction, digits, nonempty⟩ := n
  match whole, fraction with
  | c :: _, _ => exact ⟨c, _, rfl, .inl (List.all_eq_true.mp digits c (by simp))⟩
  | [], some _ => exact ⟨_, _, rfl, .inr rfl⟩
  | [], none => exact absurd rfl nonempty

theorem begins (n : Literal) : ∃ c cs, n.chars = c :: cs ∧ (Lexeme.number n).Begins c := by
  obtain ⟨c, cs, hcs, hc⟩ := n.unsigned_begins
  match hm : n.minus with
  | none => exact ⟨c, cs, by simp [chars, signChars, hm, hcs], hc.imp_right fun h => .inr (.inr h)⟩
  | some false => exact ⟨'+', c :: cs, by simp [chars, signChars, hm, hcs], .inr (.inl rfl)⟩
  | some true => exact ⟨'-', c :: cs, by simp [chars, signChars, hm, hcs], .inr (.inr (.inl rfl))⟩

end Literal

namespace Lexeme

variable {t : Lexeme} {c : Char}

theorem begins (t : Lexeme) : ∃ c cs, t.chars = c :: cs ∧ t.Begins c := by
  cases t with
  | keyword k => cases k <;> exact ⟨_, _, rfl, rfl⟩
  | boolean b => cases b <;> exact ⟨_, _, rfl, rfl⟩
  | name x =>
    have hx := x.start
    cases h : x.text.toList with
    | nil => simp [h] at hx
    | cons c cs => exact ⟨c, cs, h, by simpa [h, Begins] using hx⟩
  | number n => exact n.begins
  | quoted s => exact ⟨_, _, rfl, rfl⟩
  | operator op => cases op <;> exact ⟨_, _, rfl, rfl⟩
  | mark m => exact ⟨m.char, [], rfl, rfl⟩

/-- What holds of the first characters of all operators. -/
theorem Begins.of_symbol {P : Char → Bool} {op : BinaryOp} (h : (operator op).Begins c)
    (hP : ∀ op : BinaryOp, op.symbol.toList.head?.all P = true) : P c = true := by
  have hop : op.symbol.toList.head? = some c := h
  simpa [hop] using hP op

theorem Begins.not_blank (h : t.Begins c) : isBlank c = false := by
  cases t with
  | operator op => simpa using h.of_symbol (P := fun c => !isBlank c) (by rintro ⟨⟩ <;> rfl)
  | mark m =>
    obtain rfl : c = m.char := h
    cases m <;> rfl
  | _ =>
    by_contra hb
    obtain rfl | rfl | rfl | rfl := Layout.isBlank_iff.mp (by simpa using hb) <;>
      simp [Begins, isNameStart] at h

theorem Begins.slash (h : t.Begins '/') : t = .operator .div := by
  cases t with
  | operator op => cases op <;> first | rfl | cases h
  | mark m => cases m <;> simp [Begins, Mark.char] at h
  | _ => simp [Begins, isNameStart] at h

/-- Only a number begins with a digit or a point. -/
theorem Begins.digit (h : t.Begins c) (ht : ∀ n, t ≠ .number n) : c.isDigit = false ∧ c ≠ '.' := by
  cases t with
  | number n => exact absurd rfl (ht n)
  | operator op =>
    simpa using h.of_symbol (P := fun c => !c.isDigit && c != '.') (by rintro ⟨⟩ <;> rfl)
  | mark m =>
    obtain rfl : c = m.char := h
    cases m <;> decide
  | quoted s =>
    obtain rfl : c = '"' := h
    exact ⟨rfl, by decide⟩
  | _ => exact ⟨Token.isDigit_of_start h, by rintro rfl; cases h⟩

/-- An expression does not begin like an operator that is no sign. -/
theorem Begins.expr (h : t.Begins c) (ht : t.beginsExpr = true) : c ≠ '=' ∧ c ≠ '/' ∧ c ≠ '*' := by
  cases t with
  | operator op => cases ht
  | mark m =>
    obtain rfl : m = .openParen := by cases m <;> first | rfl | cases ht
    obtain rfl : c = '(' := h
    decide
  | _ => refine ⟨?_, ?_, ?_⟩ <;> rintro rfl <;> simp [Begins, isNameStart] at h

end Lexeme

/-- Which tokens follow one another in scripts, as far as reading them depends on it. -/
def Adjacent (t u : Lexeme) : Prop :=
  match t with
  | .operator _ | .mark .assign => u.beginsExpr = true
  | .number _ => u.isSymbol = true
  | _ => True

/-- The text begins with the tokens, which follow one another as they do in scripts. -/
structure Laid (ts : List Lexeme) (cs : List Char) : Prop where
  spells : Spells ts cs
  chain : ts.IsChain Adjacent

/-- The token ends before `tail`. -/
structure Ends (t : Lexeme) (tail : List Char) : Prop where
  word : t.endsInWord = true → ∀ c ∈ tail.head?, isNameChar c = false
  number : ∀ n, t = .number n → ∀ c ∈ tail.head?, c.isDigit = false ∧ c ≠ '.'
  operator : (∃ op, t = .operator op) ∨ t = .mark .assign → ∀ c ∈ tail.head?, c ≠ '='
  slash : t = .operator .div → ∀ c ∈ tail.head?, c ≠ '/' ∧ c ≠ '*'

theorem Layout.Gap.head {last : Bool} {gap : List Char} {c : Char} (h : Gap last gap)
    (hc : c ∈ gap.head?) : isBlank c = true ∨ c = '/' := by
  cases h with
  | nil => cases hc
  | blank hb _ =>
    obtain rfl := Option.some.inj hc
    exact .inl hb
  | _ =>
    obtain rfl := Option.some.inj hc
    exact .inr rfl

theorem Spells.eq_nil {ts : List Lexeme} {cs : List Char} (h : Spells ts cs)
    (hts : ts.isEmpty = true) : cs = [] := by
  cases h with
  | nil => rfl
  | cons _ _ _ => cases hts

theorem Spells.length_le {ts : List Lexeme} {cs : List Char} (h : Spells ts cs) :
    ts.length ≤ cs.length := by
  induction h with
  | nil => exact Nat.le_refl 0
  | @cons t ts gap cs _ _ _ ih =>
    obtain ⟨c, ds, hd, -⟩ := t.begins
    simp only [List.length_cons, List.length_append, hd]
    omega

theorem Spells.head {ts : List Lexeme} {cs : List Char} {c : Char} (h : Spells ts cs)
    (hc : c ∈ cs.head?) : ∃ u ∈ ts.head?, c ∈ u.chars.head? ∧ u.Begins c := by
  cases h with
  | nil => cases hc
  | @cons t ts gap cs =>
    obtain ⟨d, ds, hd, hb⟩ := t.begins
    obtain rfl : c = d := by simpa [hd, eq_comm] using hc
    exact ⟨t, rfl, by simp [hd], hb⟩

/-- The character behind a token belongs to layout or to the next token. -/
theorem Spells.head_append {ts : List Lexeme} {gap cs : List Char} {c : Char}
    (h : Spells ts cs) (hg : Gap ts.isEmpty gap) (hc : c ∈ (gap ++ cs).head?) :
    c ∈ gap.head? ∧ (isBlank c = true ∨ c = '/') ∨
      gap = [] ∧ ∃ u ∈ ts.head?, c ∈ u.chars.head? ∧ u.Begins c := by
  cases gap with
  | nil => exact .inr ⟨rfl, h.head hc⟩
  | cons d gap => exact .inl ⟨hc, hg.head hc⟩

theorem Layout.not_token {c : Char} (h : isBlank c = true ∨ c = '/') :
    isNameChar c = false ∧ (c.isDigit = false ∧ c ≠ '.') ∧ c ≠ '=' := by
  obtain (rfl | rfl | rfl | rfl) | rfl := h.imp_left Layout.isBlank_iff.mp <;> decide

namespace Laid

variable {t : Lexeme} {ts : List Lexeme} {gap cs : List Char}

theorem adjacent (h : (t :: ts).IsChain Adjacent) {u : Lexeme} (hu : u ∈ ts.head?) :
    Adjacent t u := by
  cases ts with
  | nil => cases hu
  | cons v ts =>
    obtain rfl := Option.some.inj hu
    exact (List.isChain_cons_cons.mp h).1

theorem ends (hg : Gap ts.isEmpty gap) (hs : Separates t gap ts.head?) (h : Spells ts cs)
    (hchain : (t :: ts).IsChain Adjacent) : Ends t (gap ++ cs) := by
  constructor
  · intro ht c hc
    obtain ⟨-, hb⟩ | ⟨hnil, u, hu, hcu, -⟩ := h.head_append hg hc
    · exact (Layout.not_token hb).1
    · by_contra hname
      refine hs.words ht ?_ hnil
      rw [Option.mem_def] at hu hcu
      simpa [hu, Lexeme.startsWord, hcu] using hname
  · rintro n rfl c hc
    obtain ⟨-, hb⟩ | ⟨-, u, hu, -, hb⟩ := h.head_append hg hc
    · exact (Layout.not_token hb).2.1
    · have hsymbol : u.isSymbol = true := adjacent hchain hu
      exact hb.digit fun n hn => by simp [hn, Lexeme.isSymbol] at hsymbol
  · intro ht c hc
    obtain ⟨-, hb⟩ | ⟨-, u, hu, -, hb⟩ := h.head_append hg hc
    · exact (Layout.not_token hb).2.2
    · refine (hb.expr ?_).1
      rcases ht with ⟨op, rfl⟩ | rfl <;> exact adjacent hchain hu
  · rintro rfl c hc
    obtain ⟨hgap, -⟩ | ⟨-, u, hu, -, hb⟩ := h.head_append hg hc
    · have hblank : isBlank c = true := by
        have hall := hs.slash rfl
        rw [Option.mem_def] at hgap
        simpa [hgap] using hall
      obtain rfl | rfl | rfl | rfl := Layout.isBlank_iff.mp hblank <;> decide
    · exact (hb.expr (adjacent hchain hu)).2

/-- No layout stands before the first token. -/
theorem skips (h : Laid ts cs) : Skips cs cs := by
  obtain ⟨hspells, hchain⟩ := h
  cases hspells with
  | nil => exact Layout.skips_nil
  | @cons t ts gap cs hg hs hcs =>
    obtain ⟨c, ds, hd, hb⟩ := t.begins
    rw [hd, List.cons_append]
    by_cases hc : c = '/'
    · subst hc
      obtain rfl := hb.slash
      obtain rfl : ds = [] := (List.cons.inj hd).2.symm
      exact Layout.skips_slash ((ends hg hs hcs hchain).slash rfl)
    · exact Layout.skips_cons hb.not_blank hc

/-- The first token, and the text from the next token on. -/
theorem uncons (h : Laid (t :: ts) cs) :
    ∃ tail rest, cs = t.chars ++ tail ∧ Ends t tail ∧ Skips tail rest ∧ Laid ts rest := by
  obtain ⟨hspells, hchain⟩ := h
  cases hspells with
  | @cons _ _ gap rest hg hs hrest =>
    have hlaid : Laid ts rest := ⟨hrest, hchain.tail⟩
    exact ⟨gap ++ rest, rest, rfl, ends hg hs hrest hchain, hg.skips hlaid.skips hrest.eq_nil, hlaid⟩

end Laid
end Scriptlet
