import Scriptlet.Proofs.Reader.Joining

/-! Scripts taken apart into their tokens, and the tokens that end within the first characters. -/
namespace Scriptlet

open Layout (Gap)

/-- A token with the layout behind it. -/
structure Piece where
  token : Lexeme
  gap : List Char

namespace Piece

variable {xs : List Piece} {n : Nat}

def tokens (xs : List Piece) : List Lexeme := xs.map token

def written : List Piece → List Char
  | [] => []
  | x :: xs => x.token.chars ++ (x.gap ++ written xs)

/-- The layout behind each token keeps it apart from the next one. -/
inductive Spaced : List Piece → Prop
  | nil : Spaced []
  | cons {x : Piece} {xs : List Piece} (layout : Gap (tokens xs).isEmpty x.gap)
      (separates : Separates x.token x.gap (tokens xs).head?) (rest : Spaced xs) : Spaced (x :: xs)

theorem Spaced.spells (h : Spaced xs) : Spells (tokens xs) (written xs) := by
  induction h with
  | nil => exact .nil
  | cons layout separates _ ih => exact .cons layout separates ih

theorem exists_spaced {ts : List Lexeme} {cs : List Char} (h : Spells ts cs) :
    ∃ xs, Spaced xs ∧ tokens xs = ts ∧ written xs = cs := by
  induction h with
  | nil => exact ⟨[], .nil, rfl, rfl⟩
  | @cons t ts gap cs hgap hseparates _ ih =>
    obtain ⟨xs, hspaced, rfl, rfl⟩ := ih
    exact ⟨⟨t, gap⟩ :: xs, .cons hgap hseparates hspaced, rfl, rfl⟩

/-- The tokens that end within the first `n` characters. -/
def complete : Nat → List Piece → List Lexeme
  | _, [] => []
  | n, x :: xs =>
    if x.token.chars.length ≤ n then
      x.token :: complete (n - (x.token.chars.length + x.gap.length)) xs
    else []

theorem complete_isPrefix (n : Nat) (xs : List Piece) : complete n xs <+: tokens xs := by
  induction xs generalizing n with
  | nil => exact List.nil_prefix
  | cons x xs ih =>
    rw [complete]
    split
    · exact List.cons_prefix_cons.mpr ⟨rfl, ih _⟩
    · exact List.nil_prefix

theorem complete_all (h : (written xs).length ≤ n) : complete n xs = tokens xs := by
  induction xs generalizing n with
  | nil => rfl
  | cons x xs ih =>
    simp only [written, List.length_append] at h
    rw [complete, if_pos (by omega), ih (by omega)]
    rfl

end Piece

/-- A script taken apart into its tokens, with the layout before, between and behind them. -/
structure Dissection (p : Program) (source : String) where
  lead : List Char
  pieces : List Piece
  opening : Gap (Piece.tokens pieces).isEmpty lead
  spaced : Piece.Spaced pieces
  text : source.toList = lead ++ Piece.written pieces
  composed : Composed (.block none p.body) (Piece.tokens pieces)

namespace Dissection

variable {p : Program} {source : String}

def tokens (s : Dissection p source) : List Lexeme := Piece.tokens s.pieces

/-- The tokens that end within the first `n` characters of the script. -/
def complete (s : Dissection p source) (n : Nat) : List Lexeme :=
  Piece.complete (n - s.lead.length) s.pieces

theorem complete_isPrefix (s : Dissection p source) (n : Nat) : s.complete n <+: s.tokens :=
  Piece.complete_isPrefix _ _

theorem isChain (s : Dissection p source) : s.tokens.IsChain Adjacent := by
  have hchain := s.composed.isChain .nil trivial
  rwa [List.append_nil] at hchain

theorem complete_all (s : Dissection p source) : s.complete source.length = s.tokens := by
  have hlength : source.length = s.lead.length + (Piece.written s.pieces).length := by
    rw [← String.length_toList, s.text, List.length_append]
  exact Piece.complete_all (by omega)

/-- Every accepted script consists of its tokens. -/
theorem exists_of_parse (h : Program.parse source = .ok p) : Nonempty (Dissection p source) := by
  obtain ⟨ts, hcomposed, lead, cs, hlead, htext, hspells⟩ := Program.parse_eq_ok_iff_spelled.mp h
  obtain ⟨pieces, hspaced, rfl, rfl⟩ := Piece.exists_spaced hspells
  exact ⟨⟨lead, pieces, hlead, hspaced, htext, hcomposed⟩⟩

end Dissection
end Scriptlet
