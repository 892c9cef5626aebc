import Scriptlet.Json.Printer
import Scriptlet.Json.Reader
import Scriptlet.Proofs.Reader.Scanning

/-! Numbers and strings as they are written in JSON. A number is read from its own text alone, and a
string is read back as it was. -/
namespace Scriptlet

/-- At least one digit. -/
structure Digits where
  chars : List Char
  digits : ∀ c ∈ chars, c.isDigit = true
  nonempty : chars ≠ []

namespace Digits

/-- The digits of a natural number. -/
def ofNat (n : Nat) : Digits :=
  ⟨(toString n).toList, by
    intro c hc
    rw [Nat.toString_eq_repr, Nat.toList_repr] at hc
    exact Nat.isDigit_of_mem_toDigits (by decide) (by decide) hc, by simp⟩

def zero : Digits := ⟨['0'], by simp, by simp⟩

/-- More digits before or behind. -/
def surround (before : Nat) (d : Digits) (behind : Nat) : Digits where
  chars := List.replicate before '0' ++ d.chars ++ List.replicate behind '0'
  digits := by
    intro c hc
    simp only [List.mem_append, List.mem_replicate] at hc
    rcases hc with (⟨-, rfl⟩ | hc) | ⟨-, rfl⟩
    · rfl
    · exact d.digits c hc
    · rfl
  nonempty := by simp [d.nonempty]

def take (d : Digits) (k : Nat) (h : 0 < k) : Digits where
  chars := d.chars.take k
  digits c hc := d.digits c (List.mem_of_mem_take hc)
  nonempty := by simp [d.nonempty, Nat.ne_of_gt h]

def drop (d : Digits) (k : Nat) (h : k < d.chars.length) : Digits where
  chars := d.chars.drop k
  digits c hc := d.digits c (List.mem_of_mem_drop hc)
  nonempty := by simpa using h

theorem begins (d : Digits) : ∃ c cs, d.chars = c :: cs ∧ c.isDigit = true := by
  obtain ⟨c, cs, hcs⟩ := List.exists_cons_of_ne_nil d.nonempty
  exact ⟨c, cs, hcs, d.digits c (by simp [hcs])⟩

end Digits

namespace Json

/-- What may stand behind a value: nothing, a comma or the end of the line. -/
def Behind (rest : List Char) : Prop := ∀ c ∈ rest.head?, c = ',' ∨ c = '\n'

/-- A numeral without sign: digits, digits behind a point, and the sign and digits of a power of
ten. -/
structure Numeral where
  whole : Digits
  fraction : Option Digits
  power : Option (Bool × Digits)

namespace Numeral

def powerText (n : Numeral) : List Char :=
  match n.power with
  | none => []
  | some (negative, ds) => 'e' :: (if negative then '-' else '+') :: ds.chars

def fractionText (n : Numeral) : List Char :=
  match n.fraction with
  | none => []
  | some ds => '.' :: ds.chars

def text (n : Numeral) : List Char := n.whole.chars ++ (n.fractionText ++ n.powerText)

/-- The digits behind the point. -/
def fractionDigits (n : Numeral) : List Char := (n.fraction.map Digits.chars).getD []

variable {n : Numeral} {rest : List Char}

theorem exponent?_powerText (h : Behind rest) (k : Nat) :
    Decimal.exponent? k (n.powerText ++ rest) =
      some ((n.power.map fun (negative, ds) => Decimal.power k negative ds.chars).getD 0, rest) := by
  unfold powerText
  cases n.power with
  | none =>
    cases rest with
    | nil => rfl
    | cons c rest =>
      have hc : c ≠ 'e' ∧ c ≠ 'E' := by
        rcases h c rfl with rfl | rfl <;> decide
      simp [Decimal.exponent?, hc]
  | some p =>
    obtain ⟨negative, ds⟩ := p
    have htake : (ds.chars ++ rest).takeWhile Char.isDigit = ds.chars := by
      apply takeWhile_append ds.digits
      intro c hc
      rcases h c hc with rfl | rfl <;> rfl
    cases negative <;> simp [Decimal.exponent?, Decimal.signed, htake, ds.nonempty]

theorem powerText_head (h : Behind rest) :
    ∀ c ∈ (n.powerText ++ rest).head?, c.isDigit = false ∧ c ≠ '.' := by
  intro c hc
  unfold powerText at hc
  cases hp : n.power with
  | none =>
    rw [hp] at hc
    rcases h c hc with rfl | rfl <;> decide
  | some p =>
    rw [hp] at hc
    obtain rfl : 'e' = c := Option.some.inj hc
    decide

theorem fractionText_head (h : Behind rest) :
    ∀ c ∈ (n.fractionText ++ (n.powerText ++ rest)).head?, c.isDigit = false := by
  intro c hc
  unfold fractionText at hc
  cases hf : n.fraction with
  | none =>
    rw [hf] at hc
    exact (powerText_head h c hc).1
  | some ds =>
    rw [hf] at hc
    obtain rfl : '.' = c := Option.some.inj hc
    rfl

/-- A numeral is read up to its end, whatever stands behind it. -/
theorem exists_unsigned (n : Numeral) : ∃ r : Option Decimal, ∀ rest, Behind rest →
    unsigned (n.text ++ rest) = r.map fun d => (d, rest) := by
  let filled := fill 0 n.whole.chars
  let refilled := fill filled.1 n.fractionDigits
  let power := (n.power.map fun (negative, ds) =>
    Decimal.power (n.whole.chars.length + n.fractionDigits.length) negative ds.chars).getD 0
  refine ⟨if n.whole.chars.head? = some '0' ∧ n.whole.chars.length ≠ 1 then none
    else some ⟨false, refilled.1, power + filled.2.length -
      (n.fractionDigits.length - refilled.2.length)⟩, fun rest h => ?_⟩
  have htext : n.text ++ rest = n.whole.chars ++ (n.fractionText ++ (n.powerText ++ rest)) := by
    simp [text]
  have htake : (n.text ++ rest).takeWhile Char.isDigit = n.whole.chars := by
    rw [htext]
    exact takeWhile_append n.whole.digits (fractionText_head h)
  have hdrop : (n.text ++ rest).drop n.whole.chars.length =
      n.fractionText ++ (n.powerText ++ rest) := by
    rw [htext, List.drop_left]
  have hpower := n.exponent?_powerText h (n.whole.chars.length + n.fractionDigits.length)
  unfold unsigned
  simp only [htake, hdrop]
  by_cases hzero : n.whole.chars.head? = some '0' ∧ n.whole.chars.length ≠ 1
  · simp [hzero]
  · have hnonzero : ¬ (n.whole.chars.isEmpty || decide (n.whole.chars.head? = some '0') &&
        decide (n.whole.chars.length ≠ 1)) = true := by
      simpa [n.whole.nonempty] using hzero
    rw [if_neg hnonzero, if_neg hzero]
    cases hf : n.fraction with
    | none =>
      simp only [filled, refilled, power, fractionText, fractionDigits, hf, List.nil_append,
        Option.map_none, Option.getD_none, List.length_nil, Nat.add_zero] at hpower ⊢
      split
      · next cs heq =>
        have hpoint := (powerText_head h '.' (by rw [heq]; rfl)).2
        exact absurd rfl hpoint
      · simp [hpower]
    | some ds =>
      have htake : (ds.chars ++ (n.powerText ++ rest)).takeWhile Char.isDigit = ds.chars :=
        takeWhile_append ds.digits fun c hc => (powerText_head h c hc).1
      simp only [fractionDigits, hf, Option.map_some, Option.getD_some] at hpower
      simp [filled, refilled, power, fractionText, fractionDigits, hf, htake, ds.nonempty, hpower]

theorem unsigned_text (n : Numeral) {rest : List Char} (h : Behind rest) :
    unsigned (n.text ++ rest) = (unsigned n.text).map fun r => (r.1, rest) := by
  obtain ⟨r, hr⟩ := n.exists_unsigned
  have halone : unsigned n.text = r.map fun d => (d, []) := by
    have hnil := hr [] (fun _ hc => nomatch hc)
    rwa [List.append_nil] at hnil
  rw [hr rest h, halone, Option.map_map]
  rfl

theorem begins (n : Numeral) : ∃ c cs, n.text = c :: cs ∧ c.isDigit = true := by
  obtain ⟨c, cs, hcs, hc⟩ := n.whole.begins
  exact ⟨c, _, by rw [text, hcs, List.cons_append], hc⟩

end Numeral

theorem exists_positional (d : Decimal) :
    ∃ n : Numeral, (d.positional true).toList = n.text := by
  let ds : Digits := .ofNat d.coefficient
  have hds : d.digits.toList = ds.chars := rfl
  have hlength : d.digits.length = ds.chars.length := by rw [← hds, String.length_toList]
  unfold Decimal.positional
  by_cases hexponent : 0 ≤ d.exponent
  · refine ⟨⟨ds.surround 0 d.exponent.toNat, some .zero, none⟩, ?_⟩
    simp [hexponent, hds, Decimal.zeros, Numeral.text, Numeral.fractionText, Numeral.powerText,
      Digits.zero, Digits.surround]
  · by_cases hplace : 0 ≤ d.leadingPlace
    · have hpos : 0 < (d.leadingPlace + 1).toNat := by omega
      have hlt : (d.leadingPlace + 1).toNat < ds.chars.length := by
        have hleading : d.leadingPlace = ds.chars.length + d.exponent - 1 := by
          rw [Decimal.leadingPlace, hlength]
        omega
      refine ⟨⟨ds.take _ hpos, some (ds.drop _ hlt), none⟩, ?_⟩
      simp [hexponent, hplace, hds, Numeral.text, Numeral.fractionText, Numeral.powerText,
        Digits.take, Digits.drop]
    · refine ⟨⟨.zero, some (ds.surround (-d.leadingPlace - 1).toNat 0), none⟩, ?_⟩
      simp [hexponent, hplace, hds, Decimal.zeros, Numeral.text, Numeral.fractionText,
        Numeral.powerText, Digits.zero, Digits.surround]

theorem exists_scientific (d : Decimal) : ∃ n : Numeral, d.scientific.toList = n.text := by
  let ds : Digits := .ofNat d.coefficient
  have hds : d.digits.toList = ds.chars := rfl
  let power : Bool × Digits := (decide (d.leadingPlace < 0), .ofNat d.leadingPlace.natAbs)
  have hpower : ((if 0 ≤ d.leadingPlace then "e+" else "e-") ++
      toString d.leadingPlace.natAbs).toList =
      'e' :: (if power.1 then '-' else '+') :: power.2.chars := by
    by_cases hplace : 0 ≤ d.leadingPlace
    · simp [hplace, power, Digits.ofNat]
    · simp [hplace, power, Digits.ofNat]
  unfold Decimal.scientific
  dsimp only
  by_cases hlength : ds.chars.length ≤ 1
  · refine ⟨⟨ds.take 1 (by decide), none, some power⟩, ?_⟩
    rw [String.toList_append, hpower]
    simp [hds, hlength, Numeral.text, Numeral.fractionText, Numeral.powerText, Digits.take]
  · refine ⟨⟨ds.take 1 (by decide), some (ds.drop 1 (by omega)), some power⟩, ?_⟩
    rw [String.toList_append, hpower]
    simp [hds, hlength, Numeral.text, Numeral.fractionText, Numeral.powerText, Digits.take,
      Digits.drop]

/-- The text of a decimal is a numeral, perhaps with a minus. -/
theorem exists_numeral (d : Decimal) : ∃ n : Numeral,
    (d.render numberLayout).toList = (if d.negative then ['-'] else []) ++ n.text := by
  have hsign : d.sign.toList = if d.negative then ['-'] else [] := by
    unfold Decimal.sign
    split <;> rfl
  suffices hbody : ∃ n : Numeral, (if numberLayout.positional d.leadingPlace then
      d.positional numberLayout.keepPoint else d.scientific).toList = n.text by
    obtain ⟨n, hn⟩ := hbody
    refine ⟨n, ?_⟩
    unfold Decimal.render
    rw [String.toList_append, hsign, hn]
  split
  · exact exists_positional d
  · exact exists_scientific d

theorem scalar_digit {c : Char} (hc : c.isDigit = true) (limit : Nat) (cs : List Char) :
    scalar limit (c :: cs) = (unsigned (c :: cs)).map fun r => (number r.1, r.2) := by
  unfold scalar
  split <;> first | rfl | (rename_i heq; obtain ⟨rfl, -⟩ := List.cons.inj heq; cases hc)

/-- A number is read from its own text alone. -/
theorem scalar_render (d : Decimal) {rest : List Char} (h : Behind rest) (limit : Nat) :
    scalar limit ((d.render numberLayout).toList ++ rest) =
      (scalar 0 (d.render numberLayout).toList).map fun r => (r.1, rest) := by
  obtain ⟨n, hn⟩ := exists_numeral d
  obtain ⟨c, cs, hcs, hc⟩ := n.begins
  have hunsigned := n.unsigned_text h
  rw [hn]
  by_cases hminus : d.negative = true
  · simp [hminus, scalar, hunsigned, Function.comp_def]
  · simp only [hminus, Bool.false_eq_true, if_false, List.nil_append]
    rw [hcs, List.cons_append, scalar_digit hc, scalar_digit hc, ← List.cons_append, ← hcs, hunsigned]
    simp [Function.comp_def]

/-- The characters of a string between its quotes. -/
def escaped (cs : List Char) : List Char := cs.flatMap fun c => (escapeChar c).toList

theorem toList_quoted (s : String) : (quoted s).toList = '"' :: (escaped s.toList ++ ['"']) := by
  simp [quoted, escaped, List.flatMap_map]

theorem escapeChar_of_plain {c : Char} (h : 0x20 ≤ c.toNat) (hquote : c ≠ '"')
    (hslash : c ≠ '\\') : (escapeChar c).toList = [c] := by
  unfold escapeChar
  split
  · exact absurd rfl hquote
  · exact absurd rfl hslash
  iterate 5 exact absurd h (by decide)
  have hlow : ¬ c.toNat < 0x10 := by omega
  have hcontrol : ¬ c.toNat < 0x20 := by omega
  rw [if_neg hlow, if_neg hcontrol, Char.toString_eq_singleton, String.toList_singleton]

/-- Every character is read back from the way it is written. -/
theorem stringRest_escapeChar (c : Char) (limit : Nat) (done cs : List Char) :
    stringRest (limit + 1) done ((escapeChar c).toList ++ cs) = stringRest limit (c :: done) cs := by
  by_cases hcontrol : c.toNat < 0x20
  · -- there are few controls, and each has its own spelling
    obtain ⟨n, hn⟩ : ∃ n, c.toNat = n := ⟨_, rfl⟩
    have hc : c = Char.ofNat n := by rw [← hn, Char.ofNat_toNat]
    rw [hn] at hcontrol
    subst hc
    interval_cases n <;> rfl
  · by_cases hquote : c = '"'
    · subst hquote
      rfl
    · by_cases hslash : c = '\\'
      · subst hslash
        rfl
      · rw [escapeChar_of_plain (Nat.le_of_not_lt hcontrol) hquote hslash, List.singleton_append, stringRest]
        · simp [hcontrol, hslash]
        · exact hquote
        all_goals simp [hslash]

/-- A string is read back as it was. -/
theorem stringRest_escaped (s : List Char) {limit : Nat} (done rest : List Char)
    (h : s.length < limit) :
    stringRest limit done (escaped s ++ '"' :: rest) =
      some (String.ofList (done.reverse ++ s), rest) := by
  induction s generalizing limit done with
  | nil =>
    obtain ⟨k, rfl⟩ : ∃ k, limit = k + 1 := ⟨limit - 1, by simp at h; omega⟩
    simp [escaped, stringRest]
  | cons c s ih =>
    rw [List.length_cons] at h
    obtain ⟨k, rfl⟩ : ∃ k, limit = k + 1 := ⟨limit - 1, by omega⟩
    have hrest := ih (c :: done) (Nat.lt_of_succ_lt_succ h)
    rw [List.reverse_cons, List.append_assoc, List.singleton_append] at hrest
    rw [escaped, List.flatMap_cons, List.append_assoc, stringRest_escapeChar]
    exact hrest

theorem escapeChar_ne_nil (c : Char) : (escapeChar c).toList ≠ [] := by
  unfold escapeChar
  split <;> try simp
  split_ifs <;> simp

theorem length_le_escaped (s : List Char) : s.length ≤ (escaped s).length := by
  induction s with
  | nil => exact Nat.le_refl 0
  | cons c s ih =>
    have hc := List.length_pos_iff.mpr (escapeChar_ne_nil c)
    rw [escaped, List.flatMap_cons, List.length_append, List.length_cons]
    have htail : s.length ≤ (s.flatMap fun c => (escapeChar c).toList).length := ih
    omega

end Json
end Scriptlet
