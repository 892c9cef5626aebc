import Scriptlet.Proofs.Reader.Scanning

/-! The numerals of scripts, read like any other text of a number. -/
namespace Scriptlet

namespace Number

/-- A sign bit above a number is set by exclusive or. -/
theorem xor_sign {k : Nat} (h : k < 2 ^ 63) : k ^^^ 2 ^ 63 = 2 ^ 63 + k := by
  have hor : 2 ^ 63 + k = 2 ^ 63 ||| k := by
    simpa using Nat.two_pow_add_eq_or_of_lt h 1
  rw [hor]
  refine Nat.eq_of_testBit_eq fun i => ?_
  rw [Nat.testBit_xor, Nat.testBit_or, Nat.testBit_two_pow]
  by_cases hi : 63 = i
  · subst hi
    simp [Nat.testBit_lt_two_pow h]
  · simp [hi]

theorem neg_ofMagnitude (m : Nat) : neg (ofMagnitude false m) = ofMagnitude true m := by
  have hlt : min m infinityBits < 2 ^ 63 := by
    have : infinityBits < 2 ^ 63 := by decide
    omega
  unfold neg ofMagnitude
  congr 1
  apply UInt64.toNat_inj.mp
  rw [UInt64.toNat_xor, UInt64.toNat_ofNat', UInt64.toNat_ofNat']
  simp only [Bool.false_eq_true, if_false, if_true, Nat.zero_add, Nat.one_shiftLeft]
  rw [Nat.mod_eq_of_lt (by omega), Nat.mod_eq_of_lt (by omega)]
  exact xor_sign hlt

/-- A numeral with a minus is the number without it, with the other sign. -/
theorem neg_ofDecimal (d : Decimal) :
    neg (ofDecimal { d with negative := false }) = ofDecimal { d with negative := true } := by
  unfold ofDecimal ofRatio zero
  dsimp only
  split_ifs <;> exact neg_ofMagnitude _

end Number

namespace Literal

/-- The digits of a numeral are read up to what follows, which tells the power of ten. -/
theorem ofUnsigned?_append (l : Literal) {tail : List Char} {e : Int}
    (hhead : ∀ c ∈ tail.head?, c.isDigit = false ∧ c ≠ '.')
    (hpower : ∀ k, Decimal.exponent? k tail = some (e, [])) :
    Decimal.ofUnsigned? (l.unsignedChars ++ tail) =
      some { l.decimal with negative := false, exponent := l.decimal.exponent + e } := by
  obtain ⟨minus, whole, fraction, digits, nonempty⟩ := l
  rw [List.all_append, Bool.and_eq_true] at digits
  cases fraction with
  | none =>
    have hne : whole ≠ [] := by simpa using nonempty
    have htake : (whole ++ tail).takeWhile Char.isDigit = whole :=
      takeWhile_append (List.all_eq_true.mp digits.1) fun c hc => (hhead c hc).1
    have hpoint (cs : List Char) : tail ≠ '.' :: cs := by
      rintro rfl
      exact (hhead '.' rfl).2 rfl
    simp [unsignedChars, Decimal.ofUnsigned?, htake, hne, hpower, decimal]
  | some ds =>
    have htake : (whole ++ '.' :: (ds ++ tail)).takeWhile Char.isDigit = whole :=
      takeWhile_append (List.all_eq_true.mp digits.1) (by simp)
    have hdigits : ∀ c ∈ ds, c.isDigit = true := List.all_eq_true.mp digits.2
    have htake' : (ds ++ tail).takeWhile Char.isDigit = ds :=
      takeWhile_append hdigits fun c hc => (hhead c hc).1
    have hdrop : (ds ++ tail).dropWhile Char.isDigit = tail := by
      rw [List.dropWhile_append_of_pos hdigits]
      cases tail with
      | nil => rfl
      | cons c tail => simp [(hhead c rfl).1]
    have hne : ¬ (whole = [] ∧ ds = []) := by simpa using nonempty
    have hexponent : e - (ds.length : Int) = -(ds.length : Int) + e := by omega
    simp [unsignedChars, Decimal.ofUnsigned?, htake, htake', hdrop, hne, hpower, decimal, hexponent]

/-- No name of a number begins like a numeral. -/
theorem toLower_ne (l : Literal) (tail : List Char) {c : Char} {cs : List Char}
    (hdigit : c.isDigit = false) (hpoint : c ≠ '.') :
    (String.ofList (l.unsignedChars ++ tail)).toLower ≠ String.ofList (c :: cs) := by
  obtain ⟨d, ds, hd, hbegins⟩ := l.unsigned_begins
  intro heq
  have hchars := congrArg String.toList heq
  rw [hd, String.toLower, String.toList_map, String.toList_ofList, String.toList_ofList,
    List.cons_append, List.map_cons] at hchars
  have hlower : d.toLower = d := by
    rcases hbegins with hdigits | rfl
    · have hrange : 48 ≤ d.val ∧ d.val ≤ 57 := by simpa [Char.isDigit] using hdigits
      unfold Char.toLower
      rw [dif_neg]
      grind
    · rfl
  obtain rfl : d = c := hlower.symm.trans (List.cons.inj hchars).1
  rcases hbegins with hbegins | rfl
  · simp [hdigit] at hbegins
  · exact hpoint rfl

/-- A text that begins like a numeral is read with its sign. -/
theorem ofText?_append (l : Literal) {tail : List Char} {d : Decimal}
    (h : Decimal.ofUnsigned? (l.unsignedChars ++ tail) = some { d with negative := false })
    (hd : d.negative = l.decimal.negative) :
    Number.ofText? (String.ofList (l.chars ++ tail)) = some (.ofDecimal d) := by
  have hunsigned : Number.ofUnsigned? (l.unsignedChars ++ tail) =
      some (.ofDecimal { d with negative := false }) := by
    have hinf : (String.ofList (l.unsignedChars ++ tail)).toLower ≠ "inf" :=
      l.toLower_ne tail rfl (by decide)
    have hinfinity : (String.ofList (l.unsignedChars ++ tail)).toLower ≠ "infinity" :=
      l.toLower_ne tail rfl (by decide)
    have hnan : (String.ofList (l.unsignedChars ++ tail)).toLower ≠ "nan" :=
      l.toLower_ne tail rfl (by decide)
    simp [Number.ofUnsigned?, hinf, hinfinity, hnan, h, -String.ofList_append]
  unfold Number.ofText?
  rw [String.toList_ofList]
  cases hminus : l.minus with
  | none =>
    obtain ⟨c, cs, hcs, hbegins⟩ := l.unsigned_begins
    have hchars : l.chars ++ tail = c :: (cs ++ tail) := by simp [chars, signChars, hminus, hcs]
    have hsign : c ≠ '-' ∧ c ≠ '+' := by
      constructor <;> rintro rfl <;> simp at hbegins
    rw [hcs, List.cons_append] at hunsigned
    have hdecimal : d = { d with negative := false } := by
      rw [← show d.negative = false by simp [hd, decimal, hminus]]
    rw [hchars]
    split
    · next heq => exact absurd (List.cons.inj heq).1 hsign.1
    · next heq => exact absurd (List.cons.inj heq).1 hsign.2
    · rw [hunsigned, ← hdecimal]
  | some minus =>
    cases minus with
    | false =>
      have hchars : l.chars ++ tail = '+' :: (l.unsignedChars ++ tail) := by
        simp [chars, signChars, hminus]
      have hdecimal : d = { d with negative := false } := by
        rw [← show d.negative = false by simp [hd, decimal, hminus]]
      simp only [hchars, hunsigned, ← hdecimal]
    | true =>
      have hchars : l.chars ++ tail = '-' :: (l.unsignedChars ++ tail) := by
        simp [chars, signChars, hminus]
      have hdecimal : d = { d with negative := true } := by
        rw [← show d.negative = true by simp [hd, decimal, hminus]]
      simp only [hchars, hunsigned, Option.map_some, Number.neg_ofDecimal, ← hdecimal]

/-- A numeral is the text of its value. -/
theorem ofText?_chars (l : Literal) : Number.ofText? (String.ofList l.chars) = some l.value := by
  have hnone : ∀ c ∈ ([] : List Char).head?, c.isDigit = false ∧ c ≠ '.' := by simp
  have hunsigned : Decimal.ofUnsigned? (l.unsignedChars ++ []) = _ :=
    l.ofUnsigned?_append hnone fun _ => rfl
  rw [Int.add_zero] at hunsigned
  have htext := l.ofText?_append hunsigned rfl
  rwa [List.append_nil] at htext

end Literal
end Scriptlet
