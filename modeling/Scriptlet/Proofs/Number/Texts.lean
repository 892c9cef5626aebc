import Scriptlet.Number.Text
import Scriptlet.Proofs.Json.Scalars
import Scriptlet.Proofs.Number.Modulo
import Scriptlet.Proofs.Number.Shortest
import Scriptlet.Proofs.Reader.Literals
import Scriptlet.Proofs.Reader.Soundness

/-! Printed numbers. A number of moderate size is printed as a numeral of scripts, any other one with a
power of ten, and the text is read back as the number. -/
namespace Scriptlet

namespace Decimal

theorem digitsValue_append (ds es : List Char) :
    digitsValue (ds ++ es) = 10 ^ es.length * digitsValue ds + digitsValue es := by
  have heq (cs : List Char) : digitsValue cs = Nat.ofDigitChars 10 cs 0 :=
    Nat.ofDigitChars_eq_foldl.symm
  rw [heq, heq, heq, Nat.ofDigitChars_append, Nat.ofDigitChars_eq_ofDigitChars_zero]

theorem digitsValue_zeros (n : Nat) : digitsValue (List.replicate n '0') = 0 := by
  induction n with
  | zero => rfl
  | succ n ih =>
    rw [List.replicate_succ', digitsValue_append, ih]
    rfl

/-- Only the zeros behind count. -/
theorem digitsValue_surround (ds : Digits) (before behind : Nat) :
    digitsValue (ds.surround before behind).chars = 10 ^ behind * digitsValue ds.chars := by
  unfold Digits.surround
  rw [digitsValue_append, digitsValue_append, digitsValue_zeros, digitsValue_zeros, Nat.mul_zero,
    Nat.zero_add, Nat.add_zero, List.length_replicate]

theorem chars_ofNat (n : Nat) : (Digits.ofNat n).chars = Nat.toDigits 10 n := by
  show (toString n).toList = _
  rw [Nat.toString_eq_repr, Nat.toList_repr]

theorem digitsValue_ofNat (n : Nat) : digitsValue (Digits.ofNat n).chars = n := by
  rw [chars_ofNat]
  exact Nat.ofDigitChars_eq_foldl.symm.trans Nat.ofDigitChars_ten_toDigits

variable {d : Decimal}

/-- The leading place is that of the value. -/
theorem leadingPlace_bounds (h : 0 < d.coefficient) :
    (10 : ℚ) ^ d.leadingPlace ≤ d.absValue ∧ d.absValue < 10 ^ (d.leadingPlace + 1) := by
  have hlength : d.digits.length = (Nat.toDigits 10 d.coefficient).length := by
    rw [← chars_ofNat, ← String.length_toList]
    rfl
  have hpos : 0 < (Nat.toDigits 10 d.coefficient).length := Nat.length_toDigits_pos
  have hupper : d.coefficient < 10 ^ d.digits.length := by
    rw [hlength]
    exact (Nat.length_toDigits_le_iff (by decide) hpos).mp le_rfl
  have hlower : 10 ^ (d.digits.length - 1) ≤ d.coefficient := by
    by_cases hone : d.digits.length = 1
    · rw [hone]
      exact h
    · by_contra hlt
      have hle := (Nat.length_toDigits_le_iff (by decide) (by omega)).mpr (not_le.mp hlt)
      omega
  have hpow : (0 : ℚ) < 10 ^ d.exponent := by positivity
  have hfirst : d.leadingPlace = (d.digits.length - 1 : Nat) + d.exponent := by
    unfold leadingPlace
    omega
  have hnext : d.leadingPlace + 1 = (d.digits.length : Nat) + d.exponent := by
    unfold leadingPlace
    omega
  rw [hnext, hfirst, zpow_add₀ (by norm_num), zpow_add₀ (by norm_num), zpow_natCast, zpow_natCast]
  constructor
  · exact mul_le_mul_of_nonneg_right (by exact_mod_cast hlower) hpow.le
  · exact mul_lt_mul_of_pos_right (by exact_mod_cast hupper) hpow

end Decimal

namespace Literal

def ofDigits (minus : Bool) (whole : Digits) (fraction : Option Digits) : Literal where
  minus := if minus then some true else none
  whole := whole.chars
  fraction := fraction.map Digits.chars
  digits := by
    rw [List.all_eq_true]
    intro c hc
    rcases List.mem_append.mp hc with hc | hc
    · exact whole.digits c hc
    · cases fraction with
      | none => cases hc
      | some ds => exact ds.digits c hc
  nonempty := by simp [whole.nonempty]

theorem chars_ofDigits (d : Decimal) (whole : Digits) (fraction : Option Digits) :
    (ofDigits d.negative whole fraction).chars =
      d.sign.toList ++ (whole.chars ++ (fraction.map Digits.chars).elim [] ('.' :: ·)) := by
  unfold chars signChars unsignedChars ofDigits Decimal.sign
  cases d.negative <;> rfl

theorem negative_ofDigits (minus : Bool) (whole : Digits) (fraction : Option Digits) :
    (ofDigits minus whole fraction).decimal.negative = minus := by
  cases minus <;> rfl

end Literal

namespace Decimal

variable {d : Decimal}

/-- The numeral of some digits has the value of the decimal if the digits are those of its coefficient,
perhaps with zeros behind. -/
theorem absValue_ofDigits {whole : Digits} {fraction : Option Digits} {k : Nat} {minus : Bool}
    (hdigits : digitsValue (whole.chars ++ (fraction.map Digits.chars).getD []) = 10 ^ k * d.coefficient)
    (hlength : (((fraction.map Digits.chars).getD []).length : Int) = k - d.exponent) :
    (Literal.ofDigits minus whole fraction).decimal.absValue = d.absValue := by
  show ((digitsValue (whole.chars ++ (fraction.map Digits.chars).getD []) : Nat) : ℚ) *
    10 ^ (-(((fraction.map Digits.chars).getD []).length : Int)) = d.coefficient * 10 ^ d.exponent
  rw [hdigits, hlength, neg_sub, zpow_sub₀ (by norm_num), zpow_natCast]
  push_cast
  field_simp

theorem leadingPlace_eq (d : Decimal) :
    d.leadingPlace = (Digits.ofNat d.coefficient).chars.length + d.exponent - 1 := by
  rw [leadingPlace, ← String.length_toList]
  rfl

/-- Digits without a power of ten are a numeral of scripts. -/
theorem exists_literal (d : Decimal) : ∃ l : Literal,
    l.chars = d.sign.toList ++ (d.positional false).toList ∧ l.decimal.negative = d.negative ∧
      l.decimal.absValue = d.absValue := by
  have hvalue := digitsValue_ofNat d.coefficient
  have hleading := d.leadingPlace_eq
  have hds : d.digits.toList = (Digits.ofNat d.coefficient).chars := rfl
  unfold positional
  dsimp only
  generalize Digits.ofNat d.coefficient = ds at hvalue hleading hds
  by_cases hexponent : 0 ≤ d.exponent
  · refine ⟨.ofDigits d.negative (ds.surround 0 d.exponent.toNat) none, ?_,
      Literal.negative_ofDigits _ _ _, absValue_ofDigits (k := d.exponent.toNat) ?_ ?_⟩
    · rw [Literal.chars_ofDigits]
      simp [hexponent, zeros, Digits.surround, hds]
    · simp [digitsValue_surround, hvalue]
    · simp [hexponent]
  · by_cases hplace : 0 ≤ d.leadingPlace
    · have hpos : 0 < (d.leadingPlace + 1).toNat := by omega
      have hlt : (d.leadingPlace + 1).toNat < ds.chars.length := by omega
      refine ⟨.ofDigits d.negative (ds.take _ hpos) (some (ds.drop _ hlt)), ?_,
        Literal.negative_ofDigits _ _ _, absValue_ofDigits (k := 0) ?_ ?_⟩
      · rw [Literal.chars_ofDigits]
        simp [hexponent, hplace, Digits.take, Digits.drop, hds]
      · simp [Digits.take, Digits.drop, hvalue]
      · show ((ds.chars.drop (d.leadingPlace + 1).toNat).length : Int) = (0 : Nat) - d.exponent
        rw [List.length_drop]
        omega
    · refine ⟨.ofDigits d.negative .zero (some (ds.surround (-d.leadingPlace - 1).toNat 0)), ?_,
        Literal.negative_ofDigits _ _ _, absValue_ofDigits (k := 0) ?_ ?_⟩
      · rw [Literal.chars_ofDigits]
        simp [hexponent, hplace, zeros, Digits.zero, Digits.surround, hds]
      · have hzero : digitsValue ['0'] = 0 := rfl
        show digitsValue (['0'] ++ (ds.surround _ 0).chars) = _
        rw [digitsValue_append, digitsValue_surround, hvalue, hzero, Nat.mul_zero, Nat.zero_add]
      · show ((List.replicate _ '0' ++ ds.chars ++ List.replicate 0 '0').length : Int) =
          (0 : Nat) - d.exponent
        rw [List.length_append, List.length_append, List.length_replicate, List.length_replicate]
        omega

end Decimal

/-- A number as it is written with a power of ten, which is negative if `down` says so. -/
structure Scientific where
  mantissa : Literal
  down : Bool
  power : Digits

namespace Scientific

def powerChars (n : Scientific) : List Char := 'e' :: (if n.down then '-' else '+') :: n.power.chars

def chars (n : Scientific) : List Char := n.mantissa.chars ++ n.powerChars

def exponent (n : Scientific) : Int :=
  if n.down then -Decimal.digitsValue n.power.chars else Decimal.digitsValue n.power.chars

def decimal (n : Scientific) : Decimal :=
  { n.mantissa.decimal with exponent := n.mantissa.decimal.exponent + n.exponent }

/-- The numeral with the given power of ten. -/
def ofPlace (mantissa : Literal) (place : Int) : Scientific := ⟨mantissa, place < 0, .ofNat place.natAbs⟩

theorem exponent_ofPlace (mantissa : Literal) (place : Int) :
    (ofPlace mantissa place).exponent = place := by
  unfold exponent ofPlace
  rw [Decimal.digitsValue_ofNat]
  by_cases h : place < 0
  · simp only [h, decide_true, if_true]
    omega
  · simp only [h, decide_false, Bool.false_eq_true, if_false]
    omega

theorem absValue_decimal (n : Scientific) :
    n.decimal.absValue = n.mantissa.decimal.absValue * 10 ^ n.exponent := by
  unfold decimal Decimal.absValue
  rw [zpow_add₀ (by norm_num), mul_assoc]

theorem powerChars_head (n : Scientific) : ∀ c ∈ n.powerChars.head?, c.isDigit = false ∧ c ≠ '.' := by
  intro c hc
  obtain rfl : 'e' = c := Option.some.inj hc
  decide

/-- A power of ten that is not too great is read as it is. -/
theorem exponent?_powerChars (n : Scientific) (k : Nat)
    (h : Decimal.digitsValue n.power.chars ≤ 20000) :
    Decimal.exponent? k n.powerChars = some (n.exponent, []) := by
  have htake : n.power.chars.takeWhile Char.isDigit = n.power.chars :=
    List.takeWhile_eq_self_iff.mpr n.power.digits
  have hmin (negative : Bool) : Decimal.power k negative n.power.chars =
      if negative then -(Decimal.digitsValue n.power.chars : Int) else Decimal.digitsValue n.power.chars := by
    have hmin : min (Decimal.digitsValue n.power.chars : Int) (20000 + k) =
        Decimal.digitsValue n.power.chars := by omega
    simp only [Decimal.power, hmin]
  unfold powerChars exponent
  cases n.down <;> simp [Decimal.exponent?, Decimal.signed, htake, n.power.nonempty, hmin]

theorem ofText?_chars (n : Scientific) (h : Decimal.digitsValue n.power.chars ≤ 20000) :
    Number.ofText? (String.ofList n.chars) = some (.ofDecimal n.decimal) := by
  have hunsigned := n.mantissa.ofUnsigned?_append n.powerChars_head (n.exponent?_powerChars · h)
  exact n.mantissa.ofText?_append hunsigned rfl

end Scientific

namespace Decimal

variable {d : Decimal}

/-- A digit, the others behind a point, and a power of ten. -/
theorem exists_scientific (d : Decimal) : ∃ n : Scientific,
    n.chars = d.sign.toList ++ d.scientific.toList ∧ n.mantissa.whole.length = 1 ∧
      n.decimal.negative = d.negative ∧ n.decimal.absValue = d.absValue ∧
      digitsValue n.power.chars = d.leadingPlace.natAbs := by
  have hvalue := digitsValue_ofNat d.coefficient
  have hleading := d.leadingPlace_eq
  have hds : d.digits.toList = (Digits.ofNat d.coefficient).chars := rfl
  have hpositive := List.length_pos_iff.mpr (Digits.ofNat d.coefficient).nonempty
  unfold scientific
  dsimp only
  generalize Digits.ofNat d.coefficient = ds at hvalue hleading hds hpositive
  -- the digits behind the point
  obtain ⟨fraction, hdigits, htext⟩ : ∃ fraction : Option Digits,
      (fraction.map Digits.chars).getD [] = ds.chars.drop 1 ∧
      (fraction.map Digits.chars).elim [] ('.' :: ·) =
        (if ds.chars.length ≤ 1 then "" else "." ++ String.ofList (ds.chars.drop 1)).toList := by
    by_cases hone : ds.chars.length ≤ 1
    · exact ⟨none, (List.drop_eq_nil_of_le hone).symm, by simp [hone]⟩
    · exact ⟨some (ds.drop 1 (by omega)), rfl, by simp [hone, Digits.drop]⟩
  refine ⟨.ofPlace (.ofDigits d.negative (ds.take 1 (by decide)) fraction) d.leadingPlace, ?_, ?_,
    Literal.negative_ofDigits _ _ _, ?_, digitsValue_ofNat _⟩
  · have hsign : (if 0 ≤ d.leadingPlace then "e+" else "e-").toList =
        ['e', if d.leadingPlace < 0 then '-' else '+'] := by
      by_cases hplace : 0 ≤ d.leadingPlace
      · rw [if_pos hplace, if_neg (not_lt.mpr hplace)]
        rfl
      · rw [if_neg hplace, if_pos (not_le.mp hplace)]
        rfl
    unfold Scientific.chars Scientific.powerChars Scientific.ofPlace
    rw [Literal.chars_ofDigits, htext]
    simp [hds, hsign, chars_ofNat, Digits.take]
  · show (ds.chars.take 1).length = 1
    rw [List.length_take]
    omega
  · have hmantissa : (Literal.ofDigits d.negative (ds.take 1 (by decide)) fraction).decimal.absValue =
        (⟨d.negative, d.coefficient, d.exponent - d.leadingPlace⟩ : Decimal).absValue := by
      apply absValue_ofDigits (k := 0)
      · rw [hdigits, Nat.pow_zero, Nat.one_mul]
        exact (congrArg digitsValue (List.take_append_drop 1 ds.chars)).trans hvalue
      · rw [hdigits, List.length_drop]
        dsimp only
        omega
    rw [Scientific.absValue_decimal, Scientific.exponent_ofPlace]
    show (Literal.ofDigits d.negative (ds.take 1 (by decide)) fraction).decimal.absValue * _ = _
    rw [hmantissa, absValue, absValue, mul_assoc, ← zpow_add₀ (by norm_num), Int.sub_add_cancel]

end Decimal

namespace Number

variable {x c : Number} {d : Decimal} {m : Nat} {e k : Int} {tie : Tie}

/-- The number without its sign. -/
def abs (x : Number) : Number := ofMagnitude false x.magnitude

/-- At least `1e-6` and less than `1e21`, whatever the sign. -/
def isModerate (x : Number) : Bool :=
  (ofDecimal ⟨false, 1, -6⟩).le x.abs && x.abs.lt (ofDecimal ⟨false, 1, 21⟩)

theorem value?_abs {s : Bool} (hx : x.unpack = .finite s m e) : x.abs.value? = some (m * 2 ^ e : ℚ) := by
  obtain ⟨hc, -, hmag⟩ := unpack_eq_finite hx
  unfold abs
  rw [hmag, value?_of_unpack (unpack_ofMagnitude false hc), cast_signed]
  rfl

/-- The leading place of the shortest digits tells on which side of a power of ten a number is. -/
theorem exists_place (hc : c.shortest? tie = some ⟨false, 1, k⟩) (hx : x.shortest? tie = some d)
    (hd : 0 < d.coefficient) :
    ∃ v w, x.abs.value? = some v ∧ c.value? = some w ∧ (w ≤ v ↔ k ≤ d.leadingPlace) := by
  obtain ⟨n, f, hdenotes'⟩ := Decimal.exists_denotes hc Nat.one_pos
  obtain ⟨m, e, hdenotes⟩ := Decimal.exists_denotes hx hd
  have hvalue : c.value? = some (n * 2 ^ f : ℚ) := by
    rw [value?_of_unpack hdenotes'.unpack, cast_signed]
    rfl
  refine ⟨_, _, value?_abs hdenotes.unpack, hvalue, ?_⟩
  have hbounds := Decimal.leadingPlace_bounds hd
  have hone : (⟨false, 1, k⟩ : Decimal).absValue = 10 ^ k := by simp [Decimal.absValue]
  have hten : (1 : ℚ) < 10 := by norm_num
  rcases lt_trichotomy (m * 2 ^ e : ℚ) (n * 2 ^ f) with hlt | heq | hgt
  · have hnear := Near.lt_of_lt hdenotes.canonical hdenotes.pos hdenotes'.canonical hdenotes'.pos
      hdenotes.near hdenotes'.near hlt
    rw [hone] at hnear
    have hplace := (zpow_lt_zpow_iff_right₀ hten).mp (hbounds.1.trans_lt hnear)
    constructor
    · intro hle
      exact absurd hlt (not_lt.mpr hle)
    · intro hle
      omega
  · obtain ⟨rfl, rfl⟩ := hdenotes.canonical.unique hdenotes'.canonical heq
    have hdigits := shortest?_of_parts tie hdenotes.unpack hdenotes'.unpack
    rw [hx, hc] at hdigits
    have hplace : d.leadingPlace = k := by
      have hone : (Nat.toDigits 10 1).length = 1 := rfl
      rw [Option.some.inj hdigits, Decimal.leadingPlace_eq, Decimal.chars_ofNat]
      dsimp only
      omega
    exact ⟨fun _ => hplace.ge, fun _ => le_rfl⟩
  · have hnear := Near.lt_of_lt hdenotes'.canonical hdenotes'.pos hdenotes.canonical hdenotes.pos
      hdenotes'.near hdenotes.near hgt
    rw [hone] at hnear
    have hplace := (zpow_lt_zpow_iff_right₀ hten).mp (hnear.trans hbounds.2)
    constructor
    · intro
      omega
    · intro
      exact hgt.le

/-- Numbers of moderate size are those that are printed without a power of ten. -/
theorem isModerate_iff (hx : x.shortest? .upper = some d) (hd : 0 < d.coefficient) :
    x.isModerate = displayLayout.positional d.leadingPlace := by
  have hlow : (ofDecimal ⟨false, 1, -6⟩).shortest? .upper = some ⟨false, 1, -6⟩ := by decide +kernel
  have hhigh : (ofDecimal ⟨false, 1, 21⟩).shortest? .upper = some ⟨false, 1, 21⟩ := by decide +kernel
  obtain ⟨v, w, hv, hw, hle⟩ := exists_place hlow hx hd
  obtain ⟨v', w', hv', hw', hlt⟩ := exists_place hhigh hx hd
  obtain rfl : v = v' := Option.some.inj (hv.symm.trans hv')
  have hplace : d.leadingPlace < 21 ↔ v < w' := by
    rw [← not_le, ← not_le, hlt]
  unfold isModerate displayLayout
  rw [le_value hw hv, lt_value hv hw']
  simp only [hle, ← hplace]

/-- The shortest digits of a number that is neither zero nor without a value, and its text. -/
theorem exists_display (hfinite : x.isFinite = true) (hzero : x.isZero = false) :
    ∃ d m e, x.shortest? .upper = some d ∧ d.Denotes x m e ∧ x.display = d.render displayLayout := by
  obtain ⟨q, hq⟩ := exists_value hfinite
  obtain ⟨s, m, e, hx, -, rfl⟩ := exists_unpack hq
  have hne : (signed s m * 2 ^ e : ℚ) ≠ 0 := by
    rw [isZero_value hq] at hzero
    exact of_decide_eq_false hzero
  have hm := Nat.pos_of_ne_zero (ne_zero_of_value hne)
  obtain ⟨d, hd, rfl, hnear⟩ := exists_shortest .upper hx hm
  refine ⟨d, m, e, hd, ⟨hm, hx, hnear⟩, ?_⟩
  have htie : displayLayout.tie = .upper := rfl
  simp only [display, hzero, Bool.false_eq_true, if_false, htie, hd]

/-- The power of ten with which a number is printed is small. -/
theorem natAbs_leadingPlace (h : d.Denotes x m e) : d.leadingPlace.natAbs ≤ 20000 := by
  have hbounds := Decimal.leadingPlace_bounds h.coefficient_pos
  have hten : (1 : ℚ) < 10 := by norm_num
  have hupper : d.leadingPlace < 1024 := by
    rw [← zpow_lt_zpow_iff_right₀ hten]
    calc (10 : ℚ) ^ d.leadingPlace ≤ d.absValue := hbounds.1
      _ < overflowBound := h.near.lt_overflowBound h.canonical
      _ ≤ 2 ^ 53 * 2 ^ 971 := mul_le_mul_of_nonneg_right (by norm_num) (by positivity)
      _ = 2 ^ 1024 := (pow_add 2 53 971).symm
      _ ≤ 10 ^ 1024 := pow_le_pow_left₀ (by norm_num) (by norm_num) 1024
  have hlower : -1075 < d.leadingPlace + 1 := by
    rw [← zpow_lt_zpow_iff_right₀ hten]
    have hm : (1 : ℚ) ≤ m := by exact_mod_cast h.pos
    have hpow : (2 : ℚ) ^ (-1074 : Int) ≤ 2 ^ e := zpow_le_zpow_right₀ (by norm_num) h.canonical.low
    have hhalf : (1 / 2 : ℚ) * 2 ^ e ≤ (m - 1 / 2) * 2 ^ e :=
      mul_le_mul_of_nonneg_right (by linarith) (by positivity)
    have hinv : ((10 : ℚ) ^ 1075)⁻¹ ≤ (2 ^ 1075)⁻¹ :=
      inv_anti₀ (by positivity) (pow_le_pow_left₀ (by norm_num) (by norm_num) 1075)
    calc (10 : ℚ) ^ (-1075 : Int) ≤ 2 ^ (-1 + -1074 : Int) := hinv
      _ = 1 / 2 * 2 ^ (-1074 : Int) := by rw [zpow_add₀ (by norm_num), zpow_neg_one, one_div]
      _ ≤ 1 / 2 * 2 ^ e := mul_le_mul_of_nonneg_left hpow (by norm_num)
      _ ≤ d.absValue := hhalf.trans h.near.half_le
      _ < 10 ^ (d.leadingPlace + 1) := hbounds.2
  omega

/-- The text of a number of moderate size is a numeral of scripts. -/
theorem exists_literal (hfinite : x.isFinite = true) (hzero : x.isZero = false)
    (hmoderate : x.isModerate = true) : ∃ l : Literal, x.display.toList = l.chars ∧ l.value = x := by
  obtain ⟨d, m, e, hd, hdenotes, htext⟩ := exists_display hfinite hzero
  rw [isModerate_iff hd hdenotes.coefficient_pos] at hmoderate
  obtain ⟨l, hchars, hsign, hvalue⟩ := d.exists_literal
  refine ⟨l, ?_, (hdenotes.congr hsign hvalue).ofDecimal⟩
  rw [htext, Decimal.render, if_pos hmoderate, String.toList_append, hchars]
  rfl

/-- The text of any other number has a power of ten. -/
theorem exists_scientific (hfinite : x.isFinite = true) (hzero : x.isZero = false)
    (hmoderate : x.isModerate = false) : ∃ n : Scientific, ∃ m e, x.display.toList = n.chars ∧
      n.mantissa.whole.length = 1 ∧ n.decimal.Denotes x m e ∧
      Decimal.digitsValue n.power.chars ≤ 20000 := by
  obtain ⟨d, m, e, hd, hdenotes, htext⟩ := exists_display hfinite hzero
  rw [isModerate_iff hd hdenotes.coefficient_pos] at hmoderate
  obtain ⟨n, hchars, hone, hsign, hvalue, hpower⟩ := d.exists_scientific
  refine ⟨n, m, e, ?_, hone, hdenotes.congr hsign hvalue, hpower ▸ natAbs_leadingPlace hdenotes⟩
  rw [htext, Decimal.render, hmoderate, String.toList_append, hchars]
  rfl

/-- The text of a number is read back as the number. -/
theorem ofText?_display (hfinite : x.isFinite = true) (hzero : x.isZero = false) :
    ofText? x.display = some x := by
  cases hmoderate : x.isModerate with
  | true =>
    obtain ⟨l, hchars, hvalue⟩ := exists_literal hfinite hzero hmoderate
    have hread := l.ofText?_chars
    rwa [← hchars, String.ofList_toList, hvalue] at hread
  | false =>
    obtain ⟨n, m, e, hchars, -, hdenotes, hpower⟩ := exists_scientific hfinite hzero hmoderate
    have hread := n.ofText?_chars hpower
    rwa [← hchars, String.ofList_toList, hdenotes.ofDecimal] at hread

/-- A numeral with a semicolon behind it is a script. -/
theorem parse_literal {l : Literal} {text : String} (h : text.toList = l.chars) :
    Program.parse (text ++ ";") = .ok ⟨[.expr (.number l.value)]⟩ := by
  have hwritten : Written (.block [.expr (.number l.value)]) [.number l, .mark .semicolon] :=
    .block (.expr (.number l)) .emptyBlock
  have hapart (t : Lexeme) (next : Option Lexeme) (hnext : next.any Lexeme.startsWord = false)
      (ht : t ≠ .operator .div) : Separates t [] next :=
    ⟨fun _ hword => absurd (hnext.symm.trans hword) Bool.false_ne_true, fun hdiv => absurd hdiv ht⟩
  have hgap (last : Bool) : Layout.Gap last [] := .nil
  have hspells : Spells [.number l, .mark .semicolon] (l.chars ++ [';']) :=
    .cons (hgap _) (hapart _ _ rfl Lexeme.noConfusion)
      (.cons (hgap _) (hapart _ _ rfl Lexeme.noConfusion) .nil)
  have hspelled : Spelled [.number l, .mark .semicolon] (text ++ ";").toList :=
    ⟨[], _, .nil, by simp [h], hspells⟩
  exact Program.parse_eq_ok_iff_spelled.mpr ⟨_, hwritten.composed none, hspelled⟩

/-- Printed numbers are read back exactly. The text of a number of moderate size is a numeral of scripts,
and a script of it is the number itself. The text of any other number has a power of ten, and of all
numbers this one is nearest to what the text denotes. So different numbers have different texts. -/
theorem display_reads_back (hfinite : x.isFinite = true) (hzero : x.isZero = false) :
    (x.isModerate = true →
      Token.number x.display.toList = some (x, x.display.length) ∧
      Program.parse (x.display ++ ";") = .ok ⟨[.expr (.number x)]⟩) ∧
    (x.isModerate = false → ∃ n : Scientific, x.display.toList = n.chars ∧
      n.mantissa.whole.length = 1 ∧ Nearest n.decimal.value x) ∧
    ∀ y : Number, y.isFinite = true → y.isZero = false → y.display = x.display → y = x := by
  refine ⟨fun hmoderate => ?_, fun hmoderate => ?_, fun y hfinite' hzero' htext => ?_⟩
  · obtain ⟨l, hchars, hvalue⟩ := exists_literal hfinite hzero hmoderate
    have hnumber : Token.number (l.chars ++ []) = some (l.value, l.chars.length) :=
      Token.number_append l (by simp)
    rw [List.append_nil, ← hchars, hvalue, String.length_toList] at hnumber
    have hparse := parse_literal hchars
    rw [hvalue] at hparse
    exact ⟨hnumber, hparse⟩
  · obtain ⟨n, m, e, hchars, hone, hdenotes, -⟩ := exists_scientific hfinite hzero hmoderate
    exact ⟨n, hchars, hone, hdenotes.nearest⟩
  · have hx := ofText?_display hfinite hzero
    have hy := ofText?_display hfinite' hzero'
    rw [htext, hx] at hy
    exact (Option.some.inj hy).symm

/-- The number next to `1e-6`, from which on numbers have no power of ten. -/
def millionth : Number := ⟨0x3EB0C6F7A0B5ED8D⟩

/-- The least positive number. -/
def least : Number := ⟨1⟩

/-- The bounds are met: just at a millionth there is no power of ten, and the least number has one. -/
theorem display_reads_back_least :
    (millionth.isModerate = true ∧ millionth.display = "0.000001" ∧
      Program.parse (millionth.display ++ ";") = .ok ⟨[.expr (.number millionth)]⟩) ∧
    (least.isModerate = false ∧ ∃ n : Scientific, least.display.toList = n.chars ∧
      n.mantissa.whole.length = 1 ∧ Nearest n.decimal.value least) ∧
    (ofDecimal ⟨false, 3, -324⟩).display = least.display ∧ ofDecimal ⟨false, 3, -324⟩ = least := by
  have hmillionth := display_reads_back (x := millionth) (by decide) (by decide)
  have hleast := display_reads_back (x := least) (by decide) (by decide)
  have hmoderate : millionth.isModerate = true := by decide +kernel
  have hsmall : least.isModerate = false := by decide +kernel
  have htext : (ofDecimal ⟨false, 3, -324⟩).display = least.display := by decide +kernel
  exact ⟨⟨hmoderate, by decide +kernel, (hmillionth.1 hmoderate).2⟩, ⟨hsmall, hleast.2.1 hsmall⟩, htext,
    hleast.2.2 _ (by decide +kernel) (by decide +kernel) htext⟩

end Number
end Scriptlet
