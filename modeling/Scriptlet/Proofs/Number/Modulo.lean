import Scriptlet.Proofs.Number.Integers
import Scriptlet.Proofs.Number.Rounding

/-! The remainder of integer parts is the floored one. Only the correction of its sign may round, and
it never rounds to zero or to the other sign. -/
namespace Scriptlet
namespace Number

/-- The integer part, toward zero. -/
def integerPart (q : ℚ) : Int := if q < 0 then ⌈q⌉ else ⌊q⌋

section Parts
variable {x y : Number} {p q : ℚ}

theorem integerPart_neg (q : ℚ) : integerPart (-q) = -integerPart q := by
  unfold integerPart
  rcases lt_trichotomy q 0 with hneg | rfl | hpos
  · have hnot : ¬ -q < 0 := by linarith
    rw [if_pos hneg, if_neg hnot, Int.floor_neg]
  · simp
  · have hnot : ¬ q < 0 := by linarith
    have hneg : -q < 0 := by linarith
    rw [if_neg hnot, if_pos hneg, Int.ceil_neg]

theorem integerPart_natCast_div (n d : Nat) : integerPart ((n : ℚ) / d) = (n / d : Nat) := by
  have hnot : ¬ ((n : ℚ) / d) < 0 := not_lt.mpr (by positivity)
  unfold integerPart
  rw [if_neg hnot, ← Nat.floor_div_eq_div (K := ℚ), Int.natCast_floor_eq_floor (by positivity)]

theorem integerPart_signed (s : Bool) (n d : Nat) (c : ℚ) (h : (n : ℚ) / d = c) :
    integerPart (if s then -c else c) = signed s (n / d) := by
  subst h
  cases s with
  | false => simp only [Bool.false_eq_true, if_false, integerPart_natCast_div, signed]
  | true => simp only [if_true, integerPart_neg, integerPart_natCast_div, signed]

theorem value?_zero (s : Bool) : (zero s).value? = some 0 := by
  have hunpack : (zero s).unpack = .finite s 0 minExponent := by cases s <;> decide
  rw [value?_of_unpack hunpack]
  cases s <;> simp [signed]

theorem exists_value (h : x.isFinite = true) : ∃ q, x.value? = some q := by
  have hlt : x.magnitude < infinityBits := of_decide_eq_true h
  have hfield : x.magnitude >>> 52 ≠ 0x7ff := by
    rw [Nat.shiftRight_eq_div_pow]
    simp only [infinityBits, Nat.shiftLeft_eq] at hlt
    omega
  cases hx : x.unpack with
  | finite s m e => exact ⟨_, value?_of_unpack hx⟩
  | nan | infinite =>
    unfold unpack at hx
    simp only [if_neg hfield] at hx
    split at hx <;> cases hx

theorem isNegative_value (hx : x.value? = some q) (hq : q ≠ 0) : x.isNegative = decide (q < 0) := by
  obtain ⟨m, e, hc, -, -, rfl⟩ := exists_parts hx hq
  exact isNegative_ofMagnitude _ (pack_lt hc).le

/-- The integer part of a number is a number. -/
theorem value?_trunc (hx : x.value? = some q) : x.trunc.value? = some (integerPart q : ℚ) := by
  obtain ⟨s, m, e, hxu, hc, rfl⟩ := exists_unpack hx
  have hratio : ((scaleRatio 2 m 1 e).1 / (scaleRatio 2 m 1 e).2 : ℚ) = m * 2 ^ e := by
    rw [scaleRatio_eq m Nat.one_pos, Nat.cast_one, div_one]
  have hpart : integerPart (signed s m * 2 ^ e) =
      signed s ((scaleRatio 2 m 1 e).1 / (scaleRatio 2 m 1 e).2) := by
    rw [← integerPart_signed s _ _ _ hratio, cast_signed]
    cases s <;> simp
  -- it is the number itself, or has few enough digits
  have hsmall : ∃ (n : Nat) (f : Int), n < 2 ^ 53 ∧ minExponent ≤ f ∧ f ≤ 971 ∧
      (((scaleRatio 2 m 1 e).1 / (scaleRatio 2 m 1 e).2 : Nat) : ℚ) = n * 2 ^ f := by
    by_cases he : 0 ≤ e
    · refine ⟨m, e, hc.small, hc.low, hc.high, ?_⟩
      rw [← hratio, scaleRatio, if_pos he, Nat.div_one, Nat.cast_one, div_one]
    · have hlt : (scaleRatio 2 m 1 e).1 / (scaleRatio 2 m 1 e).2 < 2 ^ 53 := by
        apply (Nat.div_le_self _ _).trans_lt
        rw [scaleRatio, if_neg he]
        exact hc.small
      exact ⟨_, 0, hlt, by decide, by decide, by rw [zpow_zero, mul_one]⟩
  have htrunc : x.trunc = ofRatio s ((scaleRatio 2 m 1 e).1 / (scaleRatio 2 m 1 e).2) 1 := by
    unfold trunc
    rw [hxu]
  rw [htrunc, hpart]
  generalize (scaleRatio 2 m 1 e).1 / (scaleRatio 2 m 1 e).2 = k at hsmall ⊢
  obtain ⟨n, f, hlt, hlow, hhigh, hvalue⟩ := hsmall
  rcases Nat.eq_zero_or_pos k with rfl | hpos
  · rw [ofRatio, if_pos rfl, value?_zero]
    cases s <;> simp [signed]
  · have hn : 0 < n := by
      apply Nat.pos_of_ne_zero
      rintro rfl
      rw [Nat.cast_zero, zero_mul] at hvalue
      exact hpos.ne' (by exact_mod_cast hvalue)
    rw [value?_ofRatio s hn hlt hlow hhigh Nat.one_pos (by rw [hvalue, Nat.cast_one, div_one])]
    rw [cast_signed, cast_signed, hvalue]
    cases s <;> simp

end Parts

section Remainders
variable {x y : Number} {i j : Int}

theorem value?_ofDyadic (s : Bool) {n : Nat} {f : Int} (hn : 0 < n) (hlt : n < 2 ^ 53)
    (hlow : minExponent ≤ f) (hhigh : f ≤ 971) :
    (ofDyadic s n f).value? = some ((signed s n : ℚ) * 2 ^ f) := by
  have hratio := scaleRatio_eq n Nat.one_pos f
  rw [Nat.cast_one, div_one] at hratio
  unfold ofDyadic
  exact value?_ofRatio s hn hlt hlow hhigh (scaleRatio_pos n Nat.one_pos f) hratio

/-- On the common grid of two numbers one of them keeps its significand, so that a remainder is not
longer than a significand. -/
theorem align_mod_lt {m n a b : Nat} {e f g : Int} (hm : Canonical m e) (hn : Canonical n f)
    (h : align m e n f = (a, b, g)) (hb : b ≠ 0) :
    a % b < 2 ^ 53 ∧ minExponent ≤ g ∧ g ≤ 971 := by
  unfold align at h
  obtain ⟨rfl, hbg⟩ := Prod.mk.inj h
  obtain ⟨rfl, rfl⟩ := Prod.mk.inj hbg
  have hlow := le_min hm.low hn.low
  have hhigh := (Int.min_le_left e f).trans hm.high
  refine ⟨?_, hlow, hhigh⟩
  rcases le_total e f with hle | hle
  · have hzero : (e - min e f).toNat = 0 := by omega
    rw [hzero, Nat.shiftLeft_zero]
    exact (Nat.mod_le _ _).trans_lt hm.small
  · have hzero : (f - min e f).toNat = 0 := by omega
    rw [hzero, Nat.shiftLeft_zero] at hb ⊢
    exact (Nat.mod_lt _ (Nat.pos_of_ne_zero hb)).trans hn.small

theorem tmod_signed (s t : Bool) (a b : Nat) : (signed s a).tmod (signed t b) = signed s (a % b) := by
  have hnat : (a : Int).tmod b = (a % b : Nat) := (Int.ofNat_tmod a b).symm
  cases s <;> cases t <;> simp [signed, Int.neg_tmod, Int.tmod_neg, hnat]

/-- An integer on a grid, with its sign apart. -/
theorem signed_natAbs {u : Bool} {c : Nat} {k g : Int} (h : (k : ℚ) = signed u c * 2 ^ g) :
    (c : ℚ) * 2 ^ g = k.natAbs ∧ k = signed u k.natAbs := by
  have hpos : (0 : ℚ) ≤ c * 2 ^ g := by positivity
  rw [cast_signed] at h
  cases u with
  | false =>
    rw [if_neg Bool.false_ne_true] at h
    have hk : 0 ≤ k := by
      rw [← h] at hpos
      exact_mod_cast hpos
    refine ⟨?_, (Int.natAbs_of_nonneg hk).symm⟩
    rw [← h, Nat.cast_natAbs, abs_of_nonneg hk]
  | true =>
    rw [if_pos rfl, neg_mul] at h
    have hk : k ≤ 0 := by
      have hneg : (k : ℚ) ≤ 0 := by rw [h]; linarith
      exact_mod_cast hneg
    refine ⟨?_, ?_⟩
    · rw [Nat.cast_natAbs, abs_of_nonpos hk, Int.cast_neg, h, neg_neg]
    · simp only [signed, if_true]
      omega

/-- The remainder of two integers is exact. -/
theorem value?_rem (hx : x.value? = some (i : ℚ)) (hy : y.value? = some (j : ℚ)) (hj : j ≠ 0) :
    (x.rem y).value? = some (i.tmod j : ℚ) := by
  obtain ⟨s, m, e, t, n, f, a, b, g, hxu, hyu, halign, hi, hjv⟩ := exists_align hx hy
  have hpow : (0 : ℚ) < 2 ^ g := by positivity
  obtain ⟨ha, hisigned⟩ := signed_natAbs hi
  obtain ⟨hb, hjsigned⟩ := signed_natAbs hjv
  have hrest := mod_scaled hpow ha hb
  have hexact : ((i.tmod j : Int) : ℚ) = signed s (a % b) * 2 ^ g := by
    rw [hisigned, hjsigned, tmod_signed, cast_signed, cast_signed, ← hrest]
    cases s <;> simp
  have hjq : (j : ℚ) ≠ 0 := by exact_mod_cast hj
  have hn : n ≠ 0 := by
    have hvalue := Option.some.inj ((value?_of_unpack hyu).symm.trans hy)
    exact ne_zero_of_value (hvalue ▸ hjq)
  have hbn : b ≠ 0 := ne_zero_of_value (hjv ▸ hjq)
  obtain ⟨hlt, hlow, hhigh⟩ :=
    align_mod_lt (unpack_eq_finite hxu).1 (unpack_eq_finite hyu).1 halign hbn
  have hrem : x.rem y = ofDyadic s (a % b) g := by
    unfold rem
    simp only [hxu, hyu, halign, if_neg hn]
  rw [hrem, hexact]
  rcases Nat.eq_zero_or_pos (a % b) with hzero | hpos
  · rw [hzero, ofDyadic_zero, value?_zero]
    cases s <;> simp [signed]
  · exact value?_ofDyadic s hpos hlt hlow hhigh

/-- A sum of integers that is not beyond one of them is rounded to an integer of the same sign. -/
theorem exists_add (hx : x.value? = some (i : ℚ)) (hy : y.value? = some (j : ℚ)) (hne : i + j ≠ 0)
    (hle : |i + j| ≤ |j|) :
    ∃ k : Int, (x + y).value? = some (k : ℚ) ∧ k.sign = (i + j).sign ∧
      (|i + j| ≤ 2 ^ 53 → k = i + j) := by
  obtain ⟨s, m, e, t, n, f, a, b, g, hxu, hyu, halign, hi, hj⟩ := exists_align hx hy
  have hsum : ((i + j : Int) : ℚ) = (signed s a + signed t b : Int) * 2 ^ g := by
    push_cast
    rw [hi, hj]
    ring
  have hadd : x + y = if signed s a + signed t b = 0 then zero (s && t) else
      ofDyadic (signed s a + signed t b < 0) (signed s a + signed t b).natAbs g := by
    show x.add y = _
    unfold add
    simp only [hxu, hyu, halign]
  generalize signed s a + signed t b = sum at hsum hadd
  have hsum0 : sum ≠ 0 := by
    rintro rfl
    rw [Int.cast_zero, zero_mul] at hsum
    exact hne (by exact_mod_cast hsum)
  have hsigned : sum = signed (sum < 0) sum.natAbs := by
    unfold signed
    split_ifs with h
    · have := of_decide_eq_true h
      omega
    · have := of_decide_eq_false (Bool.not_eq_true _ ▸ h)
      omega
  rw [hsigned] at hsum
  obtain ⟨hratio, hvalue⟩ := signed_natAbs hsum
  have hj0 : (j : ℚ) ≠ 0 := by
    intro h0
    obtain rfl : j = 0 := by exact_mod_cast h0
    simp only [abs_zero, abs_nonpos_iff] at hle
    exact hne hle
  obtain ⟨m', e', hc, -, hbound, -⟩ := exists_parts hy hj0
  have hpos : 0 < (i + j).natAbs := Int.natAbs_pos.mpr hne
  have hbelow : ((i + j).natAbs : ℚ) ≤ m' * 2 ^ e' := by
    rw [← hbound, Nat.cast_natAbs]
    exact_mod_cast hle
  have hscaled := scaleRatio_eq sum.natAbs Nat.one_pos g
  rw [Nat.cast_one, div_one, hratio] at hscaled
  obtain ⟨k, hk, hexact, hrounded⟩ := exists_rounded_integer (sum < 0) hc hpos
    (scaleRatio_pos sum.natAbs Nat.one_pos g) hscaled hbelow
  refine ⟨signed (sum < 0) k, ?_, ?_, fun hshort => ?_⟩
  · rw [hadd, if_neg hsum0]
    exact hrounded
  · rw [hvalue]
    unfold signed
    split_ifs
    · rw [Int.sign_neg, Int.sign_neg, Int.sign_natCast_of_ne_zero hk.ne',
        Int.sign_natCast_of_ne_zero hpos.ne']
    · rw [Int.sign_natCast_of_ne_zero hk.ne', Int.sign_natCast_of_ne_zero hpos.ne']
  · have hshort' : (i + j).natAbs ≤ 2 ^ 53 := by
      rw [Int.abs_eq_natAbs] at hshort
      exact_mod_cast hshort
    rw [hexact hshort']
    exact hvalue.symm

/-- A remainder that is zero or lies between zero and the divisor is the floored one. -/
theorem sub_mul_floor {z k : Int} (h : i = j * z + k) (hk : 0 ≤ k ∧ k < j ∨ j < k ∧ k ≤ 0) :
    i - j * ⌊(i / j : ℚ)⌋ = k := by
  have hj : (j : ℚ) ≠ 0 := by
    have : j ≠ 0 := by omega
    exact_mod_cast this
  have hquot : (i / j : ℚ) = z + k / j := by
    rw [h]
    push_cast
    field_simp
  have hfraction : (0 : ℚ) ≤ k / j ∧ (k / j : ℚ) < 1 := by
    rcases hk with ⟨h0, hlt⟩ | ⟨hlt, h0⟩
    · have hpos : (0 : ℚ) < j := by exact_mod_cast h0.trans_lt hlt
      have h0q : (0 : ℚ) ≤ k := by exact_mod_cast h0
      exact ⟨by positivity, (div_lt_one hpos).mpr (by exact_mod_cast hlt)⟩
    · have hneg : (j : ℚ) < 0 := by exact_mod_cast hlt.trans_le h0
      have h0q : (k : ℚ) ≤ 0 := by exact_mod_cast h0
      exact ⟨div_nonneg_of_nonpos h0q hneg.le, (div_lt_one_of_neg hneg).mpr (by exact_mod_cast hlt)⟩
  have hfloor : ⌊(i / j : ℚ)⌋ = z := by
    rw [Int.floor_eq_iff, hquot]
    exact ⟨by linarith [hfraction.1], by linarith [hfraction.2]⟩
  rw [hfloor, h]
  ring

end Remainders

/-- An integer that is the floored remainder of `a` by `b` but for rounding: it has the right sign,
it is zero when it should be, and it is exact for integers of up to fifty-three bits. -/
structure FlooredRemainder (a b r : Int) : Prop where
  sign : r = 0 ∨ r.sign = b.sign
  zero_iff : r = 0 ↔ b ∣ a
  exact : |a| ≤ 2 ^ 53 → |b| ≤ 2 ^ 53 → r = a - b * ⌊(a / b : ℚ)⌋

section Floored
variable {x y : Number} {p q : ℚ} {i j : Int}

theorem floorMod_eq (hx : x.value? = some p) (hy : y.value? = some q) :
    x.floorMod y =
      if integerPart q = 0 then nan
      else if !(x.trunc.rem y.trunc).isZero &&
          (x.trunc.rem y.trunc).isNegative != y.trunc.isNegative then
        x.trunc.rem y.trunc + y.trunc
      else x.trunc.rem y.trunc := by
  have hzero : y.trunc.isZero = decide (integerPart q = 0) := by
    rw [isZero_value (value?_trunc hy), decide_eq_decide, Int.cast_eq_zero]
  unfold floorMod
  simp only [isFinite_of_value hx, isFinite_of_value hy, hzero, Bool.not_true, Bool.or_self,
    Bool.false_eq_true, if_false, decide_eq_true_eq]

/-- The remainder without correction has the sign of the divisor already, or is zero. -/
theorem flooredRemainder_tmod (hj : j ≠ 0) (h : i.tmod j = 0 ∨ (i.tmod j < 0 ↔ j < 0)) :
    FlooredRemainder i j (i.tmod j) := by
  have hdiv := Int.mul_tdiv_add_tmod i j
  have habs := Int.natAbs_tmod i j
  have hlt := Nat.mod_lt i.natAbs (Int.natAbs_pos.mpr hj)
  refine ⟨?_, (Int.dvd_iff_tmod_eq_zero).symm, fun _ _ => (sub_mul_floor hdiv.symm ?_).symm⟩
  · rcases h with hzero | hsign
    · exact .inl hzero
    · rcases lt_trichotomy (i.tmod j) 0 with hneg | hzero | hpos
      · right
        rw [Int.sign_eq_neg_one_of_neg hneg, Int.sign_eq_neg_one_of_neg (hsign.mp hneg)]
      · exact .inl hzero
      · right
        rw [Int.sign_eq_one_of_pos hpos, Int.sign_eq_one_of_pos (by omega)]
  · omega

/-- A remainder of the other sign is corrected by the divisor. -/
theorem flooredRemainder_add {k : Int} (hj : j ≠ 0) (h0 : i.tmod j ≠ 0)
    (hsign : ¬ (i.tmod j < 0 ↔ j < 0)) (hk : k.sign = (i.tmod j + j).sign)
    (hexact : |i.tmod j + j| ≤ 2 ^ 53 → k = i.tmod j + j) : FlooredRemainder i j k := by
  have hdiv := Int.mul_tdiv_add_tmod i j
  have habs := Int.natAbs_tmod i j
  have hlt := Nat.mod_lt i.natAbs (Int.natAbs_pos.mpr hj)
  have hsame : (i.tmod j + j).sign = j.sign := by
    rcases lt_or_gt_of_ne hj with hneg | hpos
    · rw [Int.sign_eq_neg_one_of_neg hneg, Int.sign_eq_neg_one_of_neg (by omega)]
    · rw [Int.sign_eq_one_of_pos hpos, Int.sign_eq_one_of_pos (by omega)]
  have hk0 : k ≠ 0 := by
    rintro rfl
    rw [Int.sign_zero, hsame] at hk
    exact hj (Int.sign_eq_zero_iff_zero.mp hk.symm)
  refine ⟨.inr (hk.trans hsame), ⟨fun hzero => absurd hzero hk0, fun hdvd => ?_⟩, fun _ hb => ?_⟩
  · exact absurd (Int.dvd_iff_tmod_eq_zero.mp hdvd) h0
  · have hshort : |i.tmod j + j| ≤ 2 ^ 53 := by
      apply le_trans _ hb
      rw [Int.abs_eq_natAbs, Int.abs_eq_natAbs]
      omega
    rw [hexact hshort]
    refine (sub_mul_floor (z := i.tdiv j - 1) ?_ (by omega)).symm
    rw [mul_sub, mul_one]
    omega

/-- The remainder of two finite numbers, of which the second has an integer part. -/
theorem exists_floorMod (hx : x.value? = some p) (hy : y.value? = some q) (hq : integerPart q ≠ 0) :
    ∃ r : Int, (x.floorMod y).value? = some (r : ℚ) ∧
      FlooredRemainder (integerPart p) (integerPart q) r := by
  have hy' := value?_trunc hy
  have hrem := value?_rem (value?_trunc hx) hy' hq
  have hnegy : y.trunc.isNegative = decide (integerPart q < 0) := by
    rw [isNegative_value hy' (by exact_mod_cast hq), decide_eq_decide, Int.cast_lt_zero]
  rw [floorMod_eq hx hy, if_neg hq, isZero_value hrem, hnegy]
  by_cases h0 : (integerPart p).tmod (integerPart q) = 0
  · refine ⟨_, ?_, flooredRemainder_tmod hq (.inl h0)⟩
    simpa [h0] using hrem
  · have hneg : (x.trunc.rem y.trunc).isNegative =
        decide ((integerPart p).tmod (integerPart q) < 0) := by
      rw [isNegative_value hrem (by exact_mod_cast h0), decide_eq_decide, Int.cast_lt_zero]
    rw [hneg]
    by_cases hsign : (integerPart p).tmod (integerPart q) < 0 ↔ integerPart q < 0
    · refine ⟨_, ?_, flooredRemainder_tmod hq (.inr hsign)⟩
      simpa [hsign] using hrem
    · have hlt := Nat.mod_lt (integerPart p).natAbs (Int.natAbs_pos.mpr hq)
      have habs := Int.natAbs_tmod (integerPart p) (integerPart q)
      have hle : |(integerPart p).tmod (integerPart q) + integerPart q| ≤ |integerPart q| := by
        rw [Int.abs_eq_natAbs, Int.abs_eq_natAbs]
        omega
      obtain ⟨k, hk, hks, hexact⟩ := exists_add hrem hy' (by omega) hle
      refine ⟨k, ?_, flooredRemainder_add hq h0 hsign hks hexact⟩
      have hdiffer : (decide ((integerPart p).tmod (integerPart q) < 0) !=
          decide (integerPart q < 0)) = true := by
        simpa [bne_iff_ne] using hsign
      simpa [h0, hdiffer] using hk

/-- The remainder of numbers is floored: it is a number unless an operand is not finite or the divisor
has no integer part. Then it is an integer that is zero or has the sign of the divisor; it is zero
just when the divisor's integer part divides that of the dividend; and of integer parts of up to
fifty-three bits it is the exact floored remainder. -/
theorem floorMod_is_floored (x y : Number) :
    ((x.floorMod y).isNaN = true ↔ x.isFinite = false ∨ y.isFinite = false ∨
      ∃ q, y.value? = some q ∧ integerPart q = 0) ∧
    ∀ p q, x.value? = some p → y.value? = some q → integerPart q ≠ 0 →
      ∃ r : Int, (x.floorMod y).value? = some (r : ℚ) ∧
        (r = 0 ∨ r.sign = (integerPart q).sign) ∧ (r = 0 ↔ integerPart q ∣ integerPart p) ∧
        (|integerPart p| ≤ 2 ^ 53 → |integerPart q| ≤ 2 ^ 53 →
          r = integerPart p - integerPart q * ⌊(integerPart p / integerPart q : ℚ)⌋) := by
  have hnan : nan.isNaN = true := by decide
  constructor
  · cases hxf : x.isFinite with
    | false => simpa [floorMod, hxf] using hnan
    | true =>
      cases hyf : y.isFinite with
      | false => simpa [floorMod, hxf, hyf] using hnan
      | true =>
        obtain ⟨p, hp⟩ := exists_value hxf
        obtain ⟨q, hq⟩ := exists_value hyf
        by_cases h0 : integerPart q = 0
        · simpa [floorMod_eq hp hq, h0, hq] using hnan
        · obtain ⟨r, hr, -⟩ := exists_floorMod hp hq h0
          simp [isNaN_of_value hr, hq, h0]
  · intro p q hp hq h0
    obtain ⟨r, hr, hsign, hzero, hexact⟩ := exists_floorMod hp hq h0
    exact ⟨r, hr, hsign, hzero, hexact⟩

/-- Seven and a half below zero has the integer part seven below zero, which leaves two over multiples
of three. -/
theorem floorMod_is_floored_negative :
    (ofRatio true 15 2).value? = some (-15 / 2) ∧ (ofNat 3).value? = some 3 ∧
      integerPart (-15 / 2) = -7 ∧ integerPart 3 = 3 ∧
      ((ofRatio true 15 2).floorMod (ofNat 3)).value? = some 2 := by
  have hratio : ((15 : Nat) / (2 : Nat) : ℚ) = (15 : Nat) * 2 ^ (-1 : Int) := by norm_num
  have hx : (ofRatio true 15 2).value? = some (-15 / 2) := by
    rw [value?_ofRatio true (by decide) (by decide) (by decide) (by decide) Nat.two_pos hratio]
    norm_num [signed]
  have hy : (ofNat 3).value? = some 3 := value?_ofNat (by decide)
  have hpart : integerPart (-15 / 2) = -7 := by
    rw [integerPart, if_pos (by norm_num), Int.ceil_eq_iff]
    norm_num
  have hthree : integerPart 3 = 3 := by
    rw [integerPart, if_neg (by norm_num), Int.floor_ofNat]
  obtain ⟨r, hr, -, -, hexact⟩ := (floorMod_is_floored (ofRatio true 15 2) (ofNat 3)).2 _ _ hx hy
    (by rw [hthree]; decide)
  have hfloor : ⌊((-7 : Int) / (3 : Int) : ℚ)⌋ = -3 := by
    rw [Int.floor_eq_iff]
    norm_num
  rw [hpart, hthree, hfloor] at hexact
  rw [hexact (by decide) (by decide)] at hr
  exact ⟨hx, hy, hpart, hthree, hr.trans (by norm_num)⟩

end Floored

end Number
end Scriptlet
