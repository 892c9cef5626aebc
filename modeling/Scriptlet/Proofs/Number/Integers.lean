import Scriptlet.Proofs.Number.Values
import Scriptlet.Value.Basic

/-! Operations whose exact result is a number give that number. On natural numbers of up to
fifty-three bits, sums, comparisons, halves and remainders are therefore those of the naturals. -/
namespace Scriptlet
namespace Number

section Operations
variable {x y z : Number} {p q : ℚ}

theorem cast_signed (s : Bool) (m : Nat) : ((signed s m : Int) : ℚ) = if s then -(m : ℚ) else m := by
  cases s <;> simp [signed]

theorem signed_shiftLeft (s : Bool) (m : Nat) {e t : Int} (h : t ≤ e) :
    ((signed s (m <<< (e - t).toNat) : Int) : ℚ) * 2 ^ t = signed s m * 2 ^ e := by
  have hmag : ((m <<< (e - t).toNat : Nat) : ℚ) * 2 ^ t = m * 2 ^ e := by
    rw [Nat.shiftLeft_eq]
    push_cast
    rw [← zpow_natCast, Int.toNat_of_nonneg (by omega), mul_assoc, ← zpow_add₀ (by norm_num)]
    congr 2
    omega
  rw [cast_signed, cast_signed]
  cases s with
  | false => exact hmag
  | true => simpa only [if_true, neg_mul, neg_inj] using hmag

/-- Two finite numbers as integers on one grid. -/
theorem exists_align (hx : x.value? = some p) (hy : y.value? = some q) :
    ∃ s m e t n f a b g, x.unpack = .finite s m e ∧ y.unpack = .finite t n f ∧
      align m e n f = (a, b, g) ∧ p = signed s a * 2 ^ g ∧ q = signed t b * 2 ^ g := by
  obtain ⟨s, m, e, hxu, -, rfl⟩ := exists_unpack hx
  obtain ⟨t, n, f, hyu, -, rfl⟩ := exists_unpack hy
  exact ⟨s, m, e, t, n, f, _, _, _, hxu, hyu, rfl, (signed_shiftLeft s m (Int.min_le_left e f)).symm,
    (signed_shiftLeft t n (Int.min_le_right e f)).symm⟩

theorem add_value (hx : x.value? = some p) (hy : y.value? = some q) (hz : z.value? = some (p + q))
    (h : p + q ≠ 0) : x + y = z := by
  obtain ⟨s, m, e, t, n, f, a, b, g, hxu, hyu, halign, rfl, rfl⟩ := exists_align hx hy
  have hsum : (signed s a * 2 ^ g + signed t b * 2 ^ g : ℚ) =
      ((signed s a + signed t b : Int) : ℚ) * 2 ^ g := by
    push_cast
    ring
  have hne : signed s a + signed t b ≠ 0 := by
    intro h0
    apply h
    rw [hsum, h0, Int.cast_zero, zero_mul]
  rw [hsum] at hz
  show x.add y = z
  unfold add
  simp only [hxu, hyu, halign, if_neg hne]
  exact ofDyadic_value hz hne

theorem lt_value (hx : x.value? = some p) (hy : y.value? = some q) : x.lt y = decide (p < q) := by
  obtain ⟨s, m, e, t, n, f, a, b, g, hxu, hyu, halign, rfl, rfl⟩ := exists_align hx hy
  have hpow : (0 : ℚ) < 2 ^ g := by positivity
  unfold lt compare?
  simp only [hxu, hyu, halign, Option.some.injEq, compare_lt_iff_lt, decide_eq_decide]
  rw [mul_lt_mul_iff_left₀ hpow, Int.cast_lt]

theorem le_value (hx : x.value? = some p) (hy : y.value? = some q) : x.le y = decide (p ≤ q) := by
  have hlt := lt_value hx hy
  obtain ⟨s, m, e, t, n, f, a, b, g, hxu, hyu, halign, rfl, rfl⟩ := exists_align hx hy
  have hpow : (0 : ℚ) < 2 ^ g := by positivity
  have heq : x.eq y = decide ((signed s a * 2 ^ g : ℚ) = signed t b * 2 ^ g) := by
    unfold eq compare?
    simp only [hxu, hyu, halign, Option.some.injEq, compare_eq_iff_eq, decide_eq_decide]
    rw [mul_left_inj' hpow.ne', Int.cast_inj]
  unfold le
  rw [hlt, heq, ← Bool.decide_or]
  exact decide_eq_decide.mpr le_iff_lt_or_eq.symm

theorem ne_zero_of_value {s : Bool} {m : Nat} {e : Int} (h : ((signed s m : Int) : ℚ) * 2 ^ e ≠ 0) :
    m ≠ 0 := by
  rintro rfl
  apply h
  cases s <;> simp [signed]

theorem div_value (hx : x.value? = some p) (hy : y.value? = some q) (hz : z.value? = some (p / q))
    (hp : p ≠ 0) (hq : q ≠ 0) : x / y = z := by
  obtain ⟨s, m, e, hxu, -, rfl⟩ := exists_unpack hx
  obtain ⟨t, n, f, hyu, -, rfl⟩ := exists_unpack hy
  have hm := ne_zero_of_value hp
  have hn := ne_zero_of_value hq
  have hpos : (0 : ℚ) < m / n * 2 ^ (e - f) := by positivity
  have hquot : (signed s m * 2 ^ e / (signed t n * 2 ^ f) : ℚ) =
      (if s != t then -1 else 1) * (m / n * 2 ^ (e - f)) := by
    rw [mul_div_mul_comm, ← zpow_sub₀ (by norm_num)]
    cases s <;> cases t <;> simp [signed, neg_div, div_neg]
  have habs : (m / n * 2 ^ (e - f) : ℚ) = |(signed s m * 2 ^ e / (signed t n * 2 ^ f) : ℚ)| := by
    rw [hquot, abs_mul, abs_of_pos hpos]
    split <;> simp
  have hsign : (s != t) = decide ((signed s m * 2 ^ e / (signed t n * 2 ^ f) : ℚ) < 0) := by
    rw [hquot]
    cases hst : s != t with
    | false => simpa using hpos.le
    | true => simpa using hpos
  show x.div y = z
  unfold div
  simp only [hxu, hyu, if_neg hn]
  rw [hsign]
  apply ofRatio_value hz (div_ne_zero hp hq) (scaleRatio_pos m (Nat.pos_of_ne_zero hn) (e - f))
  rw [scaleRatio_eq m (Nat.pos_of_ne_zero hn), habs]

theorem isFinite_of_value (hx : x.value? = some p) : x.isFinite = true := by
  obtain ⟨s, m, e, hxu, hc, -⟩ := exists_unpack hx
  unfold isFinite
  rw [(unpack_eq_finite hxu).2.2]
  exact decide_eq_true (pack_lt hc)

theorem isNaN_of_value (hx : x.value? = some p) : x.isNaN = false := by
  have hfin := of_decide_eq_true (isFinite_of_value hx)
  exact decide_eq_false (Nat.lt_asymm hfin)

theorem isZero_value (hx : x.value? = some p) : x.isZero = decide (p = 0) := by
  obtain ⟨s, m, e, hxu, hc, rfl⟩ := exists_unpack hx
  have hpow : (2 ^ e : ℚ) ≠ 0 := by positivity
  have hzero : pack m e = 0 ↔ m = 0 := by
    have hnormal := hc.normal
    have hlow := hc.low
    unfold pack
    rw [Nat.shiftLeft_eq]
    constructor
    · omega
    · intro hm
      rcases hnormal with he | hbig
      · rw [he, hm]
        simp
      · omega
  have hm : signed s m = 0 ↔ m = 0 := by cases s <;> simp [signed]
  unfold isZero
  rw [(unpack_eq_finite hxu).2.2, decide_eq_decide, hzero, mul_eq_zero_iff_right hpow,
    Int.cast_eq_zero, hm]

theorem trunc_value {n : Nat} (hx : x.value? = some (n : ℚ)) (hs : x.isNegative = false) :
    x.trunc = ofNat n := by
  obtain ⟨s, m, e, hxu, hc, hn⟩ := exists_unpack hx
  have hfalse : s = false := (unpack_eq_finite hxu).2.1.symm.trans hs
  subst hfalse
  have hden := scaleRatio_pos m Nat.one_pos e
  have hratio := scaleRatio_eq m Nat.one_pos e
  have hquot : (scaleRatio 2 m 1 e).1 / (scaleRatio 2 m 1 e).2 = n := by
    have hval : ((scaleRatio 2 m 1 e).1 / (scaleRatio 2 m 1 e).2 : ℚ) = n := by
      rw [hratio, hn]
      simp [signed]
    rw [← Nat.floor_div_eq_div (K := ℚ), hval, Nat.floor_natCast]
  unfold trunc
  simp only [hxu, hquot]
  rfl

theorem ofDyadic_zero (s : Bool) (e : Int) : ofDyadic s 0 e = zero s := by
  have hnum : (scaleRatio 2 0 1 e).1 = 0 := by
    unfold scaleRatio
    split <;> simp
  unfold ofDyadic ofRatio
  simp only [hnum, if_true]

/-- Remainders do not change when both numbers are written on a finer grid. -/
theorem mod_scaled {a b i j : Nat} {c : ℚ} (hc : 0 < c) (ha : a * c = i) (hb : b * c = j) :
    ((a % b : Nat) : ℚ) * c = (i % j : Nat) := by
  have hquot : a / b = i / j := by
    rw [← Nat.floor_div_eq_div (K := ℚ), ← Nat.floor_div_eq_div (K := ℚ), ← ha, ← hb,
      mul_div_mul_right _ _ hc.ne']
  have hab : ((b * (a / b) + a % b : Nat) : ℚ) = a := congrArg Nat.cast (Nat.div_add_mod a b)
  have hij : ((j * (i / j) + i % j : Nat) : ℚ) = i := congrArg Nat.cast (Nat.div_add_mod i j)
  rw [hquot] at hab
  push_cast at hab hij
  rw [← ha, ← hb] at hij
  linear_combination c * hab - hij

end Operations

section Naturals
variable {a b : Nat}

theorem ofNat_eq (a : Nat) : ofNat a = ofRatio false a 1 := by
  unfold ofNat ofInt
  rw [decide_eq_false (Int.not_lt.mpr (Int.natCast_nonneg a)), Int.natAbs_natCast]

theorem value?_ofNat (ha : a < 2 ^ 53) : (ofNat a).value? = some (a : ℚ) := by
  rcases Nat.eq_zero_or_pos a with rfl | hpos
  · rw [value?_of_unpack (show (ofNat 0).unpack = .finite false 0 minExponent by decide)]
    simp [signed]
  · have hratio : ((a : ℚ) / (1 : Nat)) = a * 2 ^ (0 : Int) := by simp
    rw [ofNat_eq, value?_ofRatio false hpos ha (by decide) (by decide) Nat.one_pos hratio]
    simp [signed]

theorem isNegative_ofNat (ha : a < 2 ^ 53) : (ofNat a).isNegative = false := by
  rcases Nat.eq_zero_or_pos a with rfl | hpos
  · decide
  · obtain ⟨m, e, hc, -, -, hx⟩ := exists_parts (value?_ofNat ha) (by exact_mod_cast hpos.ne')
    rw [hx, isNegative_ofMagnitude _ (pack_lt hc).le]
    exact decide_eq_false (not_lt.mpr (Nat.cast_nonneg a))

theorem ofNat_add (h : a + b < 2 ^ 53) : ofNat a + ofNat b = ofNat (a + b) := by
  have ha := value?_ofNat (a := a) (by omega)
  have hb := value?_ofNat (a := b) (by omega)
  have hab : (ofNat (a + b)).value? = some (a + b : ℚ) := by
    rw [value?_ofNat h, Nat.cast_add]
  rcases Nat.eq_zero_or_pos (a + b) with h0 | hpos
  · rw [Nat.eq_zero_of_add_eq_zero_right h0, Nat.eq_zero_of_add_eq_zero_left h0]
    decide
  · apply add_value ha hb hab
    exact_mod_cast hpos.ne'

theorem ofNat_lt (ha : a < 2 ^ 53) (hb : b < 2 ^ 53) : (ofNat a).lt (ofNat b) = decide (a < b) := by
  rw [lt_value (value?_ofNat ha) (value?_ofNat hb), decide_eq_decide, Nat.cast_lt]

/-- Half of a natural number, which need not be one. -/
theorem value?_half (hb : b < 2 ^ 53) : (ofNat b / ofNat 2).value? = some (b / 2 : ℚ) := by
  rcases Nat.eq_zero_or_pos b with rfl | hpos
  · rw [show ofNat 0 / ofNat 2 = ofNat 0 by decide, value?_ofNat (by decide)]
    simp
  · have hratio : ((b : ℚ) / (2 : Nat)) = b * 2 ^ (-1 : Int) := by
      rw [zpow_neg_one, div_eq_mul_inv, Nat.cast_ofNat]
    have hval : (ofRatio false b 2).value? = some (b / (2 : Nat) : ℚ) := by
      rw [value?_ofRatio false hpos hb (by decide) (by decide) Nat.two_pos hratio, hratio]
      simp [signed]
    have hne : (b : ℚ) ≠ 0 := by exact_mod_cast hpos.ne'
    rw [div_value (value?_ofNat hb) (value?_ofNat (by decide)) hval hne (by norm_num), hval,
      Nat.cast_ofNat]

theorem ofNat_lt_half (ha : a < 2 ^ 53) (hb : b < 2 ^ 53) :
    (ofNat a).lt (ofNat b / ofNat 2) = decide (2 * a < b) := by
  rw [lt_value (value?_ofNat ha) (value?_half hb), decide_eq_decide, lt_div_iff₀ two_pos, mul_comm]
  exact_mod_cast Iff.rfl

theorem isTrue_ofNat (ha : a < 2 ^ 53) : (Value.number (ofNat a)).isTrue = decide (a ≠ 0) := by
  have hval := value?_ofNat ha
  show (!(ofNat a).isZero && !(ofNat a).isNaN) = decide (a ≠ 0)
  rw [isZero_value hval, isNaN_of_value hval]
  simp

theorem ofNat_rem (ha : a < 2 ^ 53) (hb : b < 2 ^ 53) (h0 : b ≠ 0) :
    (ofNat a).rem (ofNat b) = ofNat (a % b) := by
  have hmod := value?_ofNat (Nat.lt_of_le_of_lt (Nat.mod_le a b) ha)
  obtain ⟨s, m, e, t, n, f, k, l, g, hxu, hyu, halign, hk, hl⟩ :=
    exists_align (value?_ofNat ha) (value?_ofNat hb)
  have hs : s = false := (unpack_eq_finite hxu).2.1.symm.trans (isNegative_ofNat ha)
  have ht : t = false := (unpack_eq_finite hyu).2.1.symm.trans (isNegative_ofNat hb)
  have hn : n ≠ 0 := by
    have hval := Option.some.inj ((value?_of_unpack hyu).symm.trans (value?_ofNat hb))
    apply ne_zero_of_value (s := t) (e := f)
    rw [hval]
    exact_mod_cast h0
  subst hs ht
  have hrest : ((k % l : Nat) : ℚ) * 2 ^ g = (a % b : Nat) :=
    mod_scaled (by positivity) (by simpa [signed] using hk.symm) (by simpa [signed] using hl.symm)
  unfold rem
  simp only [hxu, hyu, halign, if_neg hn]
  rw [← hrest] at hmod
  rcases Nat.eq_zero_or_pos (k % l) with hzero | hpos
  · have hab : a % b = 0 := by
      rw [hzero, Nat.cast_zero, zero_mul] at hrest
      exact_mod_cast hrest.symm
    rw [hzero, hab, ofDyadic_zero]
    decide
  · have hint : ((k % l : Nat) : Int) ≠ 0 := by omega
    have hround := ofDyadic_value (i := (k % l : Nat)) (by exact_mod_cast hmod) hint
    rwa [decide_eq_false (Int.not_lt.mpr (Int.natCast_nonneg _)), Int.natAbs_natCast] at hround

theorem ofNat_floorMod (ha : a < 2 ^ 53) (hb : b < 2 ^ 53) (h0 : b ≠ 0) :
    (ofNat a).floorMod (ofNat b) = ofNat (a % b) := by
  have hva := value?_ofNat ha
  have hvb := value?_ofNat hb
  have hmod := Nat.lt_of_le_of_lt (Nat.mod_le a b) ha
  have hb0 : (ofNat b).isZero = false := by
    rw [isZero_value hvb]
    exact decide_eq_false (by exact_mod_cast h0)
  unfold floorMod
  simp only [isFinite_of_value hva, isFinite_of_value hvb, trunc_value hva (isNegative_ofNat ha),
    trunc_value hvb (isNegative_ofNat hb), hb0, ofNat_rem ha hb h0, isNegative_ofNat hb,
    isNegative_ofNat hmod, bne_self_eq_false, Bool.and_false, Bool.not_true, Bool.or_self,
    Bool.false_eq_true, if_false]

end Naturals

end Number
end Scriptlet
