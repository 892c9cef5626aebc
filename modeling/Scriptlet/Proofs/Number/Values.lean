import Mathlib
import Scriptlet.Number.Arithmetic

/-! The exact values of finite numbers. Rounding gives every number back from its value. -/
namespace Scriptlet

/-- A whole number is not rounded. -/
theorem roundHalfEven_mul (m : Nat) {d : Nat} (hd : 0 < d) : roundHalfEven (m * d) d = m := by
  unfold roundHalfEven
  simp only [Nat.mul_mod_left, Nat.mul_zero, Nat.mul_div_cancel m hd, if_pos hd]

section Scaling
variable {base den : Nat}

theorem scaleRatio_base_pos (hbase : 0 < base) (num : Nat) (hden : 0 < den) (e : Int) :
    0 < (scaleRatio base num den e).2 := by
  unfold scaleRatio
  split
  · exact hden
  · exact Nat.mul_pos hden (Nat.pow_pos hbase)

/-- Scaling multiplies the ratio by a power of the base. -/
theorem scaleRatio_base_eq (hbase : 0 < base) (num : Nat) (hden : 0 < den) (e : Int) :
    ((scaleRatio base num den e).1 : ℚ) / (scaleRatio base num den e).2 =
      num / den * (base : ℚ) ^ e := by
  unfold scaleRatio
  split
  · next he =>
    obtain ⟨k, rfl⟩ := Int.eq_ofNat_of_zero_le he
    simp only [Int.toNat_natCast, Nat.pow_eq, zpow_natCast, Nat.cast_mul, Nat.cast_pow]
    ring
  · next he =>
    obtain ⟨k, hk⟩ := Int.eq_ofNat_of_zero_le (show 0 ≤ -e by omega)
    obtain rfl : e = -(k : Int) := by omega
    have hd : (den : ℚ) ≠ 0 := by positivity
    have hb : (base : ℚ) ≠ 0 := by positivity
    simp only [neg_neg, Int.toNat_natCast, Nat.pow_eq, zpow_neg, zpow_natCast, Nat.cast_mul, Nat.cast_pow]
    field_simp

theorem scaleRatio_pos (num : Nat) (hden : 0 < den) (e : Int) : 0 < (scaleRatio 2 num den e).2 :=
  scaleRatio_base_pos (by decide) num hden e

theorem scaleRatio_eq (num : Nat) (hden : 0 < den) (e : Int) :
    ((scaleRatio 2 num den e).1 : ℚ) / (scaleRatio 2 num den e).2 = num / den * 2 ^ e :=
  scaleRatio_base_eq (by decide) num hden e

end Scaling

namespace Number

/-- The significands and exponents of finite numbers: the exponent is the least for which the
significand has room. -/
structure Canonical (m : Nat) (e : Int) : Prop where
  small : m < 2 ^ 53
  low : minExponent ≤ e
  high : e ≤ 971
  normal : e = minExponent ∨ 2 ^ 52 ≤ m

/-- The bits below the sign of a finite number. -/
def pack (m : Nat) (e : Int) : Nat := (e - minExponent).toNat <<< 52 + m

section Bits

theorem pack_lt {m : Nat} {e : Int} (h : Canonical m e) : pack m e < infinityBits := by
  obtain ⟨small, low, high, -⟩ := h
  simp only [pack, infinityBits, minExponent, Nat.shiftLeft_eq] at *
  omega

theorem toNat_bits_ofMagnitude (s : Bool) {k : Nat} (hk : k ≤ infinityBits) :
    (ofMagnitude s k).bits.toNat = (if s then 2 ^ 63 else 0) + k := by
  have hmin : min k infinityBits = k := Nat.min_eq_left hk
  have hinf : infinityBits < 2 ^ 63 := by decide
  unfold ofMagnitude
  rw [hmin]
  cases s with
  | false => exact UInt64.toNat_ofNat_of_lt' (show 0 + k < 2 ^ 64 by omega)
  | true => exact UInt64.toNat_ofNat_of_lt' (show 2 ^ 63 + k < 2 ^ 64 by omega)

theorem magnitude_ofMagnitude (s : Bool) {k : Nat} (hk : k ≤ infinityBits) :
    (ofMagnitude s k).magnitude = k := by
  have hinf : infinityBits < 2 ^ 63 := by decide
  unfold magnitude
  rw [toNat_bits_ofMagnitude s hk]
  cases s with
  | false => exact (congrArg (· % 2 ^ 63) (Nat.zero_add k)).trans (Nat.mod_eq_of_lt (by omega))
  | true => exact (Nat.add_mod_left (2 ^ 63) k).trans (Nat.mod_eq_of_lt (by omega))

theorem isNegative_ofMagnitude (s : Bool) {k : Nat} (hk : k ≤ infinityBits) :
    (ofMagnitude s k).isNegative = s := by
  have hinf : infinityBits < 2 ^ 63 := by decide
  have hone : 1 <<< 63 = 2 ^ 63 := rfl
  unfold isNegative
  rw [toNat_bits_ofMagnitude s hk, hone]
  cases s with
  | false => exact decide_eq_false (by simp; omega)
  | true => exact decide_eq_true (by simp)

/-- A number is its sign and the bits below it. -/
theorem ofMagnitude_magnitude {x : Number} (hx : x.magnitude ≤ infinityBits) :
    ofMagnitude x.isNegative x.magnitude = x := by
  have hbits := toNat_bits_ofMagnitude x.isNegative hx
  have hsize := x.bits.toNat_lt
  have hone : 1 <<< 63 = 2 ^ 63 := rfl
  have hx' : (if x.isNegative then 2 ^ 63 else 0) + x.magnitude = x.bits.toNat := by
    unfold isNegative magnitude
    rw [hone]
    by_cases h : 2 ^ 63 ≤ x.bits.toNat
    · simp only [decide_eq_true h, if_true]
      omega
    · simp only [decide_eq_false h, Bool.false_eq_true, if_false]
      omega
  rw [hx'] at hbits
  cases x
  exact congrArg Number.mk (UInt64.toNat_inj.mp hbits)

/-- A finite number is packed from its parts, which are canonical. -/
theorem unpack_eq_finite {x : Number} {s : Bool} {m : Nat} {e : Int}
    (h : x.unpack = .finite s m e) :
    Canonical m e ∧ x.isNegative = s ∧ x.magnitude = pack m e := by
  have hmag : x.magnitude < 2 ^ 63 := Nat.mod_lt _ (by decide)
  have hone : 1 <<< 52 = 2 ^ 52 := rfl
  have hfield : x.magnitude >>> 52 = x.magnitude / 2 ^ 52 := Nat.shiftRight_eq_div_pow _ _
  unfold unpack at h
  simp only [hone, hfield] at h
  unfold pack
  rw [Nat.shiftLeft_eq]
  split at h
  · split at h <;> cases h
  · next hinf =>
    split at h
    · next hzero =>
      cases h
      have hcanon : Canonical (x.magnitude % 2 ^ 52) minExponent :=
        ⟨by omega, le_rfl, by decide, .inl rfl⟩
      exact ⟨hcanon, rfl, by omega⟩
    · next hzero =>
      cases h
      have hexp : (minExponent + ((x.magnitude / 2 ^ 52 - 1 : Nat) : Int) - minExponent).toNat =
          x.magnitude / 2 ^ 52 - 1 := by omega
      refine ⟨⟨by omega, by omega, ?_, .inr (by omega)⟩, rfl, ?_⟩
      · unfold minExponent
        omega
      · rw [hexp]
        omega

theorem unpack_of_magnitude {x : Number} {m : Nat} {e : Int} (h : Canonical m e)
    (hx : x.magnitude = pack m e) : x.unpack = .finite x.isNegative m e := by
  obtain ⟨small, low, high, normal⟩ := h
  have hone : 1 <<< 52 = 2 ^ 52 := rfl
  have hfield : x.magnitude >>> 52 = x.magnitude / 2 ^ 52 := Nat.shiftRight_eq_div_pow _ _
  unfold unpack
  simp only [hone, hfield]
  unfold pack at hx
  rw [Nat.shiftLeft_eq] at hx
  obtain ⟨k, rfl⟩ := Int.le.dest low
  have hk : (minExponent + (k : Int) - minExponent).toNat = k := by omega
  have hmin : minExponent = -1074 := rfl
  rw [hk] at hx
  by_cases hm : m < 2 ^ 52
  · obtain rfl : k = 0 := by omega
    have hdiv : x.magnitude / 2 ^ 52 = 0 := by omega
    have hmod : x.magnitude % 2 ^ 52 = m := by omega
    rw [hdiv, hmod, if_neg (by decide), if_pos rfl]
    simp
  · have hdiv : x.magnitude / 2 ^ 52 = k + 1 := by omega
    have hmod : 2 ^ 52 + x.magnitude % 2 ^ 52 = m := by omega
    have hlt : ¬ k + 1 = 0x7ff := by omega
    have hpos : ¬ k + 1 = 0 := by omega
    rw [hdiv, if_neg hlt, if_neg hpos, hmod, Nat.add_sub_cancel]

/-- Packing and unpacking lose nothing. -/
theorem unpack_ofMagnitude (s : Bool) {m : Nat} {e : Int} (h : Canonical m e) :
    (ofMagnitude s (pack m e)).unpack = .finite s m e := by
  have hle := (pack_lt h).le
  have hx := unpack_of_magnitude h (magnitude_ofMagnitude s hle)
  rwa [isNegative_ofMagnitude s hle] at hx

theorem eq_ofMagnitude {x : Number} {s : Bool} {m : Nat} {e : Int} (h : x.unpack = .finite s m e) :
    x = ofMagnitude s (pack m e) := by
  obtain ⟨hc, hs, hm⟩ := unpack_eq_finite h
  rw [← hs, ← hm]
  exact (ofMagnitude_magnitude (hm ▸ (pack_lt hc).le)).symm

end Bits

section Grid

/-- The exponent of the grid on which the numbers next to `q` lie. -/
structure OnGrid (q : ℚ) (g : Int) : Prop where
  low : minExponent ≤ g
  above : q < 2 ^ (g + 53)
  below : g = minExponent ∨ 2 ^ (g + 52) ≤ q

theorem OnGrid.unique {q : ℚ} {g g' : Int} (h : OnGrid q g) (h' : OnGrid q g') : g = g' := by
  -- a coarser grid would start above the numbers of the finer one
  have hle : ∀ {a b : Int}, OnGrid q a → OnGrid q b → a ≤ b := by
    intro a b ha hb
    rcases ha.below with hmin | hpow
    · rw [hmin]
      exact hb.low
    · have hlt : (2 : ℚ) ^ (a + 52) < 2 ^ (b + 53) := hpow.trans_lt hb.above
      have := (zpow_lt_zpow_iff_right₀ (by norm_num : (1 : ℚ) < 2)).mp hlt
      omega
  exact le_antisymm (hle h h') (hle h' h)

theorem Canonical.onGrid {m : Nat} {e : Int} (h : Canonical m e) : OnGrid (m * 2 ^ e) e := by
  have hpos : (0 : ℚ) < 2 ^ e := by positivity
  refine ⟨h.low, ?_, h.normal.imp_right fun hm => ?_⟩
  · have hm : (m : ℚ) < 2 ^ 53 := by exact_mod_cast h.small
    rw [zpow_add₀ (by norm_num), mul_comm]
    exact mul_lt_mul_of_pos_left hm hpos
  · have hm' : (2 : ℚ) ^ 52 ≤ m := by exact_mod_cast hm
    rw [zpow_add₀ (by norm_num), mul_comm]
    exact mul_le_mul_of_nonneg_right hm' hpos.le

/-- A ratio lies within the powers of two that the lengths of its parts allow. -/
theorem ratio_bounds {num den : Nat} (hn : 0 < num) (hd : 0 < den) :
    (2 : ℚ) ^ ((num.log2 : Int) - den.log2 - 1) < num / den ∧
      (num / den : ℚ) < 2 ^ ((num.log2 : Int) - den.log2 + 1) := by
  have hdq : (0 : ℚ) < den := by exact_mod_cast hd
  have hnl : (2 : ℚ) ^ (num.log2 : Int) ≤ num := by exact_mod_cast Nat.log2_self_le hn.ne'
  have hnu : (num : ℚ) < 2 ^ ((num.log2 : Int) + 1) := by exact_mod_cast Nat.lt_log2_self (n := num)
  have hdl : (2 : ℚ) ^ (den.log2 : Int) ≤ den := by exact_mod_cast Nat.log2_self_le hd.ne'
  have hdu : (den : ℚ) < 2 ^ ((den.log2 : Int) + 1) := by exact_mod_cast Nat.lt_log2_self (n := den)
  constructor
  · rw [lt_div_iff₀ hdq]
    calc (2 : ℚ) ^ ((num.log2 : Int) - den.log2 - 1) * den
        < 2 ^ ((num.log2 : Int) - den.log2 - 1) * 2 ^ ((den.log2 : Int) + 1) := by gcongr
      _ = 2 ^ (num.log2 : Int) := by rw [← zpow_add₀ (by norm_num)]; congr 1; ring
      _ ≤ num := hnl
  · rw [div_lt_iff₀ hdq]
    calc (num : ℚ) < 2 ^ ((num.log2 : Int) + 1) := hnu
      _ = 2 ^ ((num.log2 : Int) - den.log2 + 1) * 2 ^ (den.log2 : Int) := by
        rw [← zpow_add₀ (by norm_num)]; congr 1; ring
      _ ≤ 2 ^ ((num.log2 : Int) - den.log2 + 1) * den := by gcongr

/-- The grid exponent that is computed is the right one. -/
theorem onGrid_gridExponent {num den : Nat} (hn : 0 < num) (hd : 0 < den) :
    OnGrid (num / den) (gridExponent num den) := by
  obtain ⟨hlow, hhigh⟩ := ratio_bounds hn hd
  have htwo : (1 : ℚ) < 2 := by norm_num
  unfold gridExponent
  dsimp only
  generalize he : max minExponent ((num.log2 : Int) - den.log2 - 53) = e
  have hscaled := scaleRatio_eq num hd (-e)
  have hpos : (0 : ℚ) < (scaleRatio 2 num den (-e)).2 := by
    exact_mod_cast scaleRatio_pos num hd (-e)
  -- what the comparison decides
  have hiff : (scaleRatio 2 num den (-e)).2 <<< 53 ≤ (scaleRatio 2 num den (-e)).1 ↔
      (2 : ℚ) ^ (e + 53) ≤ num / den := by
    rw [Nat.shiftLeft_eq, mul_comm, ← Nat.cast_le (α := ℚ), Nat.cast_mul, ← le_div_iff₀ hpos, hscaled,
      zpow_neg, ← div_eq_mul_inv, le_div_iff₀ (by positivity), zpow_add₀ (by norm_num), mul_comm]
    norm_cast
  by_cases hup : (2 : ℚ) ^ (e + 53) ≤ num / den
  · rw [if_pos (hiff.mpr hup)]
    refine ⟨by omega, ?_, .inr ?_⟩
    · apply hhigh.trans_le
      rw [zpow_le_zpow_iff_right₀ htwo]
      omega
    · have hexp : e + 1 + 52 = e + 53 := by ring
      rwa [hexp]
  · rw [if_neg (hiff.not.mpr hup)]
    refine ⟨by omega, not_le.mp hup, ?_⟩
    by_cases hmin : e = minExponent
    · exact .inl hmin
    · right
      apply le_of_lt
      apply lt_of_le_of_lt _ hlow
      rw [zpow_le_zpow_iff_right₀ htwo]
      omega

/-- A ratio that is the value of a number is rounded to that number. -/
theorem ofRatio_exact (s : Bool) {num den m : Nat} {e : Int} (hc : Canonical m e) (hm : 0 < m)
    (hd : 0 < den) (h : (num / den : ℚ) = m * 2 ^ e) :
    ofRatio s num den = ofMagnitude s (pack m e) := by
  have hval : (0 : ℚ) < m * 2 ^ e := by positivity
  have hn : 0 < num := by
    apply Nat.pos_of_ne_zero
    intro hzero
    rw [hzero, Nat.cast_zero, zero_div] at h
    exact hval.ne h
  have hgrid : gridExponent num den = e := by
    have hg := onGrid_gridExponent hn hd
    rw [h] at hg
    exact hg.unique hc.onGrid
  have hpos := scaleRatio_pos num hd (-e)
  have hround : roundHalfEven (scaleRatio 2 num den (-e)).1 (scaleRatio 2 num den (-e)).2 = m := by
    have hscaled := scaleRatio_eq num hd (-e)
    have hposq : ((scaleRatio 2 num den (-e)).2 : ℚ) ≠ 0 := by exact_mod_cast hpos.ne'
    rw [h, zpow_neg, mul_assoc, mul_inv_cancel₀ (by positivity), mul_one, div_eq_iff hposq] at hscaled
    have hnat : (scaleRatio 2 num den (-e)).1 = m * (scaleRatio 2 num den (-e)).2 := by
      exact_mod_cast hscaled
    rw [hnat, roundHalfEven_mul m hpos]
  unfold ofRatio
  rw [if_neg hn.ne']
  simp only [hgrid, hround]
  rfl

end Grid

section Value
variable {x y : Number} {q : ℚ}

/-- The exact value of a finite number. -/
def value? (x : Number) : Option ℚ :=
  match x.unpack with
  | .finite s m e => some (signed s m * 2 ^ e)
  | _ => none

theorem value?_of_unpack {s : Bool} {m : Nat} {e : Int} (h : x.unpack = .finite s m e) :
    x.value? = some ((signed s m : ℚ) * 2 ^ e) := by
  simp only [value?, h]

theorem exists_unpack (h : x.value? = some q) :
    ∃ s m e, x.unpack = .finite s m e ∧ Canonical m e ∧ q = signed s m * 2 ^ e := by
  unfold value? at h
  split at h
  · next s m e hx => exact ⟨s, m, e, hx, (unpack_eq_finite hx).1, (Option.some.inj h).symm⟩
  · cases h

theorem abs_signed (s : Bool) (m : Nat) : |((signed s m : Int) : ℚ)| = m := by
  cases s <;> simp [signed]

theorem mul_zpow_neg_iff (i e : Int) : (i * 2 ^ e : ℚ) < 0 ↔ i < 0 := by
  have hpow : (0 : ℚ) < 2 ^ e := by positivity
  rw [mul_neg_iff]
  constructor
  · rintro (⟨_, h⟩ | ⟨h, _⟩)
    · exact absurd hpow h.not_gt
    · exact_mod_cast h
  · intro h
    exact .inr ⟨by exact_mod_cast h, hpow⟩

theorem signed_neg_iff {s : Bool} {m : Nat} (hm : 0 < m) : signed s m < 0 ↔ s = true := by
  cases s <;> simp [signed, hm]

/-- The parts of a number whose value is not zero. -/
theorem exists_parts (h : x.value? = some q) (hq : q ≠ 0) :
    ∃ m e, Canonical m e ∧ 0 < m ∧ |q| = m * 2 ^ e ∧ x = ofMagnitude (q < 0) (pack m e) := by
  obtain ⟨s, m, e, hx, hc, rfl⟩ := exists_unpack h
  have hpow : (0 : ℚ) < 2 ^ e := by positivity
  have hm : 0 < m := by
    apply Nat.pos_of_ne_zero
    rintro rfl
    apply hq
    cases s <;> simp [signed]
  have hsign : decide ((signed s m : ℚ) * 2 ^ e < 0) = s := by
    rw [Bool.eq_iff_iff, decide_eq_true_iff, mul_zpow_neg_iff, signed_neg_iff hm]
  refine ⟨m, e, hc, hm, ?_, ?_⟩
  · rw [abs_mul, abs_signed, abs_of_pos hpow]
  · rw [hsign]
    exact eq_ofMagnitude hx

/-- Rounding gives a number back from its value, however the value is written as a ratio. -/
theorem ofRatio_value {num den : Nat} (h : x.value? = some q) (hq : q ≠ 0) (hd : 0 < den)
    (hr : (num / den : ℚ) = |q|) : ofRatio (q < 0) num den = x := by
  obtain ⟨m, e, hc, hm, habs, hx⟩ := exists_parts h hq
  rw [hx]
  exact ofRatio_exact _ hc hm hd (hr.trans habs)

theorem ofDyadic_value {i : Int} {e : Int} (h : x.value? = some ((i : ℚ) * 2 ^ e)) (hi : i ≠ 0) :
    ofDyadic (i < 0) i.natAbs e = x := by
  have hpow : (0 : ℚ) < 2 ^ e := by positivity
  have hq : (i * 2 ^ e : ℚ) ≠ 0 := mul_ne_zero (by exact_mod_cast hi) hpow.ne'
  have hsign : decide (i < 0) = decide ((i * 2 ^ e : ℚ) < 0) :=
    decide_eq_decide.mpr (mul_zpow_neg_iff i e).symm
  have hratio := scaleRatio_eq i.natAbs Nat.one_pos e
  have habs : ((i.natAbs : ℚ) / (1 : Nat)) * 2 ^ e = |(i * 2 ^ e : ℚ)| := by
    rw [abs_mul, abs_of_pos hpow, Nat.cast_one, div_one, Nat.cast_natAbs, Int.cast_abs]
  unfold ofDyadic
  rw [hsign]
  exact ofRatio_value h hq (scaleRatio_pos i.natAbs Nat.one_pos e) (hratio.trans habs)

/-- Integers of up to fifty-three bits, times a power of two that is not extreme, are the values of
numbers. -/
theorem exists_canonical {n : Nat} {f : Int} (hn : 0 < n) (hlt : n < 2 ^ 53)
    (hlow : minExponent ≤ f) (hhigh : f ≤ 971) :
    ∃ m e, Canonical m e ∧ 0 < m ∧ (n : ℚ) * 2 ^ f = m * 2 ^ e := by
  have hlog : n.log2 ≤ 52 := Nat.lt_succ_iff.mp ((Nat.log2_lt hn.ne').mpr hlt)
  -- the significand is moved up as far as there is room and the exponent allows
  obtain ⟨k, hroom, hdown, hleast⟩ : ∃ k : Nat, n.log2 + k ≤ 52 ∧ minExponent ≤ f - k ∧
      (f - k = minExponent ∨ n.log2 + k = 52) :=
    ⟨min (52 - n.log2) (f - minExponent).toNat, by omega, by omega, by omega⟩
  have hsplit : (n : ℚ) * 2 ^ f = (n * 2 ^ k : Nat) * 2 ^ (f - k) := by
    push_cast
    rw [mul_assoc, ← zpow_natCast, ← zpow_add₀ (by norm_num)]
    congr 2
    ring
  refine ⟨n * 2 ^ k, f - k, ⟨?_, hdown, by omega, hleast.imp_right fun hfull => ?_⟩, by positivity,
    hsplit⟩
  · calc n * 2 ^ k < 2 ^ (n.log2 + 1) * 2 ^ k :=
        Nat.mul_lt_mul_of_pos_right Nat.lt_log2_self (by positivity)
      _ = 2 ^ (n.log2 + 1 + k) := (Nat.pow_add 2 _ k).symm
      _ ≤ 2 ^ 53 := Nat.pow_le_pow_right (by decide) (by omega)
  · calc 2 ^ 52 = 2 ^ n.log2 * 2 ^ k := by rw [← Nat.pow_add, hfull]
      _ ≤ n * 2 ^ k := Nat.mul_le_mul_right _ (Nat.log2_self_le hn.ne')

theorem value?_ofRatio (s : Bool) {n num den : Nat} {f : Int} (hn : 0 < n) (hlt : n < 2 ^ 53)
    (hlow : minExponent ≤ f) (hhigh : f ≤ 971) (hd : 0 < den) (h : (num / den : ℚ) = n * 2 ^ f) :
    (ofRatio s num den).value? = some ((signed s n : ℚ) * 2 ^ f) := by
  obtain ⟨m, e, hc, hm, hvalue⟩ := exists_canonical hn hlt hlow hhigh
  rw [ofRatio_exact s hc hm hd (h.trans hvalue), value?_of_unpack (unpack_ofMagnitude s hc)]
  congr 1
  cases s with
  | false => simpa [signed] using hvalue.symm
  | true => simpa [signed] using hvalue.symm

end Value

end Number
end Scriptlet
