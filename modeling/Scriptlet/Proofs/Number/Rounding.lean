import Scriptlet.Proofs.Number.Values

/-! Where rounding leads: to one of the two neighbours on the grid, and beyond no number that bounds
the ratio. -/
namespace Scriptlet

section Integers
variable {num den k : Nat}

theorem roundHalfEven_le (hd : 0 < den) (h : num ≤ k * den) : roundHalfEven num den ≤ k := by
  have hdiv := Nat.div_add_mod num den
  have hmod := Nat.mod_lt num hd
  have hquot : num / den ≤ k := Nat.div_le_of_le_mul (by rwa [Nat.mul_comm])
  unfold roundHalfEven
  dsimp only
  rcases hquot.lt_or_eq with hlt | heq
  · split_ifs <;> omega
  · have hrest : num % den = 0 := by
      rw [heq, Nat.mul_comm] at hdiv
      omega
    rw [hrest, if_pos (by omega), heq]

theorem le_roundHalfEven (hd : 0 < den) (h : k * den ≤ num) : k ≤ roundHalfEven num den := by
  have hquot : k ≤ num / den := (Nat.le_div_iff_mul_le hd).mpr h
  unfold roundHalfEven
  dsimp only
  split_ifs <;> omega

end Integers

namespace Number

variable {num den m : Nat} {e : Int}

theorem pack_carry {g : Int} (hg : minExponent ≤ g) : pack (2 ^ 53) g = pack (2 ^ 52) (g + 1) := by
  have hnext : (g + 1 - minExponent).toNat = (g - minExponent).toNat + 1 := by omega
  unfold pack
  rw [hnext, Nat.shiftLeft_eq, Nat.shiftLeft_eq]
  omega

theorem ofRatio_eq_pack (s : Bool) (den : Nat) (hn : num ≠ 0) :
    ofRatio s num den = ofMagnitude s (pack
      (roundHalfEven (scaleRatio 2 num den (-gridExponent num den)).1
        (scaleRatio 2 num den (-gridExponent num den)).2) (gridExponent num den)) := by
  unfold ofRatio pack
  rw [if_neg hn]

theorem zpow_add_nat (g : Int) (n : Nat) : (2 : ℚ) ^ (g + n) = (2 ^ n : Nat) * 2 ^ g := by
  rw [zpow_add₀ (by norm_num), zpow_natCast, mul_comm]
  push_cast
  rfl

/-- A positive ratio that does not exceed some number is rounded to a number, which lies on the grid of
the ratio and next to it. -/
theorem exists_rounded (s : Bool) (hc : Canonical m e) (hn : 0 < num) (hd : 0 < den)
    (hle : (num / den : ℚ) ≤ m * 2 ^ e) :
    ∃ (k : Nat) (g : Int), OnGrid (num / den) g ∧
      (∀ n : Nat, (num / den : ℚ) ≤ n * 2 ^ g → k ≤ n) ∧
      (∀ n : Nat, (n * 2 ^ g : ℚ) ≤ num / den → n ≤ k) ∧
      (ofRatio s num den).value? = some ((signed s k : ℚ) * 2 ^ g) := by
  have hgrid := onGrid_gridExponent hn hd
  have hresult := ofRatio_eq_pack s den hn.ne'
  generalize gridExponent num den = g at hgrid hresult
  have hpow : (0 : ℚ) < 2 ^ g := by positivity
  have hpos := scaleRatio_pos num hd (-g)
  have hposq : (0 : ℚ) < (scaleRatio 2 num den (-g)).2 := by exact_mod_cast hpos
  have hscaled : ((scaleRatio 2 num den (-g)).1 : ℚ) / (scaleRatio 2 num den (-g)).2 =
      num / den / 2 ^ g := by
    rw [scaleRatio_eq num hd, zpow_neg, div_eq_mul_inv (num / den : ℚ)]
  have hup (n : Nat) (h : (num / den : ℚ) ≤ n * 2 ^ g) :
      roundHalfEven (scaleRatio 2 num den (-g)).1 (scaleRatio 2 num den (-g)).2 ≤ n := by
    apply roundHalfEven_le hpos
    rw [← div_le_iff₀ hpow, ← hscaled, div_le_iff₀ hposq] at h
    exact_mod_cast h
  have hdown (n : Nat) (h : (n * 2 ^ g : ℚ) ≤ num / den) :
      n ≤ roundHalfEven (scaleRatio 2 num den (-g)).1 (scaleRatio 2 num den (-g)).2 := by
    apply le_roundHalfEven hpos
    rw [← le_div_iff₀ hpow, ← hscaled, le_div_iff₀ hposq] at h
    exact_mod_cast h
  generalize roundHalfEven (scaleRatio 2 num den (-g)).1 (scaleRatio 2 num den (-g)).2 = k
    at hresult hup hdown
  refine ⟨k, g, hgrid, hup, hdown, ?_⟩
  have hsmall : k ≤ 2 ^ 53 := by
    apply hup
    rw [← zpow_add_nat]
    exact hgrid.above.le
  have hnormal : g = minExponent ∨ 2 ^ 52 ≤ k := by
    refine hgrid.below.imp_right fun hbelow => hdown _ ?_
    rw [← zpow_add_nat]
    exact hbelow
  have hbound : g ≤ e := by
    rcases hgrid.below with hmin | hbelow
    · rw [hmin]
      exact hc.low
    · have hlt : (2 : ℚ) ^ (g + 52) < 2 ^ (e + 53) := (hbelow.trans hle).trans_lt hc.onGrid.above
      have := (zpow_lt_zpow_iff_right₀ (by norm_num : (1 : ℚ) < 2)).mp hlt
      omega
  have hhigh := hc.high
  have hlow := hgrid.low
  rcases hsmall.lt_or_eq with hlt | rfl
  · have hk : Canonical k g := ⟨hlt, hlow, by omega, hnormal⟩
    rw [hresult, value?_of_unpack (unpack_ofMagnitude s hk)]
  · have hne : g ≠ e := by
      rintro rfl
      exact absurd (hup m hle) (not_le.mpr hc.small)
    have hk : Canonical (2 ^ 52) (g + 1) := ⟨by norm_num, by omega, by omega, .inr le_rfl⟩
    rw [hresult, pack_carry hlow, value?_of_unpack (unpack_ofMagnitude s hk)]
    congr 1
    rw [zpow_add₀ (by norm_num)]
    cases s <;> norm_num [signed] <;> ring

/-- An integer is rounded to an integer, and is not rounded at all unless it is long. -/
theorem exists_rounded_integer (s : Bool) {c : Nat} (hc : Canonical m e) (hpos : 0 < c)
    (hd : 0 < den) (hratio : (num / den : ℚ) = c) (hle : (c : ℚ) ≤ m * 2 ^ e) :
    ∃ k : Nat, 0 < k ∧ (c ≤ 2 ^ 53 → k = c) ∧
      (ofRatio s num den).value? = some (signed s k : ℚ) := by
  have hn : 0 < num := by
    apply Nat.pos_of_ne_zero
    rintro rfl
    rw [Nat.cast_zero, zero_div] at hratio
    exact hpos.ne (by exact_mod_cast hratio)
  obtain ⟨k, g, hgrid, hup, hdown, hvalue⟩ := exists_rounded s hc hn hd (hratio ▸ hle)
  rw [hratio] at hgrid hup hdown
  have hexact {n : Nat} (h : (c : ℚ) = n * 2 ^ g) : k = n :=
    le_antisymm (hup n h.le) (hdown n h.ge)
  by_cases hg : 0 < g
  · have hbelow : (2 : ℚ) ^ (g + 52) ≤ c := hgrid.below.resolve_left (by unfold minExponent; omega)
    obtain ⟨j, rfl⟩ := Int.eq_ofNat_of_zero_le hg.le
    have hk : 2 ^ 52 ≤ k := by
      apply hdown
      rw [← zpow_add_nat]
      exact hbelow
    refine ⟨k * 2 ^ j, by positivity, fun hshort => ?_, ?_⟩
    · have hle : 2 ^ (j + 52) ≤ c := by exact_mod_cast hbelow
      have hj : j + 52 < 54 :=
        (Nat.pow_lt_pow_iff_right (by decide)).mp (hle.trans_lt (hshort.trans_lt (by norm_num)))
      obtain rfl : j = 1 := by omega
      obtain rfl : c = 2 ^ 53 := le_antisymm hshort hle
      rw [hexact (n := 2 ^ 52) (by norm_num)]
      norm_num
    · rw [hvalue]
      cases s <;> simp [signed]
  · obtain ⟨j, hj⟩ := Int.eq_ofNat_of_zero_le (show 0 ≤ -g by omega)
    obtain rfl : g = -(j : Int) := by omega
    have hscaled : (c : ℚ) = (c * 2 ^ j : Nat) * 2 ^ (-(j : Int)) := by
      push_cast
      rw [zpow_neg, zpow_natCast]
      field_simp
    refine ⟨c, hpos, fun _ => rfl, ?_⟩
    rw [hvalue, hexact hscaled]
    cases s <;> simp [signed]

end Number
end Scriptlet
