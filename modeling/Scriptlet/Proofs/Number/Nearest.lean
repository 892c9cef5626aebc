import Scriptlet.Proofs.Number.Integers
import Scriptlet.Proofs.Number.Rounding

/-! Which rationals are rounded to a number: those up to the middle between it and its neighbours, and
the middle itself if the last bit of the number is zero. -/
namespace Scriptlet

/-- Between two ends, which count if they are `closed`. -/
def Within (closed : Bool) (low high r : ℚ) : Prop :=
  if closed then low ≤ r ∧ r ≤ high else low < r ∧ r < high

namespace Within

variable {closed : Bool} {low high low' high' r c : ℚ}

theorem le (h : Within closed low high r) : low ≤ r ∧ r ≤ high := by
  cases closed with
  | false => exact ⟨h.1.le, h.2.le⟩
  | true => exact h

theorem lt (h : Within closed low high r) (hclosed : closed ≠ true) : low < r ∧ r < high := by
  rwa [Within, if_neg hclosed] at h

theorem of_lt (hlow : low < r) (hhigh : r < high) : Within closed low high r := by
  cases closed with
  | false => exact ⟨hlow, hhigh⟩
  | true => exact ⟨hlow.le, hhigh.le⟩

theorem widen (h : Within closed low high r) (hlow : low' ≤ low) (hhigh : high ≤ high') :
    Within closed low' high' r := by
  cases closed with
  | false => exact ⟨hlow.trans_lt h.1, h.2.trans_le hhigh⟩
  | true => exact ⟨hlow.trans h.1, h.2.trans hhigh⟩

theorem mul_iff (hc : 0 < c) :
    Within closed (low * c) (high * c) (r * c) ↔ Within closed low high r := by
  unfold Within
  rw [mul_le_mul_iff_left₀ hc, mul_le_mul_iff_left₀ hc, mul_lt_mul_iff_left₀ hc,
    mul_lt_mul_iff_left₀ hc]

end Within

section Integers
variable {num den k : Nat}

/-- A ratio up to half a unit away from an integer is rounded to it. -/
theorem roundHalfEven_eq (hd : 0 < den)
    (h : Within (k % 2 = 0) (k - 1 / 2) (k + 1 / 2) (num / den)) : roundHalfEven num den = k := by
  have hdq : (0 : ℚ) < den := by exact_mod_cast hd
  have hlow : 2 * (k * den) ≤ 2 * num + den := by
    have hle := h.le.1
    rw [le_div_iff₀ hdq] at hle
    have hle' : (2 * (k * den) : ℚ) ≤ 2 * num + den := by linarith
    exact_mod_cast hle'
  have hhigh : 2 * num ≤ 2 * (k * den) + den := by
    have hle := h.le.2
    rw [div_le_iff₀ hdq] at hle
    have hle' : (2 * num : ℚ) ≤ 2 * (k * den) + den := by linarith
    exact_mod_cast hle'
  have hodd (hk : k % 2 = 1) : 2 * (k * den) < 2 * num + den ∧ 2 * num < 2 * (k * den) + den := by
    obtain ⟨hlt, hgt⟩ := h.lt (by simp [hk])
    rw [lt_div_iff₀ hdq] at hlt
    rw [div_lt_iff₀ hdq] at hgt
    have hlt' : (2 * (k * den) : ℚ) < 2 * num + den := by linarith
    have hgt' : (2 * num : ℚ) < 2 * (k * den) + den := by linarith
    exact ⟨by exact_mod_cast hlt', by exact_mod_cast hgt'⟩
  have hdiv := Nat.div_add_mod num den
  have hmod := Nat.mod_lt num hd
  rw [Nat.mul_comm] at hdiv
  unfold roundHalfEven
  dsimp only
  generalize num / den = q at hdiv
  generalize num % den = r at hdiv hmod
  -- the integer is one of the two next to the ratio
  have hk : k = q ∨ k = q + 1 := by
    have hle : q ≤ k := by
      by_contra hlt
      have hmul : (k + 1) * den ≤ q * den := Nat.mul_le_mul_right den (by omega)
      rw [Nat.add_mul] at hmul
      omega
    have hge : k ≤ q + 1 := by
      by_contra hlt
      have hmul : (q + 2) * den ≤ k * den := Nat.mul_le_mul_right den (by omega)
      rw [Nat.add_mul] at hmul
      omega
    omega
  rcases hk with rfl | rfl
  · split_ifs <;> omega
  · rw [Nat.add_mul] at hlow hhigh hodd
    split_ifs <;> omega

theorem roundHalfEven_scaled {g : Int} (hd : 0 < den)
    (h : Within (k % 2 = 0) ((k - 1 / 2) * 2 ^ g) ((k + 1 / 2) * 2 ^ g) (num / den)) :
    roundHalfEven (scaleRatio 2 num den (-g)).1 (scaleRatio 2 num den (-g)).2 = k := by
  have hpow : (0 : ℚ) < 2 ^ g := by positivity
  apply roundHalfEven_eq (scaleRatio_pos num hd (-g))
  rw [scaleRatio_eq num hd, ← Within.mul_iff hpow, mul_assoc (num / den : ℚ), zpow_neg,
    inv_mul_cancel₀ hpow.ne', mul_one]
  exact h

end Integers

namespace Number

/-- How far below `m * 2 ^ e` the next number is, in units of `2 ^ e`. -/
def gapBelow (m : Nat) (e : Int) : ℚ := if m = 2 ^ 52 ∧ minExponent < e then 1 / 2 else 1

theorem gapBelow_bounds (m : Nat) (e : Int) : 1 / 2 ≤ gapBelow m e ∧ gapBelow m e ≤ 1 := by
  unfold gapBelow
  split_ifs <;> norm_num

theorem gapBelow_mul_pos (m : Nat) (e : Int) : 0 < gapBelow m e * 2 ^ e :=
  mul_pos (by linarith [(gapBelow_bounds m e).1]) (by positivity)

/-- Half way down to the next number below `m * 2 ^ e`, or half way up to the next one above, and
nearer. -/
def Near (m : Nat) (e : Int) (r : ℚ) : Prop :=
  Within (m % 2 = 0) ((m - gapBelow m e / 2) * 2 ^ e) ((m + 1 / 2) * 2 ^ e) r

section Near
variable {m n num den : Nat} {e f : Int} {r q : ℚ}

theorem Near.half_le (h : Near m e r) : (m - 1 / 2) * 2 ^ e ≤ r := by
  have hpow : (0 : ℚ) < 2 ^ e := by positivity
  refine le_trans (mul_le_mul_of_nonneg_right ?_ hpow.le) h.le.1
  linarith [(gapBelow_bounds m e).2]

theorem Near.pos (h : Near m e r) (hm : 0 < m) : 0 < r := by
  have hone : (1 : ℚ) ≤ m := by exact_mod_cast hm
  refine lt_of_lt_of_le ?_ h.half_le
  apply mul_pos
  · linarith
  · positivity

/-- What is near a number is rounded to it. -/
theorem ofRatio_of_near (s : Bool) (hc : Canonical m e) (hm : 0 < m) (hd : 0 < den)
    (h : Near m e (num / den)) : ofRatio s num den = ofMagnitude s (pack m e) := by
  have hpow : (0 : ℚ) < 2 ^ e := by positivity
  have hn : 0 < num := by
    apply Nat.pos_of_ne_zero
    rintro rfl
    have hpos := h.pos hm
    rw [Nat.cast_zero, zero_div] at hpos
    exact hpos.false
  have hgrid := onGrid_gridExponent hn hd
  have hbits (g : Int) : (2 : ℚ) ^ (g + 52) = 2 ^ 52 * 2 ^ g ∧ (2 : ℚ) ^ (g + 53) = 2 ^ 53 * 2 ^ g := by
    exact_mod_cast And.intro (zpow_add_nat g 52) (zpow_add_nat g 53)
  rw [ofRatio_eq_pack s den hn.ne']
  have hhigh : (num / den : ℚ) < 2 ^ (e + 53) := by
    have hsmall : (m : ℚ) + 1 ≤ 2 ^ 53 := by exact_mod_cast hc.small
    refine h.le.2.trans_lt ?_
    rw [(hbits e).2]
    exact mul_lt_mul_of_pos_right (by linarith) hpow
  by_cases hbelow : e = minExponent ∨ (2 : ℚ) ^ (e + 52) ≤ num / den
  · have hsame : gridExponent num den = e := hgrid.unique ⟨hc.low, hhigh, hbelow⟩
    rw [hsame, roundHalfEven_scaled hd]
    refine h.widen (mul_le_mul_of_nonneg_right ?_ hpow.le) le_rfl
    linarith [(gapBelow_bounds m e).2]
  · -- below a power of two the grid is twice as fine, and rounding carries into the exponent
    rw [not_or, not_le] at hbelow
    obtain ⟨hmin, hlt⟩ := hbelow
    have hlow := hc.low
    have hnormal : 2 ^ 52 ≤ m := hc.normal.resolve_left hmin
    have hleast : m = 2 ^ 52 := by
      rw [(hbits e).1] at hlt
      have hroom := lt_of_mul_lt_mul_right (h.half_le.trans_lt hlt) hpow.le
      have hm' : (m : ℚ) < 2 ^ 52 + 1 := by linarith
      exact le_antisymm (Nat.lt_succ_iff.mp (by exact_mod_cast hm')) hnormal
    have hgap : gapBelow m e = 1 / 2 := if_pos ⟨hleast, by omega⟩
    have hhalf : (2 : ℚ) ^ e = 2 * 2 ^ (e - 1) := by
      rw [zpow_sub_one₀ (by norm_num)]
      ring
    have hhalfpos : (0 : ℚ) < 2 ^ (e - 1) := by positivity
    have hfine : (2 ^ 53 - 1 / 2) * 2 ^ (e - 1) ≤ (num / den : ℚ) := by
      refine le_trans (le_of_eq ?_) h.le.1
      rw [hgap, hleast, hhalf]
      push_cast
      ring
    have hcoarse : (num / den : ℚ) < 2 ^ 53 * 2 ^ (e - 1) := by
      refine hlt.trans_eq ?_
      rw [(hbits e).1, hhalf]
      ring
    have hsame : gridExponent num den = e - 1 := by
      refine hgrid.unique ⟨by omega, ?_, .inr ?_⟩
      · rw [(hbits (e - 1)).2]
        exact hcoarse
      · refine le_trans ?_ hfine
        rw [(hbits (e - 1)).1]
        exact mul_le_mul_of_nonneg_right (by norm_num) hhalfpos.le
    have hround : roundHalfEven (scaleRatio 2 num den (-(e - 1))).1
        (scaleRatio 2 num den (-(e - 1))).2 = 2 ^ 53 := by
      apply roundHalfEven_scaled hd
      have heven : decide (2 ^ 53 % 2 = 0) = true := by decide
      rw [heven]
      push_cast
      refine ⟨hfine, hcoarse.le.trans (mul_le_mul_of_nonneg_right ?_ hhalfpos.le)⟩
      norm_num
    rw [hsame, hround, pack_carry (by omega), hleast, Int.sub_add_cancel]

theorem Canonical.unique (hc : Canonical m e) (hc' : Canonical n f)
    (h : (m * 2 ^ e : ℚ) = n * 2 ^ f) : m = n ∧ e = f := by
  have hgrid := hc'.onGrid
  rw [← h] at hgrid
  obtain rfl := hc.onGrid.unique hgrid
  have hpow : (2 : ℚ) ^ e ≠ 0 := by positivity
  exact ⟨by exact_mod_cast mul_right_cancel₀ hpow h, rfl⟩

/-- A rational is near one number only. -/
theorem Near.unique (hc : Canonical m e) (hm : 0 < m) (hc' : Canonical n f) (hn : 0 < n)
    (h : Near m e r) (h' : Near n f r) : m = n ∧ e = f := by
  have hpos : 0 < r := h.pos hm
  have hr : ((r.num.toNat : Nat) / (r.den : Nat) : ℚ) = r := by
    have hnum : ((r.num.toNat : Nat) : ℚ) = r.num := by
      exact_mod_cast Int.toNat_of_nonneg (Rat.num_pos.mpr hpos).le
    rw [hnum, Rat.num_div_den]
  have hx := ofRatio_of_near false hc hm r.den_pos (hr ▸ h)
  have hy := ofRatio_of_near false hc' hn r.den_pos (hr ▸ h')
  have heq : Unpacked.finite false m e = .finite false n f := by
    rw [← unpack_ofMagnitude false hc, ← unpack_ofMagnitude false hc', ← hx, ← hy]
  injection heq with _ hmn hef
  exact ⟨hmn, hef⟩

/-- No number lies between `m * 2 ^ e` and its neighbours. -/
theorem le_or_le_of_ne (hc : Canonical m e) (hc' : Canonical n f) (t : Bool)
    (hne : (signed t n * 2 ^ f : ℚ) ≠ m * 2 ^ e) :
    (signed t n * 2 ^ f : ℚ) ≤ (m - gapBelow m e) * 2 ^ e ∨
      (m + 1) * 2 ^ e ≤ (signed t n * 2 ^ f : ℚ) := by
  have hpow : (0 : ℚ) < 2 ^ e := by positivity
  rcases le_or_gt e f with hle | hlt
  · -- the other number is on the same grid
    obtain ⟨k, rfl⟩ := Int.le.dest hle
    have hj : (signed t n * 2 ^ (e + k) : ℚ) = ((signed t n * 2 ^ k : Int) : ℚ) * 2 ^ e := by
      rw [zpow_add_nat]
      push_cast
      ring
    rw [hj] at hne ⊢
    generalize signed t n * 2 ^ k = j at hne
    have hjm : j ≠ m := by
      rintro rfl
      exact hne rfl
    rcases lt_or_gt_of_ne hjm with hlt | hgt
    · left
      apply mul_le_mul_of_nonneg_right _ hpow.le
      have hj' : (j : ℚ) + 1 ≤ m := by exact_mod_cast hlt
      linarith [(gapBelow_bounds m e).2]
    · right
      apply mul_le_mul_of_nonneg_right _ hpow.le
      exact_mod_cast hgt
  · -- it is below the least number on this grid that is not on finer ones
    left
    have hlow := hc'.low
    have hnormal : 2 ^ 52 ≤ m := hc.normal.resolve_left (by omega)
    have hbelow : (signed t n * 2 ^ f : ℚ) ≤ (2 ^ 52 - 1 / 2) * 2 ^ e := by
      have hn : (n : ℚ) + 1 ≤ 2 ^ 53 := by exact_mod_cast hc'.small
      have hpowf : (0 : ℚ) < 2 ^ f := by positivity
      have hfe : (2 : ℚ) ^ f ≤ 2 ^ (e - 1) := zpow_le_zpow_right₀ (by norm_num) (by omega)
      have hhalf : (2 : ℚ) ^ e = 2 * 2 ^ (e - 1) := by
        rw [zpow_sub_one₀ (by norm_num)]
        ring
      calc (signed t n * 2 ^ f : ℚ) ≤ n * 2 ^ f :=
            mul_le_mul_of_nonneg_right ((le_abs_self _).trans_eq (abs_signed t n)) hpowf.le
        _ ≤ (2 ^ 53 - 1) * 2 ^ f := mul_le_mul_of_nonneg_right (by linarith) hpowf.le
        _ ≤ (2 ^ 53 - 1) * 2 ^ (e - 1) := mul_le_mul_of_nonneg_left hfe (by norm_num)
        _ = (2 ^ 52 - 1 / 2) * 2 ^ e := by
          rw [hhalf]
          ring
    refine hbelow.trans (mul_le_mul_of_nonneg_right ?_ hpow.le)
    rcases hnormal.eq_or_lt with heq | hlt'
    · have hgap : gapBelow m e = 1 / 2 := if_pos ⟨heq.symm, by omega⟩
      rw [hgap, ← heq]
      norm_num
    · have hm : (2 ^ 52 : ℚ) + 1 ≤ m := by exact_mod_cast hlt'
      linarith [(gapBelow_bounds m e).2]

/-- What is near a smaller number is smaller. -/
theorem Near.lt_of_lt (hc : Canonical m e) (hm : 0 < m) (hc' : Canonical n f) (hn : 0 < n)
    (h : Near m e r) (h' : Near n f q) (hlt : (m * 2 ^ e : ℚ) < n * 2 ^ f) : r < q := by
  have habove : ((m : ℚ) + 1) * 2 ^ e ≤ n * 2 ^ f := by
    have hgap := le_or_le_of_ne hc hc' false (by simpa [signed] using hlt.ne')
    rw [cast_signed] at hgap
    refine hgap.resolve_left fun hle => ?_
    simp only [Bool.false_eq_true, if_false] at hle
    linarith [gapBelow_mul_pos m e]
  have hbelow : (m * 2 ^ e : ℚ) ≤ (n - gapBelow n f) * 2 ^ f := by
    have hgap := le_or_le_of_ne hc' hc false (by simpa [signed] using hlt.ne)
    rw [cast_signed] at hgap
    refine hgap.resolve_right fun hle => ?_
    have hnonneg : (0 : ℚ) ≤ 2 ^ f := by positivity
    simp only [Bool.false_eq_true, if_false] at hle
    linarith
  -- the middle between the two numbers bounds both
  have hle : r ≤ q := by
    have hr := h.le.2
    have hq := h'.le.1
    linarith
  refine hle.lt_of_ne fun heq => ?_
  obtain ⟨rfl, rfl⟩ := Near.unique hc hm hc' hn h (heq ▸ h')
  exact hlt.false

end Near

/-- Half a unit beyond the greatest number. -/
def overflowBound : ℚ := (2 ^ 53 - 1 / 2) * 2 ^ 971

/-- The number to which a rational is rounded: none is nearer, and where another one is as near the last
bit is zero. Rationals beyond all numbers are not rounded to any. -/
structure Nearest (q : ℚ) (x : Number) : Prop where
  bounded : |q| < overflowBound
  nearest : ∃ v, x.value? = some v ∧ ∀ (y : Number) (w : ℚ), y.value? = some w → w ≠ v →
    |q - v| ≤ |q - w| ∧ (|q - v| = |q - w| → x.magnitude % 2 = 0)

section Nearest
variable {m n : Nat} {e f : Int} {r : ℚ}

theorem Near.lt_overflowBound (hc : Canonical m e) (h : Near m e r) : r < overflowBound := by
  have hpow : (0 : ℚ) < 2 ^ e := by positivity
  have hhigh : (2 : ℚ) ^ e ≤ 2 ^ 971 := by
    rw [← zpow_natCast]
    exact zpow_le_zpow_right₀ (by norm_num) hc.high
  unfold overflowBound
  by_cases heven : m % 2 = 0
  · have hm : (m : ℚ) + 2 ≤ 2 ^ 53 := by
      have hsmall := hc.small
      have hnat : m + 2 ≤ 2 ^ 53 := by omega
      exact_mod_cast hnat
    refine h.le.2.trans_lt (lt_of_lt_of_le (mul_lt_mul_of_pos_right ?_ hpow)
      (mul_le_mul_of_nonneg_left hhigh (by norm_num)))
    linarith
  · have hm : (m : ℚ) + 1 ≤ 2 ^ 53 := by exact_mod_cast hc.small
    refine (h.lt (by simpa using heven)).2.trans_le ((mul_le_mul_of_nonneg_right ?_ hpow.le).trans
      (mul_le_mul_of_nonneg_left hhigh (by norm_num)))
    linarith

theorem pack_mod_two (m : Nat) (e : Int) : pack m e % 2 = m % 2 := by
  unfold pack
  rw [Nat.shiftLeft_eq]
  omega

/-- Of all numbers, the one that a rational is near is the nearest. -/
theorem Near.abs_sub_le (hc : Canonical m e) (hc' : Canonical n f) (t : Bool) (h : Near m e r)
    (hne : (signed t n * 2 ^ f : ℚ) ≠ m * 2 ^ e) :
    |r - m * 2 ^ e| ≤ |r - signed t n * 2 ^ f| ∧
      (|r - m * 2 ^ e| = |r - signed t n * 2 ^ f| → m % 2 = 0) := by
  have hgap := le_or_le_of_ne hc hc' t hne
  have hends := h.le
  generalize (signed t n * 2 ^ f : ℚ) = w at hgap
  have hpos := le_abs_self (r - w)
  have hneg := neg_abs_le (r - w)
  have hbelow := gapBelow_mul_pos m e
  have habove : (0 : ℚ) < 2 ^ e := by positivity
  constructor
  · rw [abs_le]
    rcases hgap with hle | hle <;> constructor <;> linarith
  · intro heq
    by_contra hodd
    obtain ⟨hlt, hgt⟩ := h.lt (by simpa using hodd)
    refine absurd heq (ne_of_lt ?_)
    rw [abs_lt]
    rcases hgap with hle | hle <;> constructor <;> linarith

theorem nearest_of_near (s : Bool) (hc : Canonical m e) (hm : 0 < m) (h : Near m e r) :
    Nearest (if s then -r else r) (ofMagnitude s (pack m e)) := by
  have hpos := h.pos hm
  have hmag : (ofMagnitude s (pack m e)).magnitude % 2 = m % 2 := by
    rw [magnitude_ofMagnitude s (pack_lt hc).le, pack_mod_two]
  have hvalue := value?_of_unpack (unpack_ofMagnitude s hc)
  rw [cast_signed] at hvalue
  refine ⟨?_, _, hvalue, fun y w hy hne => ?_⟩
  · have habs : |if s then -r else r| = r := by
      cases s <;> simp [abs_of_pos hpos]
    rw [habs]
    exact h.lt_overflowBound hc
  · obtain ⟨t, n, f, -, hc', rfl⟩ := exists_unpack hy
    rw [hmag]
    cases s with
    | false => exact h.abs_sub_le hc hc' t hne
    | true =>
      have hmirror : ((signed (!t) n : Int) : ℚ) * 2 ^ f = -(signed t n * 2 ^ f) := by
        cases t <;> simp [signed]
      have hdist (v : ℚ) : |(if true = true then -r else r) - v| = |r - -v| := by
        rw [if_pos rfl, ← abs_neg]
        congr 1
        ring
      have hvalue : -((if true = true then -(m : ℚ) else m) * 2 ^ e) = m * 2 ^ e := by
        rw [if_pos rfl]
        ring
      rw [hdist, hdist, hvalue, ← hmirror]
      apply h.abs_sub_le hc hc'
      rw [hmirror]
      intro heq
      apply hne
      rw [← neg_inj, heq, hvalue]

end Nearest
end Number
end Scriptlet
