import Scriptlet.Number.Shortest
import Scriptlet.Proofs.Number.Nearest

/-! The shortest digits of a number. The search for them comes to an end, and what it finds is rounded to
the number again. -/
namespace Scriptlet

namespace Decimal

/-- The value without its sign. -/
def absValue (d : Decimal) : ℚ := d.coefficient * 10 ^ d.exponent

def value (d : Decimal) : ℚ := if d.negative then -d.absValue else d.absValue

theorem absValue_stripZeros (fuel : Nat) (d : Decimal) : (stripZeros fuel d).absValue = d.absValue := by
  induction fuel generalizing d with
  | zero => rfl
  | succ fuel ih =>
    unfold stripZeros
    split
    · next h =>
      have hten : ((10 * (d.coefficient / 10) : Nat) : ℚ) = d.coefficient := by
        rw [Nat.mul_div_cancel' (Nat.dvd_of_mod_eq_zero h.2)]
      rw [ih, absValue, absValue, ← hten, zpow_add_one₀ (by norm_num)]
      push_cast
      ring
    · rfl

end Decimal

namespace Basin

/-- What lies in the basin. -/
def Holds (b : Basin) (r : ℚ) : Prop := Within b.closed (b.low / b.den) (b.high / b.den) r

section Search
variable {b : Basin} {tie : Tie} {place : Int} {c : Nat}

/-- How the places of a decimal are scaled to the denominator of the basin. -/
theorem scale_eq (hb : 0 < b.den) (place : Int) :
    (0 : ℚ) < (scaleRatio 10 1 b.den (-place)).1 ∧
      ((scaleRatio 10 1 b.den (-place)).2 : ℚ) =
        10 ^ place * (b.den * (scaleRatio 10 1 b.den (-place)).1) := by
  have hdenom : (0 : ℚ) < (scaleRatio 10 1 b.den (-place)).2 := by
    exact_mod_cast scaleRatio_base_pos (by decide) 1 hb (-place)
  have hbq : (0 : ℚ) < b.den := by exact_mod_cast hb
  have hpow : (0 : ℚ) < 10 ^ place := by positivity
  have hratio : ((scaleRatio 10 1 b.den (-place)).1 : ℚ) / (scaleRatio 10 1 b.den (-place)).2 =
      1 / b.den * (10 ^ place)⁻¹ := by
    have h := scaleRatio_base_eq (by decide : 0 < 10) 1 hb (-place)
    rw [zpow_neg] at h
    exact_mod_cast h
  rw [div_eq_iff hdenom.ne'] at hratio
  constructor
  · rw [hratio]
    positivity
  · rw [hratio]
    field_simp

theorem holds_iff (hb : 0 < b.den) (place : Int) (c : Nat) :
    b.holds (scaleRatio 10 1 b.den (-place)).1 (c * (scaleRatio 10 1 b.den (-place)).2) = true ↔
      b.Holds (c * 10 ^ place) := by
  obtain ⟨hunit, hden⟩ := scale_eq hb place
  have hbq : (0 : ℚ) < b.den := by exact_mod_cast hb
  generalize (scaleRatio 10 1 b.den (-place)).1 = unit at hunit hden ⊢
  generalize (scaleRatio 10 1 b.den (-place)).2 = den at hden ⊢
  have hscaled (n : Nat) : (n / b.den : ℚ) * (b.den * unit) = (n * unit : Nat) := by
    push_cast
    field_simp
  have hvalue : ((c : ℚ) * 10 ^ place) * (b.den * unit) = (c * den : Nat) := by
    push_cast
    rw [hden]
    ring
  unfold Holds
  rw [← Within.mul_iff (mul_pos hbq hunit), hscaled, hscaled, hvalue]
  unfold holds Within
  cases b.closed with
  | false => simp only [Bool.false_eq_true, if_false, Bool.and_eq_true, decide_eq_true_eq, Nat.cast_lt]
  | true => simp only [if_true, Bool.and_eq_true, decide_eq_true_eq, Nat.cast_le]

theorem holds_of_pick (hb : 0 < b.den) (h : b.pick tie place = some c) : b.Holds (c * 10 ^ place) := by
  unfold pick at h
  dsimp only at h
  split_ifs at h with habove hbelow
  · cases h
    rw [Bool.and_eq_true] at habove
    exact (holds_iff hb place _).mp habove.1
  · cases h
    exact (holds_iff hb place _).mp hbelow

/-- The neighbours of the value at a place. -/
theorem below_bounds (hb : 0 < b.den) (place : Int) :
    ((b.value * (scaleRatio 10 1 b.den (-place)).1 / (scaleRatio 10 1 b.den (-place)).2 : Nat) : ℚ) *
        10 ^ place ≤ b.value / b.den ∧
      (b.value / b.den : ℚ) <
        ((b.value * (scaleRatio 10 1 b.den (-place)).1 / (scaleRatio 10 1 b.den (-place)).2 : Nat) + 1) *
          10 ^ place := by
  obtain ⟨hunit, hden⟩ := scale_eq hb place
  have hpos := scaleRatio_base_pos (by decide : 0 < 10) 1 hb (-place)
  have hbq : (0 : ℚ) < b.den := by exact_mod_cast hb
  generalize (scaleRatio 10 1 b.den (-place)).1 = unit at hunit hden ⊢
  generalize (scaleRatio 10 1 b.den (-place)).2 = den at hden hpos ⊢
  have hvalue : (b.value / b.den : ℚ) * (b.den * unit) = b.value * unit := by field_simp
  have hlow : ((b.value * unit / den * den : Nat) : ℚ) ≤ (b.value * unit : Nat) := by
    exact_mod_cast Nat.div_mul_le_self _ den
  have hhigh : ((b.value * unit : Nat) : ℚ) < ((b.value * unit / den + 1) * den : Nat) := by
    exact_mod_cast Nat.lt_mul_of_div_lt (Nat.lt_succ_self _) hpos
  generalize b.value * unit / den = k at hlow hhigh
  push_cast at hlow hhigh
  have hfactor := mul_pos hbq hunit
  constructor
  · rw [← mul_le_mul_iff_left₀ hfactor, hvalue, mul_assoc, ← hden]
    exact hlow
  · rw [← mul_lt_mul_iff_left₀ hfactor, hvalue, mul_assoc, ← hden]
    exact hhigh

/-- Where a step is shorter than the way down from the value, the basin has a multiple. -/
theorem exists_pick (tie : Tie) (hb : 0 < b.den)
    (hstep : (b.low / b.den : ℚ) + 10 ^ place ≤ b.value / b.den) (hhigh : b.value < b.high) :
    ∃ c, b.pick tie place = some c := by
  have hbq : (0 : ℚ) < b.den := by exact_mod_cast hb
  have hbounds := below_bounds hb place
  have hbelow : b.holds (scaleRatio 10 1 b.den (-place)).1
      (b.value * (scaleRatio 10 1 b.den (-place)).1 / (scaleRatio 10 1 b.den (-place)).2 *
        (scaleRatio 10 1 b.den (-place)).2) = true := by
    rw [holds_iff hb]
    apply Within.of_lt
    · linarith
    · refine hbounds.1.trans_lt ?_
      rw [div_lt_div_iff_of_pos_right hbq]
      exact_mod_cast hhigh
  unfold pick
  dsimp only
  split_ifs
  · exact ⟨_, rfl⟩
  · exact ⟨_, rfl⟩

/-- The search ends where there is a multiple within its reach. -/
theorem exists_search {fuel k : Nat} (hk : k < fuel) (h : ∃ c, b.pick tie (place - k) = some c) :
    ∃ c p, b.search tie fuel place = ⟨false, c, p⟩ ∧ b.pick tie p = some c := by
  induction fuel generalizing place k with
  | zero => omega
  | succ fuel ih =>
    unfold search
    cases hpick : b.pick tie place with
    | some c => exact ⟨c, place, rfl, hpick⟩
    | none =>
      cases k with
      | zero =>
        obtain ⟨c, hc⟩ := h
        rw [Nat.cast_zero, Int.sub_zero, hpick] at hc
        cases hc
      | succ k =>
        have hplace : place - ((k + 1 : Nat) : Int) = place - 1 - k := by
          push_cast
          ring
        rw [hplace] at h
        exact ih (Nat.lt_of_succ_lt_succ hk) h

end Search

section Dyadic
variable {m : Nat}

/-- The ends of a basin are half way to the next numbers. -/
theorem ofDyadic_eq (hm : 0 < m) (e : Int) :
    0 < (ofDyadic m e).den ∧ (ofDyadic m e).value < (ofDyadic m e).high ∧
      ((ofDyadic m e).low / (ofDyadic m e).den : ℚ) = (m - Number.gapBelow m e / 2) * 2 ^ e ∧
      ((ofDyadic m e).value / (ofDyadic m e).den : ℚ) = m * 2 ^ e ∧
      ((ofDyadic m e).high / (ofDyadic m e).den : ℚ) = (m + 1 / 2) * 2 ^ e := by
  have hden := scaleRatio_pos 1 Nat.one_pos (e - 2)
  have hratio := scaleRatio_eq 1 Nat.one_pos (e - 2)
  have hquarter : (2 : ℚ) ^ (e - 2) = 2 ^ e / 4 := by
    rw [zpow_sub₀ (by norm_num)]
    norm_num
  have hbelow : (4 * m : ℚ) - (if m = 1 <<< 52 ∧ Number.minExponent < e then 1 else 2 : Nat) =
      4 * (m - Number.gapBelow m e / 2) := by
    have hone : 1 <<< 52 = 2 ^ 52 := rfl
    unfold Number.gapBelow
    rw [hone]
    split_ifs <;> push_cast <;> ring
  have hle : (if m = 1 <<< 52 ∧ Number.minExponent < e then 1 else 2) ≤ 4 * m := by
    split_ifs <;> omega
  unfold ofDyadic
  dsimp only
  rw [hquarter, Nat.cast_one, div_one, one_mul] at hratio
  generalize (if m = 1 <<< 52 ∧ Number.minExponent < e then 1 else 2) = below at hbelow hle
  generalize (scaleRatio 2 1 1 (e - 2)).1 = scale at hratio ⊢
  generalize (scaleRatio 2 1 1 (e - 2)).2 = den at hden hratio ⊢
  have hscale : 0 < scale := by
    apply Nat.pos_of_ne_zero
    rintro rfl
    have hpow : (0 : ℚ) < 2 ^ e / 4 := by positivity
    rw [← hratio, Nat.cast_zero, zero_div] at hpow
    exact hpow.false
  refine ⟨hden, Nat.mul_lt_mul_of_pos_right (by omega) hscale, ?_, ?_, ?_⟩
  · rw [Nat.cast_mul, mul_div_assoc, hratio, Nat.cast_sub hle]
    push_cast
    rw [hbelow]
    ring
  · rw [Nat.cast_mul, mul_div_assoc, hratio]
    push_cast
    ring
  · rw [Nat.cast_mul, mul_div_assoc, hratio]
    push_cast
    ring

theorem holds_ofDyadic (hm : 0 < m) (e : Int) (r : ℚ) :
    (ofDyadic m e).Holds r ↔ Number.Near m e r := by
  obtain ⟨-, -, hlow, -, hhigh⟩ := ofDyadic_eq hm e
  unfold Holds Number.Near
  rw [hlow, hhigh]
  rfl

end Dyadic

end Basin

namespace Number

variable {m : Nat} {e : Int} {x : Number} {s : Bool}

theorem pow_le_pow_of_mul_le {a b c d k n : Nat} (hc : c ≠ 0) (hb : 0 < b) (hbase : a ^ c ≤ b ^ d)
    (h : d * k ≤ c * n) : a ^ k ≤ b ^ n := by
  rw [← Nat.pow_le_pow_iff_left hc]
  calc (a ^ k) ^ c = (a ^ c) ^ k := by rw [← Nat.pow_mul, ← Nat.pow_mul, Nat.mul_comm]
    _ ≤ (b ^ d) ^ k := Nat.pow_le_pow_left hbase k
    _ = b ^ (d * k) := (Nat.pow_mul b d k).symm
    _ ≤ b ^ (c * n) := Nat.pow_le_pow_right hb h
    _ = (b ^ n) ^ c := by rw [← Nat.pow_mul, Nat.mul_comm]

/-- At the last place of the search, the step is at most a quarter of a unit. -/
theorem ten_zpow_le (h : Canonical m e) (hm : 0 < m) :
    (10 : ℚ) ^ (topPlace m e - 21) ≤ 2 ^ (e - 2) := by
  have hlog : m.log2 ≤ 52 := Nat.lt_succ_iff.mp ((Nat.log2_lt hm.ne').mpr h.small)
  have hlow := h.low
  have hhigh := h.high
  have hfloor : 100000 * (topPlace m e - 2) ≤ (m.log2 + e + 1) * 30103 := by
    unfold topPlace
    rw [Int.add_sub_cancel]
    exact Int.mul_fdiv_self_le (by decide)
  unfold minExponent at hlow
  generalize topPlace m e = top at hfloor ⊢
  rcases le_or_gt 0 (top - 21) with hpos | hneg
  · obtain ⟨k, hk⟩ := Int.eq_ofNat_of_zero_le hpos
    obtain ⟨n, hn⟩ := Int.eq_ofNat_of_zero_le (show 0 ≤ e - 2 by omega)
    have hle : 10 ^ k ≤ 2 ^ n :=
      pow_le_pow_of_mul_le (by decide) (by decide) (by decide : 10 ^ 3 ≤ 2 ^ 10) (by omega)
    rw [hk, hn, zpow_natCast, zpow_natCast]
    exact_mod_cast hle
  · rcases le_or_gt 0 (e - 2) with hpos | hneg'
    · exact (zpow_le_one_of_nonpos₀ (by norm_num) hneg.le).trans (one_le_zpow₀ (by norm_num) hpos)
    · obtain ⟨k, hk⟩ := Int.eq_ofNat_of_zero_le (show 0 ≤ -(top - 21) by omega)
      obtain ⟨n, hn⟩ := Int.eq_ofNat_of_zero_le (show 0 ≤ -(e - 2) by omega)
      have hle : 2 ^ n ≤ 10 ^ k :=
        pow_le_pow_of_mul_le (by decide) (by decide) (by decide : 2 ^ 93 ≤ 10 ^ 28) (by omega)
      have hleq : (2 : ℚ) ^ n ≤ 10 ^ k := by exact_mod_cast hle
      rw [← neg_neg (top - 21), ← neg_neg (e - 2), hk, hn, zpow_neg, zpow_neg, zpow_natCast, zpow_natCast]
      exact inv_anti₀ (by positivity) hleq

/-- The digits that are found for a number are near it. -/
theorem exists_shortest (tie : Tie) (hx : x.unpack = .finite s m e) (hm : 0 < m) :
    ∃ d, x.shortest? tie = some d ∧ d.negative = s ∧ Near m e d.absValue := by
  have hc := (unpack_eq_finite hx).1
  obtain ⟨hden, hhigh, hlow, hvalue, -⟩ := Basin.ofDyadic_eq hm e
  have hlast : ∃ c, (Basin.ofDyadic m e).pick tie (topPlace m e - (21 : Nat)) = some c := by
    apply Basin.exists_pick tie hden _ hhigh
    have hten : (10 : ℚ) ^ (topPlace m e - (21 : Nat)) ≤ 2 ^ e / 4 := by
      refine (ten_zpow_le hc hm).trans_eq ?_
      rw [zpow_sub₀ (by norm_num)]
      norm_num
    have hgap : (1 / 2 : ℚ) * 2 ^ e ≤ gapBelow m e * 2 ^ e :=
      mul_le_mul_of_nonneg_right (gapBelow_bounds m e).1 (by positivity)
    rw [hlow, hvalue]
    linarith
  obtain ⟨c, p, hsearch, hpick⟩ := Basin.exists_search (by decide : 21 < 22) hlast
  have hnear := (Basin.holds_ofDyadic hm e _).mp (Basin.holds_of_pick hden hpick)
  refine ⟨{ Decimal.stripZeros 22 ((Basin.ofDyadic m e).search tie 22 (topPlace m e)) with
    negative := s }, ?_, rfl, ?_⟩
  · simp only [shortest?, hx, if_neg hm.ne']
  · show Near m e (Decimal.stripZeros 22 _).absValue
    rw [Decimal.absValue_stripZeros, hsearch]
    exact hnear

/-- The digits do not depend on the sign. -/
theorem shortest?_of_parts {y : Number} {t : Bool} (tie : Tie) (hx : x.unpack = .finite s m e)
    (hy : y.unpack = .finite t m e) :
    x.shortest? tie = (y.shortest? tie).map fun d => { d with negative := s } := by
  simp only [shortest?, hx, hy]
  split <;> rfl

end Number

namespace Decimal

open Number (Canonical Near Nearest)

/-- The decimal is near the number with the given parts, so that it stands for this number. -/
structure Denotes (d : Decimal) (x : Number) (m : Nat) (e : Int) : Prop where
  pos : 0 < m
  unpack : x.unpack = .finite d.negative m e
  near : Near m e d.absValue

namespace Denotes

variable {d d' : Decimal} {x : Number} {m : Nat} {e : Int}

theorem canonical (h : d.Denotes x m e) : Canonical m e := (Number.unpack_eq_finite h.unpack).1

theorem congr (h : d.Denotes x m e) (hsign : d'.negative = d.negative)
    (hvalue : d'.absValue = d.absValue) : d'.Denotes x m e :=
  ⟨h.pos, hsign ▸ h.unpack, hvalue ▸ h.near⟩

theorem coefficient_pos (h : d.Denotes x m e) : 0 < d.coefficient := by
  apply Nat.pos_of_ne_zero
  intro hzero
  have hpos := h.near.pos h.pos
  rw [absValue, hzero, Nat.cast_zero, zero_mul] at hpos
  exact hpos.false

theorem ofDecimal (h : d.Denotes x m e) : Number.ofDecimal d = x := by
  have hratio := scaleRatio_base_eq (by decide : 0 < 10) d.coefficient Nat.one_pos d.exponent
  have hnear : Near m e ((scaleRatio 10 d.coefficient 1 d.exponent).1 /
      (scaleRatio 10 d.coefficient 1 d.exponent).2) := by
    rw [hratio, Nat.cast_one, div_one]
    exact_mod_cast h.near
  have hden := scaleRatio_base_pos (by decide : 0 < 10) d.coefficient Nat.one_pos d.exponent
  rw [Number.eq_ofMagnitude h.unpack]
  unfold Number.ofDecimal
  exact Number.ofRatio_of_near d.negative h.canonical h.pos hden hnear

theorem nearest (h : d.Denotes x m e) : Nearest d.value x := by
  rw [Number.eq_ofMagnitude h.unpack]
  exact Number.nearest_of_near d.negative h.canonical h.pos h.near

end Denotes

/-- The shortest digits of a number stand for it. -/
theorem exists_denotes {x : Number} {d : Decimal} {tie : Tie} (h : x.shortest? tie = some d)
    (hd : 0 < d.coefficient) : ∃ m e, d.Denotes x m e := by
  cases hx : x.unpack with
  | finite s m e =>
    have hm : 0 < m := by
      apply Nat.pos_of_ne_zero
      rintro rfl
      simp only [Number.shortest?, hx, if_true, Option.some.injEq] at h
      subst h
      exact hd.false
    obtain ⟨d', hshortest, hsign, hnear⟩ := Number.exists_shortest tie hx hm
    obtain rfl : d = d' := Option.some.inj (h.symm.trans hshortest)
    exact ⟨m, e, hm, hsign ▸ hx, hnear⟩
  | nan | infinite => simp [Number.shortest?, hx] at h

end Decimal
end Scriptlet
