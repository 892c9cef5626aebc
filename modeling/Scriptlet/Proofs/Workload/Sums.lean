import Mathlib
import Scriptlet.Workload.Sums

/-! The sums by loop and in closed form against the exact sums. Checked operations are read as one
check of the exact value; the loops are followed round by round. -/
namespace Scriptlet.Sums

open Finset (range)

section Exact

/-- The numbers below half of `n` are those below `n / 2`, rounded up. -/
theorem sum_lowerHalf (n : Nat) :
    ∑ i ∈ range n with 2 * i < n, i = ∑ i ∈ range ((n + 1) / 2), i := by
  have hset : {i ∈ range n | 2 * i < n} = range ((n + 1) / 2) := by
    ext i
    simp only [Finset.mem_filter, Finset.mem_range]
    omega
  rw [hset]

theorem sum_multiples (n : Nat) :
    ∑ i ∈ range n with i % 3 = 0, i = 3 * ∑ i ∈ range ((n + 2) / 3), i := by
  have hset : {i ∈ range n | i % 3 = 0} = (range ((n + 2) / 3)).image (3 * ·) := by
    ext i
    simp only [Finset.mem_filter, Finset.mem_range, Finset.mem_image]
    constructor
    · intro h
      exact ⟨i / 3, by omega, by omega⟩
    · intro h
      obtain ⟨k, hk, rfl⟩ := h
      omega
  have hinj : Set.InjOn (3 * ·) (range ((n + 2) / 3) : Set Nat) := by
    intro a _ b _ hab
    have : 3 * a = 3 * b := hab
    omega
  rw [hset, Finset.sum_image hinj, Finset.mul_sum]

theorem sum_filter_succ (p : Nat → Prop) [DecidablePred p] (j : Nat) :
    ∑ i ∈ range (j + 1) with p i, i =
      if p j then ∑ i ∈ range j with p i, i + j else ∑ i ∈ range j with p i, i := by
  rw [Finset.range_add_one, Finset.filter_insert]
  split
  · rw [Finset.sum_insert (by simp), Nat.add_comm]
  · rfl

theorem sum_nonMultiples_add (n : Nat) :
    ∑ i ∈ range n with i % 3 ≠ 0, i + 3 * ∑ i ∈ range ((n + 2) / 3), i = ∑ i ∈ range n, i := by
  rw [← sum_multiples, Nat.add_comm]
  exact Finset.sum_filter_add_sum_filter_not (range n) (· % 3 = 0) id

end Exact

section Checked

/-- The word that stands for a number, if there is one. -/
def word? (m : Nat) : Option UInt64 := if m < UInt64.size then some (.ofNat m) else none

theorem word?_eq_some {m : Nat} {s : UInt64} : word? m = some s ↔ s.toNat = m := by
  unfold word?
  constructor
  · intro h
    split at h
    · next hm =>
      cases h
      exact UInt64.toNat_ofNat_of_lt' hm
    · cases h
  · rintro rfl
    rw [if_pos s.toNat_lt_size, UInt64.ofNat_toNat]

theorem word?_eq_none {m : Nat} : word? m = none ↔ UInt64.size ≤ m := by
  simp [word?]

theorem mul?_eq (a b : UInt64) : mul? a b = word? (a.toNat * b.toNat) := by
  unfold mul? word?
  split
  · next h =>
    have hprod : a * b = .ofNat (a.toNat * b.toNat) := by
      apply UInt64.toNat_inj.mp
      rw [UInt64.toNat_mul, UInt64.toNat_ofNat_of_lt' h]
      exact Nat.mod_eq_of_lt h
    rw [hprod]
  · rfl

theorem sub?_eq {a b : UInt64} (h : b.toNat ≤ a.toNat) : sub? a b = word? (a.toNat - b.toNat) := by
  symm
  unfold sub?
  rw [if_pos (UInt64.le_iff_toNat_le.mpr h), word?_eq_some]
  exact UInt64.toNat_sub_of_le a b (UInt64.le_iff_toNat_le.mpr h)

theorem toNat_ceilDiv (n d : UInt64) (hd : 1 < d.toNat) :
    (ceilDiv n d).toNat = (n.toNat + d.toNat - 1) / d.toNat := by
  have hpos : 0 < d.toNat := by omega
  have hsplit := Nat.div_add_mod n.toNat d.toNat
  have hrest := Nat.mod_lt n.toNat hpos
  unfold ceilDiv
  by_cases hzero : n.toNat % d.toNat = 0
  · have hz : n % d = 0 := by
      apply UInt64.toNat_inj.mp
      rw [UInt64.toNat_mod, hzero]
      rfl
    have hnum : n.toNat + d.toNat - 1 = d.toNat * (n.toNat / d.toNat) + (d.toNat - 1) := by omega
    have hlast : (d.toNat - 1) / d.toNat = 0 := Nat.div_eq_of_lt (by omega)
    rw [if_pos hz, UInt64.toNat_div, hnum, Nat.mul_add_div hpos, hlast, Nat.add_zero]
  · have hz : n % d ≠ 0 := by
      intro h
      apply hzero
      rw [← UInt64.toNat_mod, h]
      rfl
    have hnum : n.toNat + d.toNat - 1 =
        d.toNat * (n.toNat / d.toNat + 1) + (n.toNat % d.toNat - 1) := by
      rw [Nat.mul_add_one]
      omega
    have hlast : (n.toNat % d.toNat - 1) / d.toNat = 0 := Nat.div_eq_of_lt (by omega)
    have hle : n.toNat / d.toNat ≤ n.toNat / 2 := Nat.div_le_div_left hd (by omega)
    have hnext : (n / d + 1).toNat = n.toNat / d.toNat + 1 := by
      have hsize := n.toNat_lt
      rw [UInt64.toNat_add, UInt64.toNat_div]
      exact Nat.mod_eq_of_lt (Nat.lt_of_le_of_lt (Nat.succ_le_succ hle) (by omega))
    rw [if_neg hz, hnext, hnum, Nat.mul_add_div hpos, hlast, Nat.add_zero]

/-- Halving the even one of two neighbours leaves nothing out. -/
theorem triangle?_eq (k : UInt64) : triangle? k = word? (∑ i ∈ range k.toNat, i) := by
  have htwice := Finset.sum_range_id_mul_two k.toNat
  unfold triangle?
  by_cases hzero : k = 0
  · subst hzero
    rfl
  · have hpos : 0 < k.toNat := by
      apply Nat.pos_of_ne_zero
      intro h
      exact hzero (UInt64.toNat_inj.mp h)
    have hpred : (k - 1).toNat = k.toNat - 1 := by
      apply UInt64.toNat_sub_of_le
      exact UInt64.le_iff_toNat_le.mpr hpos
    rw [if_neg hzero]
    by_cases heven : k.toNat % 2 = 0
    · have hk : k % 2 = 0 := by
        apply UInt64.toNat_inj.mp
        rw [UInt64.toNat_mod]
        exact heven
      have hhalf : (k / 2).toNat * 2 = k.toNat := by
        rw [UInt64.toNat_div]
        exact Nat.div_mul_cancel (Nat.dvd_of_mod_eq_zero heven)
      have hprod : (k / 2).toNat * (k - 1).toNat = ∑ i ∈ range k.toNat, i := by
        rw [hpred]
        nlinarith
      rw [if_pos hk, mul?_eq, hprod]
    · have hk : k % 2 ≠ 0 := by
        intro h
        apply heven
        have := congrArg UInt64.toNat h
        rwa [UInt64.toNat_mod] at this
      have hhalf : ((k - 1) / 2).toNat * 2 = k.toNat - 1 := by
        rw [UInt64.toNat_div, hpred]
        exact Nat.div_mul_cancel (show 2 ∣ k.toNat - 1 by omega)
      have hprod : k.toNat * ((k - 1) / 2).toNat = ∑ i ∈ range k.toNat, i := by
        nlinarith
      rw [if_neg hk, mul?_eq, hprod]

theorem lowerHalf?_eq (n : UInt64) :
    lowerHalf? n = word? (∑ i ∈ range n.toNat with 2 * i < n.toNat, i) := by
  rw [lowerHalf?, triangle?_eq, toNat_ceilDiv n 2 (by decide), sum_lowerHalf]
  rfl

/-- All numbers below `n` are added up on the way to the sum, so their sum is checked as well. -/
theorem nonMultiples?_eq (n : UInt64) :
    nonMultiples? n = if ∑ i ∈ range n.toNat, i < UInt64.size then
      word? (∑ i ∈ range n.toNat with i % 3 ≠ 0, i) else none := by
  have hsum := sum_nonMultiples_add n.toNat
  have hceil : (ceilDiv n 3).toNat = (n.toNat + 2) / 3 := toNat_ceilDiv n 3 (by decide)
  generalize hall : ∑ i ∈ range n.toNat, i = all at hsum ⊢
  generalize hkept : ∑ i ∈ range n.toNat with i % 3 ≠ 0, i = kept at hsum ⊢
  generalize hthirds : ∑ i ∈ range ((n.toNat + 2) / 3), i = thirds at hsum
  unfold nonMultiples?
  rw [triangle?_eq, triangle?_eq, hceil, hall, hthirds]
  by_cases hfits : all < UInt64.size
  · obtain ⟨t, ht⟩ : ∃ t, word? thirds = some t := ⟨.ofNat thirds, if_pos (by omega)⟩
    obtain ⟨u, hu⟩ : ∃ u, word? (thirds * 3) = some u := ⟨.ofNat (thirds * 3), if_pos (by omega)⟩
    obtain ⟨a, ha⟩ : ∃ a, word? all = some a := ⟨.ofNat all, if_pos hfits⟩
    have htn := word?_eq_some.mp ht
    have hun := word?_eq_some.mp hu
    have han := word?_eq_some.mp ha
    have hthree : (3 : UInt64).toNat = 3 := rfl
    have hdiff : a.toNat - u.toNat = kept := by omega
    simp only [ht, ha, Option.bind_eq_bind, Option.bind_some, mul?_eq, htn, hthree, hu]
    rw [if_pos hfits, sub?_eq (by omega), hdiff]
  · have hnone : word? all = none := word?_eq_none.mpr (by omega)
    rw [if_neg hfits, hnone]
    cases word? thirds with
    | none => rfl
    | some t =>
      simp only [Option.bind_eq_bind, Option.bind_some, Option.bind_none]
      cases mul? t 3 <;> rfl

end Checked

/-- The variables of a loop between two rounds: the number to look at next and the sum so far. -/
structure Loop where
  i : UInt64
  sum : UInt64

namespace Loop

variable {keep : UInt64 → Bool} {p : Nat → Prop} [DecidablePred p]

def round (keep : UInt64 → Bool) (l : Loop) : Loop :=
  ⟨l.i + 1, if keep l.i then l.sum + l.i else l.sum⟩

/-- The loop after `j` rounds. -/
def after (keep : UInt64 → Bool) (j : Nat) : Loop := (round keep)^[j] ⟨0, 0⟩

/-- No operation of the next round leaves the range of words. -/
structure Fits (keep : UInt64 → Bool) (l : Loop) : Prop where
  sum : keep l.i = true → l.sum.toNat + l.i.toNat < UInt64.size
  i : l.i.toNat + 1 < UInt64.size

/-- The loop has looked at the numbers below `j` and added up those with the property. -/
structure At (p : Nat → Prop) [DecidablePred p] (j : Nat) (l : Loop) : Prop where
  i : l.i.toNat = j
  sum : l.sum.toNat = ∑ i ∈ range j with p i, i

theorem sumFrom_eq (keep : UInt64 → Bool) (left : Nat) (l : Loop) :
    sumFrom keep left l.i l.sum = ((round keep)^[left] l).sum := by
  induction left generalizing l with
  | zero => rfl
  | succ left ih => exact ih (l.round keep)

theorem sumBelow_eq (keep : UInt64 → Bool) (n : UInt64) :
    sumBelow keep n = (after keep n.toNat).sum := sumFrom_eq keep n.toNat ⟨0, 0⟩

/-- One round is exact as long as the sum that it leads to fits. -/
theorem At.round {l : Loop} {j : Nat} (h : l.At p j) (hkeep : keep l.i = decide (p j))
    (hj : j + 1 < UInt64.size) (hsum : ∑ i ∈ range (j + 1) with p i, i < UInt64.size) :
    l.Fits keep ∧ (l.round keep).At p (j + 1) := by
  have hnext := sum_filter_succ p j
  have hfits : l.Fits keep := by
    constructor
    · intro hk
      have hp : p j := of_decide_eq_true (hkeep.symm.trans hk)
      rw [h.i, h.sum]
      rwa [hnext, if_pos hp] at hsum
    · rwa [h.i]
  refine ⟨hfits, ?_, ?_⟩
  · have hi : (l.i + 1).toNat = l.i.toNat + 1 := by
      rw [UInt64.toNat_add]
      exact Nat.mod_eq_of_lt hfits.i
    rw [← h.i]
    exact hi
  · rw [hnext]
    by_cases hp : p j
    · have hk : keep l.i = true := by rw [hkeep, decide_eq_true hp]
      have hadd : (l.sum + l.i).toNat = l.sum.toNat + l.i.toNat := by
        rw [UInt64.toNat_add]
        exact Nat.mod_eq_of_lt (hfits.sum hk)
      rw [if_pos hp, Loop.round, if_pos hk, hadd, h.i, h.sum]
    · have hk : ¬ keep l.i = true := by simp [hkeep, hp]
      rw [if_neg hp, Loop.round, if_neg hk, h.sum]

/-- The loop over the numbers below `n` gives `s` and is exact all the way: its counter runs through
all the numbers up to `n`, and no operation of any round leaves the range of words. -/
structure Computes (keep : UInt64 → Bool) (n s : UInt64) : Prop where
  result : sumBelow keep n = s
  counter : ∀ j ≤ n.toNat, (after keep j).i.toNat = j
  fits : ∀ j < n.toNat, (after keep j).Fits keep

/-- A loop computes a sum that fits. -/
theorem computes {n s : UInt64} (hkeep : ∀ i < n, keep i = decide (p i.toNat))
    (hs : s.toNat = ∑ i ∈ range n.toNat with p i, i) : Computes keep n s := by
  -- what one round does, wherever the loop is
  have hround : ∀ j < n.toNat, (after keep j).At p j →
      (after keep j).Fits keep ∧ (after keep (j + 1)).At p (j + 1) := by
    intro j hj hat
    have hpart : ∑ i ∈ range (j + 1) with p i, i ≤ ∑ i ∈ range n.toNat with p i, i :=
      Finset.sum_le_sum_of_subset (Finset.filter_subset_filter p (Finset.range_mono hj))
    have hlt : (after keep j).i < n := by
      rw [UInt64.lt_iff_toNat_lt, hat.i]
      exact hj
    have hk := hkeep _ hlt
    rw [hat.i] at hk
    have hsize := s.toNat_lt_size
    have hn := n.toNat_lt_size
    have hnext := hat.round hk (by omega) (by omega)
    rwa [after, after, Function.iterate_succ_apply']
  have hat : ∀ j ≤ n.toNat, (after keep j).At p j := by
    intro j hj
    induction j with
    | zero => exact ⟨rfl, rfl⟩
    | succ j ih => exact (hround j hj (ih (by omega))).2
  refine ⟨?_, fun j hj => (hat j hj).i, fun j hj => (hround j hj (hat j hj.le)).1⟩
  rw [sumBelow_eq]
  apply UInt64.toNat_inj.mp
  rw [(hat n.toNat le_rfl).sum, hs]

end Loop

section Answers
variable {n s : UInt64}

theorem toNat_lowerHalf? (h : lowerHalf? n = some s) :
    s.toNat = ∑ i ∈ range n.toNat with 2 * i < n.toNat, i := by
  rw [lowerHalf?_eq] at h
  exact word?_eq_some.mp h

/-- Where the closed form has an answer, even the double of `n` is a word. -/
theorem double_lt_of_lowerHalf? (h : lowerHalf? n = some s) : 2 * n.toNat < UInt64.size := by
  have hs := toNat_lowerHalf? h
  have htwice := Finset.sum_range_id_mul_two ((n.toNat + 1) / 2)
  rw [← sum_lowerHalf, ← hs] at htwice
  by_contra hlarge
  have hsize : UInt64.size = 2 ^ 64 := rfl
  have hlow : 2 ^ 62 * (2 ^ 62 - 1) ≤ (n.toNat + 1) / 2 * ((n.toNat + 1) / 2 - 1) :=
    Nat.mul_le_mul (by omega) (by omega)
  have hup := s.toNat_lt_size
  omega

theorem lowerHalf_computes (h : lowerHalf? n = some s) : Loop.Computes (2 * · < n) n s := by
  have hdouble := double_lt_of_lowerHalf? h
  apply Loop.computes (p := fun i => 2 * i < n.toNat) _ (toNat_lowerHalf? h)
  intro i hi
  have hlt : i.toNat < n.toNat := UInt64.lt_iff_toNat_lt.mp hi
  have htwo : (2 * i).toNat = 2 * i.toNat := by
    rw [UInt64.toNat_mul]
    exact Nat.mod_eq_of_lt (show 2 * i.toNat < UInt64.size by omega)
  simp only [UInt64.lt_iff_toNat_lt, htwo]

theorem toNat_nonMultiples? (h : nonMultiples? n = some s) :
    s.toNat = ∑ i ∈ range n.toNat with i % 3 ≠ 0, i := by
  rw [nonMultiples?_eq] at h
  split at h
  · exact word?_eq_some.mp h
  · cases h

theorem nonMultiples_computes (h : nonMultiples? n = some s) :
    Loop.Computes (· % 3 != 0) n s := by
  apply Loop.computes (p := fun i => i % 3 ≠ 0) _ (toNat_nonMultiples? h)
  intro i _
  have hzero : i % 3 = 0 ↔ i.toNat % 3 = 0 := by
    rw [← UInt64.toNat_inj, UInt64.toNat_mod]
    rfl
  rw [Bool.eq_iff_iff]
  simp [hzero]

/-- The closed form stops at a sum of all numbers that is no word. -/
theorem nonMultiples?_eq_none : nonMultiples? n = none ↔ UInt64.size ≤ ∑ i ∈ range n.toNat, i := by
  have hle : ∑ i ∈ range n.toNat with i % 3 ≠ 0, i ≤ ∑ i ∈ range n.toNat, i :=
    Finset.sum_le_sum_of_subset (Finset.filter_subset _ _)
  rw [nonMultiples?_eq]
  split
  · rw [word?_eq_none]
    omega
  · simp
    omega

end Answers

/-- The closed forms are sound. That of `lowerHalf` gives an answer exactly if the sum fits into a
word; every answer is the exact sum, and then the loop gives it too, with no operation, `2 * i`
included, that leaves the range of words. -/
theorem closed_forms_are_sound (n : UInt64) :
    ((lowerHalf? n).isSome ↔ ∑ i ∈ range n.toNat with 2 * i < n.toNat, i < UInt64.size) ∧
    (∀ s, lowerHalf? n = some s → s.toNat = ∑ i ∈ range n.toNat with 2 * i < n.toNat, i ∧
      lowerHalf n = s ∧ Loop.Computes (2 * · < n) n s ∧
      ∀ j < n.toNat, 2 * (Loop.after (2 * · < n) j).i.toNat < UInt64.size) ∧
    (∀ s, nonMultiples? n = some s → s.toNat = ∑ i ∈ range n.toNat with i % 3 ≠ 0, i ∧
      nonMultiples n = s ∧ Loop.Computes (· % 3 != 0) n s) := by
  refine ⟨?_, ?_, ?_⟩
  · rw [lowerHalf?_eq, Option.isSome_iff_ne_none, ne_eq, word?_eq_none, not_le]
  · intro s h
    have hloop := lowerHalf_computes h
    refine ⟨toNat_lowerHalf? h, hloop.result, hloop, ?_⟩
    intro j hj
    have hdouble := double_lt_of_lowerHalf? h
    rw [hloop.counter j hj.le]
    omega
  · intro s h
    have hloop := nonMultiples_computes h
    exact ⟨toNat_nonMultiples? h, hloop.result, hloop⟩

/-- Six thousand million rounds are exact. -/
theorem closed_forms_are_sound_billions :
    lowerHalf? 6000000000 = some 4499999998500000000 ∧ lowerHalf 6000000000 = 4499999998500000000 ∧
      nonMultiples? 6000000000 = some 12000000000000000000 ∧
      nonMultiples 6000000000 = 12000000000000000000 := by
  have hlower : lowerHalf? 6000000000 = some 4499999998500000000 := by decide +kernel
  have hothers : nonMultiples? 6000000000 = some 12000000000000000000 := by decide +kernel
  obtain ⟨-, hl, ho⟩ := closed_forms_are_sound 6000000000
  exact ⟨hlower, (hl _ hlower).2.1, hothers, (ho _ hothers).2.1⟩

/-- Where a growing sum stops being a word. -/
theorem lt_size_iff {f : Nat → Nat} (hf : Monotone f) {a : Nat} (hlast : f a < UInt64.size)
    (hover : UInt64.size ≤ f (a + 1)) (n : Nat) : f n < UInt64.size ↔ n ≤ a := by
  constructor
  · intro h
    by_contra hn
    have := hf (show a + 1 ≤ n by omega)
    omega
  · intro h
    have := hf h
    omega

theorem sum_range_lt_size (n : Nat) : ∑ i ∈ range n, i < UInt64.size ↔ n ≤ 6074001000 := by
  have hmono : Monotone fun n => ∑ i ∈ range n, i := by
    intro a b hab
    exact Finset.sum_le_sum_of_subset (Finset.range_mono hab)
  apply lt_size_iff hmono
  · rw [Finset.sum_range_id]
    decide
  · rw [Finset.sum_range_id]
    decide

theorem sum_nonMultiples_eq (n : Nat) : ∑ i ∈ range n with i % 3 ≠ 0, i =
    n * (n - 1) / 2 - 3 * ((n + 2) / 3 * ((n + 2) / 3 - 1) / 2) := by
  have h := sum_nonMultiples_add n
  rw [Finset.sum_range_id, Finset.sum_range_id] at h
  exact Nat.eq_sub_of_add_eq h

theorem sum_nonMultiples_lt_size (n : Nat) :
    ∑ i ∈ range n with i % 3 ≠ 0, i < UInt64.size ↔ n ≤ 7439101574 := by
  have hmono : Monotone fun n => ∑ i ∈ range n with i % 3 ≠ 0, i := by
    intro a b hab
    exact Finset.sum_le_sum_of_subset (Finset.filter_subset_filter _ (Finset.range_mono hab))
  apply lt_size_iff hmono
  · rw [sum_nonMultiples_eq]
    decide
  · rw [sum_nonMultiples_eq]
    decide

/-- The closed form of `nonMultiples` has no answer exactly if the sum of all the numbers below `n`,
multiples of three included, does not fit into a word. For over a thousand million inputs the sum
that was asked for would fit all the same. -/
theorem nonMultiples_unanswered_iff (n : UInt64) :
    (nonMultiples? n = none ↔ UInt64.size ≤ ∑ i ∈ range n.toNat, i) ∧
    (nonMultiples? n = none ∧ ∑ i ∈ range n.toNat with i % 3 ≠ 0, i < UInt64.size ↔
      6074001001 ≤ n.toNat ∧ n.toNat ≤ 7439101574) := by
  refine ⟨nonMultiples?_eq_none, ?_⟩
  rw [nonMultiples?_eq_none, ← not_lt, sum_range_lt_size, sum_nonMultiples_lt_size]
  omega

/-- No answer, though the sum fits. -/
theorem unanswered_sum_fits :
    nonMultiples? 7000000000 = none ∧
      ∑ i ∈ range (7000000000 : UInt64).toNat with i % 3 ≠ 0, i = 16333333328666666667 ∧
      16333333328666666667 < UInt64.size := by
  refine ⟨by decide +kernel, ?_, by decide⟩
  rw [sum_nonMultiples_eq]
  decide

end Scriptlet.Sums
