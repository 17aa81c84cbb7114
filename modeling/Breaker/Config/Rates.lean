import Breaker.Foundation.Rounding
import Mathlib.Algebra.Order.Floor.Semiring

/-!
# The arithmetic of failure rates

A failure rate is a quotient of two counts, each of the three rounded.  The code
rounds to single precision.  What the development uses of the rounding is that
it is monotone and keeps zero and one, so that every result about rates holds in
single precision and in exact arithmetic alike.
-/

namespace Breaker

open Foundation

structure RateArithmetic where
  round : ℚ → ℚ
  round_mono {x y : ℚ} : 0 ≤ x → x ≤ y → round x ≤ round y
  round_zero : round 0 = 0
  round_one : round 1 = 1

namespace RateArithmetic

def exact : RateArithmetic where
  round q := q
  round_mono _ h := h
  round_zero := rfl
  round_one := rfl

/-- The arithmetic of the code. -/
def single : RateArithmetic where
  round := nearest32
  round_mono := nearest32_mono
  round_zero := nearest32_zero
  round_one := nearest32_one

variable (arith : RateArithmetic)

def rate (failures filled : Nat) : ℚ :=
  arith.round (arith.round failures / arith.round filled)

theorem exact_rate (failures filled : Nat) : exact.rate failures filled = failures / filled := rfl

theorem round_natCast_nonneg (n : Nat) : 0 ≤ arith.round n := by
  have hmono := arith.round_mono le_rfl (Nat.cast_nonneg n : (0 : ℚ) ≤ n)
  rwa [arith.round_zero] at hmono

theorem round_natCast_pos {n : Nat} (h : 0 < n) : 0 < arith.round n := by
  have hcast : (1 : ℚ) ≤ n := by exact_mod_cast h
  have hmono := arith.round_mono zero_le_one hcast
  rw [arith.round_one] at hmono
  exact one_pos.trans_le hmono

theorem rate_mono {a b m n : Nat} (ha : a ≤ b) (hm : 0 < m) (hn : m ≤ n) :
    arith.rate a n ≤ arith.rate b m := by
  have hcount : arith.round a ≤ arith.round b :=
    arith.round_mono (Nat.cast_nonneg a) (by exact_mod_cast ha)
  have hsize : arith.round m ≤ arith.round n :=
    arith.round_mono (Nat.cast_nonneg m) (by exact_mod_cast hn)
  have hpos := arith.round_natCast_pos hm
  have hnonneg := arith.round_natCast_nonneg a
  apply arith.round_mono (div_nonneg hnonneg (hpos.trans_le hsize).le)
  gcongr
  exact hnonneg.trans hcount

theorem rate_zero (filled : Nat) : arith.rate 0 filled = 0 := by
  rw [rate, Nat.cast_zero, arith.round_zero, zero_div, arith.round_zero]

theorem rate_self {n : Nat} (h : 0 < n) : arith.rate n n = 1 := by
  rw [rate, div_self (arith.round_natCast_pos h).ne', arith.round_one]

theorem rate_nonneg (failures filled : Nat) : 0 ≤ arith.rate failures filled := by
  have hquotient := div_nonneg (arith.round_natCast_nonneg failures)
    (arith.round_natCast_nonneg filled)
  have hmono := arith.round_mono le_rfl hquotient
  rwa [arith.round_zero] at hmono

theorem rate_le_one {failures filled : Nat} (h : failures ≤ filled) :
    arith.rate failures filled ≤ 1 := by
  rcases Nat.eq_zero_or_pos filled with hzero | hpos
  · obtain rfl : failures = 0 := by omega
    rw [rate_zero]
    exact zero_le_one
  · rw [← arith.rate_self hpos]
    exact arith.rate_mono h hpos le_rfl

/-! ## The failures that reach a rate -/

def leastFailures (q : ℚ) (filled : Nat) : Nat :=
  (List.range filled).findIdx fun failures => q ≤ arith.rate failures filled

variable {arith} {q : ℚ} {failures filled : Nat}

theorem leastFailures_le_filled : arith.leastFailures q filled ≤ filled := by
  have hle : arith.leastFailures q filled ≤ (List.range filled).length := List.findIdx_le_length
  rwa [List.length_range] at hle

theorem leastFailures_le (h : q ≤ arith.rate failures filled) :
    arith.leastFailures q filled ≤ failures := by
  by_contra hlt
  rw [not_le] at hlt
  have hbelow := List.not_of_lt_findIdx hlt
  rw [List.getElem_range, decide_eq_false_iff_not] at hbelow
  exact hbelow h

theorem le_rate_leastFailures (hq : q ≤ 1) (hfilled : 0 < filled) :
    q ≤ arith.rate (arith.leastFailures q filled) filled := by
  rcases leastFailures_le_filled.lt_or_eq with hlt | heq
  · have hbound : (List.range filled).findIdx (fun failures => q ≤ arith.rate failures filled) <
        (List.range filled).length := by
      rwa [List.length_range]
    have hfound := List.findIdx_getElem (w := hbound)
    rw [List.getElem_range] at hfound
    exact of_decide_eq_true hfound
  · rw [heq, arith.rate_self hfilled]
    exact hq

theorem leastFailures_pos (hpos : 0 < q) (hfilled : 0 < filled) (hq : q ≤ 1) :
    0 < arith.leastFailures q filled := by
  have hreached : q ≤ arith.rate (arith.leastFailures q filled) filled :=
    le_rate_leastFailures hq hfilled
  by_contra hnone
  rw [Nat.eq_zero_of_not_pos hnone, rate_zero] at hreached
  exact absurd hpos (not_lt.mpr hreached)

theorem exact_leastFailures (hq : q ≤ 1) (hfilled : 0 < filled) :
    exact.leastFailures q filled = ⌈q * filled⌉₊ := by
  have hcast : (0 : ℚ) < filled := by exact_mod_cast hfilled
  refine le_antisymm (leastFailures_le ?_) (Nat.ceil_le.mpr ?_)
  · rw [exact_rate, le_div_iff₀ hcast]
    exact Nat.le_ceil _
  · rw [← le_div_iff₀ hcast, ← exact_rate]
    exact le_rate_leastFailures hq hfilled

end RateArithmetic

end Breaker
