import Breaker.Foundation.Formats
import Mathlib.Tactic.FieldSimp
import Mathlib.Tactic.Positivity

/-!
# Rounding rationals to binary64 and binary32

`nearest64` rounds a rational to the nearest number with a 53-bit significand and
an exponent of at least `-1074`, ties to the even significand.  It knows no
largest number: overflow to an infinity is a matter of the caller.  What the
callers need is that it is monotone, that it fixes its own values, and that its
values from `2 ^ 53` on are whole.  `nearest32` is the same for single precision.
-/

namespace Breaker.Foundation

/-! ## Nearest binary64 number -/

/-- Exponent of the last place of the binary64 numbers around `x`. -/
def lastPlace (x : ℚ) : ℤ := max (Int.log 2 |x| - 52) (-1074)

def nearest64 (x : ℚ) : ℚ :=
  roundHalfEven (x / 2 ^ lastPlace x) * 2 ^ lastPlace x

theorem lastPlace_eq (x : ℚ) : lastPlace x = Format.double.place x := by
  simp only [lastPlace, Format.place, Format.double, Nat.cast_ofNat]

theorem nearest64_eq (x : ℚ) : nearest64 x = Format.double.nearest x := by
  rw [nearest64, lastPlace_eq, Format.nearest, roundTo]

@[simp] theorem nearest64_zero : nearest64 0 = 0 := by
  rw [nearest64_eq, Format.nearest_zero]

theorem nearest64_nonneg {x : ℚ} (hx : 0 ≤ x) : 0 ≤ nearest64 x := by
  rw [nearest64_eq]
  exact Format.nearest_nonneg hx

theorem nearest64_nonpos {x : ℚ} (hx : x ≤ 0) : nearest64 x ≤ 0 := by
  rw [nearest64_eq]
  exact Format.nearest_nonpos hx

theorem nearest64_mono {x y : ℚ} (hx : 0 ≤ x) (h : x ≤ y) : nearest64 x ≤ nearest64 y := by
  rw [nearest64_eq, nearest64_eq]
  exact Format.nearest_mono hx h

theorem nearest64_idem {x : ℚ} (hx : 0 ≤ x) : nearest64 (nearest64 x) = nearest64 x := by
  rw [nearest64_eq, nearest64_eq]
  exact Format.nearest_idem hx

theorem nearest64_of_places {n e : ℤ} (hn : 0 ≤ n) (hle : n ≤ 2 ^ 53) (he : -1074 ≤ e) :
    nearest64 (n * 2 ^ e) = n * 2 ^ e := by
  have hx : (0 : ℚ) ≤ n * 2 ^ e := mul_nonneg (by exact_mod_cast hn) (two_zpow_pos e).le
  have hdouble : Format.double.Represents (n * 2 ^ e) := ⟨n, e, hn, hle, he, rfl⟩
  rw [nearest64_eq, hdouble.nearest_eq hx]

theorem nearest64_one : nearest64 1 = 1 := by
  have h := nearest64_of_places (n := 1) (e := 0) (by norm_num) (by norm_num) (by norm_num)
  simpa using h

theorem nearest64_whole {x : ℚ} (hx : 0 ≤ x) (hlarge : 2 ^ 53 ≤ nearest64 x) :
    ∃ n : ℤ, nearest64 x = n := by
  obtain ⟨n, e, hn, hle, he, heq⟩ := Format.represents_nearest (f := .double) hx
  have hexp : 0 ≤ e := by
    by_contra hneg
    have hsmall : (2 : ℚ) ^ e < 1 := zpow_lt_one_of_neg₀ (by norm_num) (by omega)
    have hn' : (n : ℚ) ≤ 2 ^ 53 := by exact_mod_cast hle
    have hprod : (n : ℚ) * 2 ^ e < 2 ^ 53 := by
      nlinarith [two_zpow_pos e]
    rw [nearest64_eq, heq] at hlarge
    linarith
  obtain ⟨k, rfl⟩ := Int.eq_ofNat_of_zero_le hexp
  exact ⟨n * 2 ^ k, by rw [nearest64_eq, heq]; push_cast; norm_cast⟩

/-! ## The limit of `2 ^ 64` -/

private theorem lastPlace_of_large {x : ℚ} (hlow : 2 ^ 63 ≤ x) (hhigh : x < 2 ^ 64) :
    lastPlace x = 11 := by
  have hpos : 0 < x := lt_of_lt_of_le (by norm_num) hlow
  have hupper : Int.log 2 x < 64 :=
    (Int.lt_zpow_iff_log_lt (by norm_num) hpos).mp (by exact_mod_cast hhigh)
  have hlower : 63 ≤ Int.log 2 x :=
    (Int.zpow_le_iff_le_log (by norm_num) hpos).mp (by exact_mod_cast hlow)
  unfold lastPlace
  rw [abs_of_pos hpos]
  omega

theorem nearest64_lt_iff {x : ℚ} (hx : 0 ≤ x) : nearest64 x < 2 ^ 64 ↔ x < 2 ^ 64 - 2 ^ 10 := by
  constructor
  · intro h
    by_contra hge
    have hhalf : nearest64 (2 ^ 64 - 2 ^ 10) = 2 ^ 64 := by
      have hplace : lastPlace (2 ^ 64 - 2 ^ 10) = 11 :=
        lastPlace_of_large (by norm_num) (by norm_num)
      have hround : roundHalfEven ((2 ^ 64 - 2 ^ 10) / 2 ^ (11 : ℤ)) = 2 ^ 53 := by
        have hfloor : ⌊((2 ^ 64 - 2 ^ 10) / 2 ^ (11 : ℤ) : ℚ)⌋ = 2 ^ 53 - 1 := by
          rw [Int.floor_eq_iff]
          norm_num
        rw [roundHalfEven, hfloor]
        norm_num
      rw [nearest64, hplace, hround]
      norm_num
    have hmono := nearest64_mono (by norm_num) (not_lt.mp hge)
    rw [hhalf] at hmono
    exact absurd h (not_lt.mpr hmono)
  · intro h
    rcases lt_or_ge x (2 ^ 63) with hsmall | hlarge
    · have hround : nearest64 (2 ^ 63) = 2 ^ 63 := by
        have := nearest64_of_places (n := 1) (e := 63) (by norm_num) (by norm_num) (by norm_num)
        norm_num at this ⊢
        exact this
      have hmono := nearest64_mono hx hsmall.le
      rw [hround] at hmono
      exact hmono.trans_lt (by norm_num)
    · have hplace : lastPlace x = 11 := lastPlace_of_large hlarge (h.trans (by norm_num))
      have hquot : x / 2 ^ (11 : ℤ) < ((2 ^ 53 : ℤ) : ℚ) - 1 / 2 := by
        rw [div_lt_iff₀ (by norm_num)]
        norm_num at h ⊢
        linarith
      have hround : (roundHalfEven (x / 2 ^ (11 : ℤ)) : ℚ) < 2 ^ 53 := by
        exact_mod_cast roundHalfEven_lt_of_lt hquot
      have hscaled := mul_lt_mul_of_pos_right hround (two_zpow_pos 11)
      rw [nearest64, hplace]
      exact hscaled.trans_le (by norm_num)

/-! ## Nearest binary32 number -/

def lastPlace32 (x : ℚ) : ℤ := max (Int.log 2 |x| - 23) (-149)

/-- `nearest64` with a 24-bit significand and an exponent of at least `-149`. -/
def nearest32 (x : ℚ) : ℚ :=
  roundHalfEven (x / 2 ^ lastPlace32 x) * 2 ^ lastPlace32 x

theorem nearest32_eq (x : ℚ) : nearest32 x = Format.single.nearest x := by
  have hplace : lastPlace32 x = Format.single.place x := by
    simp only [lastPlace32, Format.place, Format.single, Nat.cast_ofNat]
  rw [nearest32, hplace, Format.nearest, roundTo]

theorem nearest32_natCast {n : ℕ} (hn : n ≤ 2 ^ 24) : nearest32 n = n := by
  rw [nearest32_eq]
  exact Format.nearest_natCast (by norm_num [Format.single]) hn

@[simp] theorem nearest32_zero : nearest32 0 = 0 := by
  rw [nearest32_eq, Format.nearest_zero]

theorem nearest32_one : nearest32 1 = 1 := by
  simpa using nearest32_natCast (n := 1) (by norm_num)

theorem nearest32_mono {x y : ℚ} (hx : 0 ≤ x) (h : x ≤ y) : nearest32 x ≤ nearest32 y := by
  rw [nearest32_eq, nearest32_eq]
  exact Format.nearest_mono hx h

theorem nearest32_lt_nearest32 {x y : ℚ} (hx : 0 ≤ x) (hle : y ≤ 1)
    (h : x + 1 / 2 ^ 24 < y) : nearest32 x < nearest32 y := by
  rw [nearest32_eq, nearest32_eq]
  apply Format.nearest_lt_nearest (k := 0) hx (by simpa using hle) (by norm_num [Format.single])
  have hpow : (2 : ℚ) ^ ((0 : ℤ) - (Format.single.fraction : ℤ) - 1) = 1 / 2 ^ 24 := by
    norm_num [Format.single]
  rw [hpow]
  exact h

theorem nearest32_le_iff {a n p q : ℕ} (hn : 0 < n) (hp : p ≤ q) (hq : 0 < q)
    (hsmall : n * q < 2 ^ 24) :
    nearest32 (p / q) ≤ nearest32 (a / n) ↔ (p / q : ℚ) ≤ a / n := by
  have hnpos : (0 : ℚ) < n := by exact_mod_cast hn
  have hqpos : (0 : ℚ) < q := by exact_mod_cast hq
  refine ⟨fun hround => ?_, fun hle => nearest32_mono (by positivity) hle⟩
  by_contra hlt
  rw [not_le, div_lt_div_iff₀ hnpos hqpos] at hlt
  -- Different fractions with these denominators differ by at least `1 / (n * q)`.
  have hgap : (a / n : ℚ) + 1 / (n * q) ≤ p / q := by
    have hstep : (a * q + 1 : ℚ) ≤ p * n := by
      have hnat : a * q < p * n := by exact_mod_cast hlt
      exact_mod_cast hnat
    calc (a / n : ℚ) + 1 / (n * q) = (a * q + 1) / (n * q) := by field_simp
      _ ≤ p * n / (n * q) := div_le_div_of_nonneg_right hstep (by positivity)
      _ = p / q := by field_simp
  have hprod : (1 / 2 ^ 24 : ℚ) < 1 / (n * q) :=
    one_div_lt_one_div_of_lt (mul_pos hnpos hqpos) (by exact_mod_cast hsmall)
  have hle : (p / q : ℚ) ≤ 1 := (div_le_one hqpos).mpr (by exact_mod_cast hp)
  exact absurd (nearest32_lt_nearest32 (by positivity) hle (by linarith)) (not_lt.mpr hround)

end Breaker.Foundation
