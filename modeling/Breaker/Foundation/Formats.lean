import Mathlib.Data.Rat.Floor
import Mathlib.Data.Int.Log
import Mathlib.Algebra.Order.Floor.Ring
import Mathlib.Tactic.Linarith
import Mathlib.Tactic.NormNum
import Mathlib.Tactic.Ring

/-!
# Rounding to a binary format

A format is given by the number of the stored bits of a significand and by the
exponent of the last subnormal place.  Rounding takes a rational to the nearest
number of the format, ties to the even significand; it knows no largest number.
It is monotone, fixes the numbers of the format, and leaves no number of the
format closer to its argument than its value.
-/

namespace Breaker.Foundation

/-! ## Nearest integer -/

def roundHalfEven (x : ℚ) : ℤ :=
  let low := ⌊x⌋
  let rest := x - low
  if rest < 1 / 2 then low
  else if 1 / 2 < rest then low + 1
  else if low % 2 = 0 then low else low + 1

@[simp] theorem roundHalfEven_intCast (n : ℤ) : roundHalfEven n = n := by
  simp [roundHalfEven]

theorem floor_le_roundHalfEven (x : ℚ) : ⌊x⌋ ≤ roundHalfEven x := by
  unfold roundHalfEven
  dsimp only
  split_ifs <;> omega

theorem roundHalfEven_le_floor_add_one (x : ℚ) : roundHalfEven x ≤ ⌊x⌋ + 1 := by
  unfold roundHalfEven
  dsimp only
  split_ifs <;> omega

theorem roundHalfEven_mono {x y : ℚ} (h : x ≤ y) : roundHalfEven x ≤ roundHalfEven y := by
  rcases (Int.floor_mono h).lt_or_eq with hlt | heq
  · have hx := roundHalfEven_le_floor_add_one x
    have hy := floor_le_roundHalfEven y
    omega
  · -- Below a common floor only the distance to that floor decides.
    have hrest : x - ⌊x⌋ ≤ y - ⌊y⌋ := by rw [heq]; linarith
    unfold roundHalfEven
    dsimp only
    rw [heq] at hrest ⊢
    split_ifs <;> first | omega | (exfalso; linarith)

theorem roundHalfEven_le_of_le {x : ℚ} {n : ℤ} (h : x ≤ n) : roundHalfEven x ≤ n := by
  simpa using roundHalfEven_mono h

theorem le_roundHalfEven_of_le {x : ℚ} {n : ℤ} (h : (n : ℚ) ≤ x) : n ≤ roundHalfEven x := by
  simpa using roundHalfEven_mono h

theorem roundHalfEven_lt_of_lt {x : ℚ} {n : ℤ} (h : x < n - 1 / 2) : roundHalfEven x < n := by
  have hfloor : ⌊x⌋ < n := by
    rw [Int.floor_lt]
    linarith
  rcases (Int.lt_iff_add_one_le.mp hfloor).lt_or_eq with hlt | heq
  · exact (roundHalfEven_le_floor_add_one x).trans_lt hlt
  · have hrest : x - ⌊x⌋ < 1 / 2 := by
      have hcast : ((⌊x⌋ + 1 : ℤ) : ℚ) = n := by rw [heq]
      push_cast at hcast
      linarith
    unfold roundHalfEven
    dsimp only
    rwa [if_pos hrest]

theorem abs_roundHalfEven_sub_le_half (x : ℚ) : |roundHalfEven x - x| ≤ 1 / 2 := by
  have hlow := Int.floor_le x
  have hhigh := Int.lt_floor_add_one x
  unfold roundHalfEven
  dsimp only
  rw [abs_le]
  split_ifs <;> push_cast <;> constructor <;> linarith

theorem abs_roundHalfEven_sub_le (x : ℚ) (n : ℤ) : |roundHalfEven x - x| ≤ |n - x| := by
  have hhalf := abs_roundHalfEven_sub_le_half x
  rcases lt_trichotomy n (roundHalfEven x) with hlt | rfl | hgt
  · have hstep : (n : ℚ) + 1 ≤ roundHalfEven x := by exact_mod_cast hlt
    rw [abs_le] at hhalf
    exact (abs_le.mpr hhalf).trans (by rw [abs_sub_comm, le_abs]; left; linarith [hhalf.1, hhalf.2])
  · exact le_rfl
  · have hstep : (roundHalfEven x : ℚ) + 1 ≤ n := by exact_mod_cast hgt
    rw [abs_le] at hhalf
    exact (abs_le.mpr hhalf).trans (by rw [le_abs]; left; linarith [hhalf.1, hhalf.2])

theorem roundHalfEven_eq_of_lt {x : ℚ} {n : ℤ} (h : |n - x| < 1 / 2) : roundHalfEven x = n := by
  have hclose := (abs_roundHalfEven_sub_le x n).trans_lt h
  rw [abs_lt] at h hclose
  have hlow : (roundHalfEven x : ℚ) < n + 1 := by linarith [h.1, hclose.2]
  have hhigh : (n : ℚ) < roundHalfEven x + 1 := by linarith [h.2, hclose.1]
  have hlow' : roundHalfEven x < n + 1 := by exact_mod_cast hlow
  have hhigh' : n < roundHalfEven x + 1 := by exact_mod_cast hhigh
  omega

/-! ## Multiples of a power of two -/

theorem two_zpow_pos (e : ℤ) : (0 : ℚ) < 2 ^ e := zpow_pos (by norm_num) e

theorem two_zpow_add (e : ℤ) (n : ℕ) :
    (2 : ℚ) ^ (e + n) = ((2 ^ n : ℤ) : ℚ) * 2 ^ e := by
  rw [zpow_add₀ (by norm_num), mul_comm]
  norm_cast

def roundTo (e : ℤ) (x : ℚ) : ℚ := roundHalfEven (x / 2 ^ e) * 2 ^ e

theorem roundTo_mono (e : ℤ) {x y : ℚ} (h : x ≤ y) : roundTo e x ≤ roundTo e y := by
  have hround : (roundHalfEven (x / 2 ^ e) : ℚ) ≤ roundHalfEven (y / 2 ^ e) := by
    exact_mod_cast roundHalfEven_mono (div_le_div_of_nonneg_right h (two_zpow_pos e).le)
  exact mul_le_mul_of_nonneg_right hround (two_zpow_pos e).le

@[simp] theorem roundTo_multiple (e n : ℤ) : roundTo e (n * 2 ^ e) = n * 2 ^ e := by
  rw [roundTo, mul_div_cancel_right₀ _ (two_zpow_pos e).ne', roundHalfEven_intCast]

theorem roundTo_le {x : ℚ} {e n : ℤ} (h : x ≤ n * 2 ^ e) : roundTo e x ≤ n * 2 ^ e := by
  simpa using roundTo_mono e h

theorem le_roundTo {x : ℚ} {e n : ℤ} (h : n * 2 ^ e ≤ x) : n * 2 ^ e ≤ roundTo e x := by
  simpa using roundTo_mono e h

theorem abs_roundTo_sub (e : ℤ) (x z : ℚ) :
    |z * 2 ^ e - x| = |z - x / 2 ^ e| * 2 ^ e := by
  rw [← abs_of_pos (two_zpow_pos e), ← abs_mul, abs_of_pos (two_zpow_pos e), sub_mul,
    div_mul_cancel₀ _ (two_zpow_pos e).ne']

theorem abs_roundTo_sub_le_half (e : ℤ) (x : ℚ) : |roundTo e x - x| ≤ 2 ^ (e - 1) := by
  have hhalf := abs_roundHalfEven_sub_le_half (x / 2 ^ e)
  have hpow : (2 : ℚ) ^ (e - 1) = 1 / 2 * 2 ^ e := by
    rw [zpow_sub₀ (by norm_num), zpow_one]
    ring
  rw [roundTo, abs_roundTo_sub, hpow]
  exact mul_le_mul_of_nonneg_right hhalf (two_zpow_pos e).le

theorem abs_roundTo_sub_le (e : ℤ) (x : ℚ) (n : ℤ) : |roundTo e x - x| ≤ |n * 2 ^ e - x| := by
  rw [roundTo, abs_roundTo_sub, abs_roundTo_sub]
  exact mul_le_mul_of_nonneg_right (abs_roundHalfEven_sub_le _ n) (two_zpow_pos e).le

/-! ## Formats -/

structure Format where
  /-- The stored bits of a significand. -/
  fraction : ℕ
  /-- The exponent of the last place of the subnormal numbers. -/
  least : ℤ

namespace Format

variable (f : Format)

/-- Exponent of the last place of the numbers around `x`. -/
def place (x : ℚ) : ℤ := max (Int.log 2 |x| - f.fraction) f.least

def nearest (x : ℚ) : ℚ := roundTo (f.place x) x

variable {f} {x y : ℚ}

@[simp] theorem nearest_zero : f.nearest 0 = 0 := by
  simpa [nearest] using roundTo_multiple (f.place 0) 0

theorem place_mono (hx : 0 < x) (h : x ≤ y) : f.place x ≤ f.place y := by
  have hlog : Int.log 2 |x| ≤ Int.log 2 |y| := by
    rw [abs_of_pos hx, abs_of_pos (hx.trans_le h)]
    exact Int.log_mono_right hx h
  exact max_le_max (by omega) le_rfl

theorem lt_place (hx : 0 < x) : x < 2 ^ (f.place x + (f.fraction + 1 : ℕ)) := by
  have hlog : x < 2 ^ (Int.log 2 x + 1) := by
    exact_mod_cast Int.lt_zpow_succ_log_self (b := 2) (by norm_num) x
  have hexp : Int.log 2 x + 1 ≤ f.place x + (f.fraction + 1 : ℕ) := by
    unfold place
    rw [abs_of_pos hx]
    push_cast
    omega
  exact hlog.trans_le (zpow_le_zpow_right₀ (by norm_num) hexp)

theorem place_le (hx : 0 < x) (hnormal : f.least < f.place x) :
    2 ^ (f.place x + f.fraction) ≤ x := by
  have hlog : (2 : ℚ) ^ Int.log 2 x ≤ x := by
    exact_mod_cast Int.zpow_log_le_self (b := 2) (by norm_num) hx
  have hexp : f.place x + f.fraction ≤ Int.log 2 x := by
    unfold place at hnormal ⊢
    rw [abs_of_pos hx] at hnormal ⊢
    omega
  exact (zpow_le_zpow_right₀ (by norm_num) hexp).trans hlog

theorem place_lt {k : ℤ} (hx : 0 < x) (h : x < 2 ^ k) (hk : f.least + f.fraction < k) :
    f.place x < k - f.fraction := by
  have hlog : Int.log 2 x < k := (Int.lt_zpow_iff_log_lt (by norm_num) hx).mp (by exact_mod_cast h)
  unfold place
  rw [abs_of_pos hx]
  omega

theorem nearest_nonneg (hx : 0 ≤ x) : 0 ≤ f.nearest x := by
  simpa [nearest] using le_roundTo (e := f.place x) (n := 0) (x := x) (by simpa using hx)

theorem nearest_nonpos (hx : x ≤ 0) : f.nearest x ≤ 0 := by
  simpa [nearest] using roundTo_le (e := f.place x) (n := 0) (x := x) (by simpa using hx)

theorem nearest_mono (hx : 0 ≤ x) (h : x ≤ y) : f.nearest x ≤ f.nearest y := by
  rcases hx.eq_or_lt with rfl | hpos
  · simpa using nearest_nonneg h
  have hypos := hpos.trans_le h
  rcases (place_mono (f := f) hpos h).lt_or_eq with hlt | heq
  · -- A power of two between the two scales separates the two results.
    have hupper : f.nearest x ≤ 2 ^ (f.place x + (f.fraction + 1 : ℕ)) := by
      have hle := (lt_place (f := f) hpos).le
      rw [two_zpow_add] at hle ⊢
      exact roundTo_le hle
    have hlower : 2 ^ (f.place y + f.fraction) ≤ f.nearest y := by
      have hnormal : f.least < f.place y := (le_max_right _ _).trans_lt hlt
      have hle := place_le hypos hnormal
      rw [two_zpow_add] at hle ⊢
      exact le_roundTo hle
    have hbetween : (2 : ℚ) ^ (f.place x + (f.fraction + 1 : ℕ)) ≤ 2 ^ (f.place y + f.fraction) :=
      zpow_le_zpow_right₀ (by norm_num) (by push_cast; omega)
    exact hupper.trans (hbetween.trans hlower)
  · unfold nearest
    rw [heq]
    exact roundTo_mono _ h

/-! ### The numbers of a format -/

/-- A nonnegative number of the format. -/
def Represents (f : Format) (x : ℚ) : Prop :=
  ∃ n e : ℤ, 0 ≤ n ∧ n ≤ 2 ^ (f.fraction + 1) ∧ f.least ≤ e ∧ x = n * 2 ^ e

theorem represents_zero : f.Represents 0 :=
  ⟨0, f.least, le_rfl, by positivity, le_rfl, by simp⟩

theorem represents_nearest (hx : 0 ≤ x) : f.Represents (f.nearest x) := by
  rcases hx.eq_or_lt with rfl | hpos
  · rw [nearest_zero]
    exact represents_zero
  · refine ⟨roundHalfEven (x / 2 ^ f.place x), f.place x, ?_, ?_, le_max_right _ _, rfl⟩
    · exact le_roundHalfEven_of_le (by simpa using div_nonneg hx (two_zpow_pos _).le)
    · have hle := (lt_place (f := f) hpos).le
      rw [two_zpow_add] at hle
      exact roundHalfEven_le_of_le ((div_le_iff₀ (two_zpow_pos _)).mpr hle)

/-- The carry of a significand: its largest value is also a power of two of the next scale. -/
theorem Represents.normal (h : f.Represents x) :
    ∃ n e : ℤ, 0 ≤ n ∧ n < 2 ^ (f.fraction + 1) ∧ f.least ≤ e ∧ x = n * 2 ^ e := by
  obtain ⟨n, e, hn, hle, he, rfl⟩ := h
  rcases hle.lt_or_eq with hlt | rfl
  · exact ⟨n, e, hn, hlt, he, rfl⟩
  · refine ⟨2 ^ f.fraction, e + 1, by positivity, ?_, by omega, ?_⟩
    · exact pow_lt_pow_right₀ (by norm_num) (Nat.lt_succ_self _)
    · rw [zpow_add₀ (by norm_num), pow_succ]
      push_cast
      ring

theorem Represents.multiple (h : f.Represents x) (hx : 0 < x) :
    ∃ n : ℤ, x = n * 2 ^ f.place x := by
  obtain ⟨n, e, hn, hlt, he, rfl⟩ := h.normal
  have hplace : f.place (n * 2 ^ e) ≤ e := by
    have hbound : (n : ℚ) * 2 ^ e < 2 ^ (e + (f.fraction + 1 : ℕ)) := by
      rw [two_zpow_add]
      exact mul_lt_mul_of_pos_right (by exact_mod_cast hlt) (two_zpow_pos e)
    have hstep := place_lt (f := f) hx hbound (by push_cast; omega)
    push_cast at hstep
    omega
  obtain ⟨k, hk⟩ := Int.le.dest hplace
  refine ⟨n * 2 ^ k, ?_⟩
  nth_rewrite 1 [← hk]
  rw [two_zpow_add]
  push_cast
  ring

theorem Represents.nearest_eq (h : f.Represents x) (hx : 0 ≤ x) : f.nearest x = x := by
  rcases hx.eq_or_lt with rfl | hpos
  · exact nearest_zero
  obtain ⟨n, hn⟩ := h.multiple hpos
  have hround := roundTo_multiple (f.place x) n
  rw [← hn] at hround
  exact hround

theorem nearest_idem (hx : 0 ≤ x) : f.nearest (f.nearest x) = f.nearest x :=
  (represents_nearest hx).nearest_eq (nearest_nonneg hx)

/-! ### Closeness -/

theorem abs_nearest_sub_le (hx : 0 ≤ x) (hy : 0 ≤ y) (h : f.Represents y) :
    |f.nearest x - x| ≤ |y - x| := by
  rcases hx.eq_or_lt with rfl | hpos
  · rw [nearest_zero, sub_zero, abs_zero]
    exact abs_nonneg _
  rcases hy.eq_or_lt with rfl | hypos
  · simpa [nearest] using abs_roundTo_sub_le (f.place x) x 0
  rcases le_or_gt x y with hle | hlt
  · -- The places of a larger number are also places of `x`.
    obtain ⟨n, hn⟩ := h.multiple hypos
    obtain ⟨k, hk⟩ := Int.le.dest (place_mono (f := f) hpos hle)
    have hmultiple : y = ((n * 2 ^ k : ℤ) : ℚ) * 2 ^ f.place x := by
      rw [hn, ← hk, two_zpow_add]
      push_cast
      ring
    rw [hmultiple]
    exact abs_roundTo_sub_le (f.place x) x _
  · rcases (place_mono (f := f) hypos hlt.le).lt_or_eq with hlower | heq
    · -- The smallest number of the scale of `x` lies in between.
      have hnormal : f.least < f.place x := (le_max_right _ _).trans_lt hlower
      have hbetween : y ≤ 2 ^ (f.place x + f.fraction) := by
        refine (lt_place (f := f) hypos).le.trans (zpow_le_zpow_right₀ (by norm_num) ?_)
        push_cast
        omega
      have hbelow := place_le hpos hnormal
      rw [two_zpow_add] at hbetween hbelow
      refine (abs_roundTo_sub_le (f.place x) x (2 ^ f.fraction)).trans ?_
      rw [abs_sub_comm, abs_sub_comm y, abs_of_nonneg (sub_nonneg.mpr hbelow),
        abs_of_nonneg (sub_nonneg.mpr hlt.le)]
      linarith
    · obtain ⟨n, hn⟩ := h.multiple hypos
      rw [hn, heq]
      exact abs_roundTo_sub_le (f.place x) x n

theorem abs_nearest_sub_le_half {k : ℤ} (hx : 0 ≤ x) (hle : x ≤ 2 ^ k)
    (hk : f.least + f.fraction < k) : |f.nearest x - x| ≤ 2 ^ (k - f.fraction - 2) := by
  rcases hx.eq_or_lt with rfl | hpos
  · rw [nearest_zero, sub_zero, abs_zero]
    exact (two_zpow_pos _).le
  rcases hle.lt_or_eq with hlt | rfl
  · have hplace := place_lt hpos hlt hk
    exact (abs_roundTo_sub_le_half _ x).trans (zpow_le_zpow_right₀ (by norm_num) (by omega))
  · have hpower : f.Represents (2 ^ k) := by
      refine ⟨2 ^ f.fraction, k - f.fraction, by positivity, ?_, by omega, ?_⟩
      · exact pow_le_pow_right₀ (by norm_num) (Nat.le_succ _)
      · rw [← two_zpow_add, sub_add_cancel]
    rw [hpower.nearest_eq hx, sub_self, abs_zero]
    exact (two_zpow_pos _).le

theorem nearest_lt_nearest {k : ℤ} (hx : 0 ≤ x) (hle : y ≤ 2 ^ k) (hk : f.least + f.fraction < k)
    (h : x + 2 ^ (k - f.fraction - 1) < y) : f.nearest x < f.nearest y := by
  have hplace := two_zpow_pos (k - f.fraction - 1)
  have hxy : x ≤ y := by linarith
  have hxhalf := abs_le.mp (abs_nearest_sub_le_half hx (hxy.trans hle) hk)
  have hyhalf := abs_le.mp (abs_nearest_sub_le_half (hx.trans hxy) hle hk)
  have hpow : (2 : ℚ) ^ (k - f.fraction - 1) = 2 * 2 ^ (k - f.fraction - 2) := by
    have hexp : k - f.fraction - 1 = 1 + (k - f.fraction - 2) := by ring
    rw [hexp, zpow_add₀ (by norm_num), zpow_one]
  rw [hpow] at h
  linarith [hxhalf.2, hyhalf.1]

theorem nearest_natCast {n : ℕ} (hleast : f.least ≤ 0) (hn : n ≤ 2 ^ (f.fraction + 1)) :
    f.nearest n = n := by
  refine Represents.nearest_eq ⟨n, 0, by positivity, by exact_mod_cast hn, hleast, by simp⟩ ?_
  positivity

/-! ### Ratios of whole numbers -/

theorem nearest_one (hleast : f.least ≤ 0) : f.nearest 1 = 1 := by
  simpa using nearest_natCast (f := f) (n := 1) hleast Nat.one_le_two_pow

theorem nearest_ratio_le_one {a n : ℕ} (hleast : f.least ≤ 0) (h : a ≤ n) :
    0 ≤ f.nearest (f.nearest a / f.nearest n) ∧ f.nearest (f.nearest a / f.nearest n) ≤ 1 := by
  have ha : 0 ≤ f.nearest a := nearest_nonneg a.cast_nonneg
  have hle : f.nearest a ≤ f.nearest n := nearest_mono a.cast_nonneg (by exact_mod_cast h)
  have hratio : 0 ≤ f.nearest a / f.nearest n := div_nonneg ha (ha.trans hle)
  refine ⟨nearest_nonneg hratio, ?_⟩
  calc f.nearest (f.nearest a / f.nearest n)
      ≤ f.nearest 1 := nearest_mono hratio (div_le_one_of_le₀ hle (ha.trans hle))
    _ = 1 := nearest_one hleast

theorem nearest_ratio_eq {a n : ℕ} (hleast : f.least ≤ 0) (h : a ≤ n)
    (hn : n ≤ 2 ^ (f.fraction + 1)) :
    f.nearest (f.nearest a / f.nearest n) = f.nearest (a / n) := by
  rw [nearest_natCast hleast (h.trans hn), nearest_natCast hleast hn]

theorem abs_nearest_ratio_sub_le {a n : ℕ} (hneg : f.least + f.fraction < 0) (h : a ≤ n) :
    |f.nearest (a / n) - a / n| ≤ 2 ^ (-f.fraction - 2 : ℤ) := by
  have hratio : (a / n : ℚ) ≤ 2 ^ (0 : ℤ) := by
    rw [zpow_zero]
    exact div_le_one_of_le₀ (by exact_mod_cast h) n.cast_nonneg
  simpa using abs_nearest_sub_le_half (by positivity) hratio hneg

end Format

/-! ## Double and single precision -/

namespace Format

def double : Format := ⟨52, -1074⟩

def single : Format := ⟨23, -149⟩

end Format

end Breaker.Foundation
