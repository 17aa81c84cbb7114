import Breaker.Foundation.Rounding

/-!
# Floating-point values over a rounding function

A floating-point value is a rational, one of the two infinities, or NaN.  The
operations propagate the special values as IEEE 754 does and hand every exact
finite result to a rounding function.  With `FloatValue.finite` as the rounding
function the arithmetic is exact; with `binary64` it is that of a double.
`min` and `max` drop a NaN operand and `clamp` keeps it.  Signed zeros are not
told apart: no operation below can see the difference.
-/

namespace Breaker.Foundation

inductive FloatValue where
  | finite (q : ℚ)
  | posInf
  | negInf
  | nan
  deriving DecidableEq, Repr

/-- Round to a double; magnitudes from `2 ^ 1024` on overflow. -/
def binary64 (q : ℚ) : FloatValue :=
  let r := nearest64 q
  if 2 ^ 1024 ≤ r then .posInf
  else if r ≤ -2 ^ 1024 then .negInf
  else .finite r

namespace FloatValue

/-! ## Comparisons: false as soon as one side is NaN -/

def lt : FloatValue → FloatValue → Bool
  | .nan, _ | _, .nan => false
  | .finite a, .finite b => decide (a < b)
  | .negInf, .negInf => false
  | .negInf, _ => true
  | _, .negInf => false
  | .posInf, _ => false
  | .finite _, .posInf => true

def le : FloatValue → FloatValue → Bool
  | .nan, _ | _, .nan => false
  | .finite a, .finite b => decide (a ≤ b)
  | .negInf, _ => true
  | _, .posInf => true
  | .posInf, _ => false
  | .finite _, .negInf => false

@[simp] theorem lt_finite (a b : ℚ) : lt (.finite a) (.finite b) = decide (a < b) := rfl

@[simp] theorem le_finite (a b : ℚ) : le (.finite a) (.finite b) = decide (a ≤ b) := rfl

theorem le_trans {x y z : FloatValue} (hxy : le x y = true) (hyz : le y z = true) :
    le x z = true := by
  cases x <;> cases y <;> cases z <;> first
    | rfl
    | (cases hxy; done)
    | cases hyz
    | skip
  simp only [le_finite, decide_eq_true_eq] at hxy hyz ⊢
  exact hxy.trans hyz

@[simp] theorem lt_nan (x : FloatValue) : lt x .nan = false := by cases x <;> rfl

@[simp] theorem nan_lt (x : FloatValue) : lt .nan x = false := by cases x <;> rfl

/-! ## Selection -/

def min : FloatValue → FloatValue → FloatValue
  | .nan, y => y
  | x, .nan => x
  | x, y => if le x y then x else y

def max : FloatValue → FloatValue → FloatValue
  | .nan, y => y
  | x, .nan => x
  | x, y => if le x y then y else x

def clamp (x low high : FloatValue) : FloatValue :=
  if lt x low then low else if lt high x then high else x

theorem min_finite (a b : ℚ) : min (.finite a) (.finite b) = .finite (Min.min a b) := by
  by_cases h : a ≤ b
  · simp [min, h]
  · simp [min, h, min_eq_right (not_le.mp h).le]

theorem max_finite (a b : ℚ) : max (.finite a) (.finite b) = .finite (Max.max a b) := by
  by_cases h : a ≤ b
  · simp [max, h]
  · simp [max, h, max_eq_left (not_le.mp h).le]

@[simp] theorem clamp_nan (low high : FloatValue) : clamp .nan low high = .nan := by
  simp [clamp]

theorem clamp_of_ne_nan {x : FloatValue} (hx : x ≠ .nan) {low high : ℚ} (h : low ≤ high) :
    ∃ q, clamp x (.finite low) (.finite high) = .finite q ∧ low ≤ q ∧ q ≤ high := by
  cases x with
  | nan => exact absurd rfl hx
  | posInf => exact ⟨high, rfl, h, le_rfl⟩
  | negInf => exact ⟨low, rfl, le_rfl, h⟩
  | finite q =>
      simp only [clamp, lt_finite, decide_eq_true_eq]
      split_ifs with hlow hhigh
      · exact ⟨low, rfl, le_rfl, h⟩
      · exact ⟨high, rfl, h, le_rfl⟩
      · exact ⟨q, rfl, not_lt.mp hlow, not_lt.mp hhigh⟩

/-! ## Arithmetic -/

def infTimes (q : ℚ) (positive : Bool) : FloatValue :=
  if q = 0 then .nan else if decide (0 < q) = positive then .posInf else .negInf

variable (round : ℚ → FloatValue)

def mul : FloatValue → FloatValue → FloatValue
  | .nan, _ | _, .nan => .nan
  | .finite a, .finite b => round (a * b)
  | .finite a, .posInf | .posInf, .finite a => infTimes a true
  | .finite a, .negInf | .negInf, .finite a => infTimes a false
  | .posInf, .posInf | .negInf, .negInf => .posInf
  | .posInf, .negInf | .negInf, .posInf => .negInf

def sub : FloatValue → FloatValue → FloatValue
  | .nan, _ | _, .nan => .nan
  | .finite a, .finite b => round (a - b)
  | .finite _, .posInf | .negInf, .posInf | .negInf, .finite _ => .negInf
  | .finite _, .negInf | .posInf, .negInf | .posInf, .finite _ => .posInf
  | .posInf, .posInf | .negInf, .negInf => .nan

/-- The power with a whole exponent; the zeroth power is one, of NaN too. -/
def powNat : FloatValue → Nat → FloatValue
  | _, 0 => .finite 1
  | .finite a, n + 1 => round (a ^ (n + 1))
  | .posInf, _ + 1 => .posInf
  | .negInf, n + 1 => if (n + 1) % 2 = 0 then .posInf else .negInf
  | .nan, _ + 1 => .nan

@[simp] theorem mul_finite (a b : ℚ) :
    mul round (.finite a) (.finite b) = round (a * b) := rfl

@[simp] theorem mul_nan (x : FloatValue) : mul round x .nan = .nan := by cases x <;> rfl

@[simp] theorem nan_mul (x : FloatValue) : mul round .nan x = .nan := by cases x <;> rfl

theorem powNat_exact (q : ℚ) (n : Nat) : powNat .finite (.finite q) n = .finite (q ^ n) := by
  cases n with
  | zero => simp [powNat]
  | succ n => rfl

theorem finite_sub_ne_nan (hround : ∀ q, round q ≠ .nan) (a : ℚ) {x : FloatValue}
    (hx : x ≠ .nan) : sub round (.finite a) x ≠ .nan := by
  cases x with
  | nan => exact absurd rfl hx
  | finite b => exact hround (a - b)
  | posInf => simp [sub]
  | negInf => simp [sub]

@[simp] theorem sub_nan (x : FloatValue) : sub round x .nan = .nan := by cases x <;> rfl

end FloatValue

/-! ## Doubles -/

theorem binary64_ne_nan (q : ℚ) : binary64 q ≠ .nan := by
  unfold binary64
  dsimp only
  split_ifs <;> simp

theorem binary64_eq_finite {q : ℚ} (hq : 0 ≤ q) (hlt : nearest64 q < 2 ^ 1024) :
    binary64 q = .finite (nearest64 q) := by
  have hlimit : (0 : ℚ) < 2 ^ 1024 := pow_pos (by norm_num) _
  have hneg : ¬ nearest64 q ≤ -2 ^ 1024 :=
    not_le.mpr ((neg_neg_of_pos hlimit).trans_le (nearest64_nonneg hq))
  simp [binary64, not_le.mpr hlt, hneg]

theorem binary64_zero : binary64 0 = .finite 0 := by
  have hlimit : nearest64 0 < 2 ^ 1024 := by
    rw [nearest64_zero]
    exact pow_pos (by norm_num) _
  rw [binary64_eq_finite le_rfl hlimit, nearest64_zero]

theorem binary64_one : binary64 1 = .finite 1 := by
  have hlimit : nearest64 1 < 2 ^ 1024 := by
    rw [nearest64_one]
    exact one_lt_pow₀ (by norm_num) (by norm_num)
  rw [binary64_eq_finite zero_le_one hlimit, nearest64_one]

/-! ## Order of double arithmetic -/

theorem binary64_mono {a b : ℚ} (ha : 0 ≤ a) (h : a ≤ b) : (binary64 a).le (binary64 b) = true := by
  have hround := nearest64_mono ha h
  have hneg : ∀ q : ℚ, 0 ≤ q → ¬ nearest64 q ≤ -2 ^ 1024 := by
    intro q hq
    have hlimit : (0 : ℚ) < 2 ^ 1024 := pow_pos (by norm_num) _
    exact not_le.mpr ((neg_neg_of_pos hlimit).trans_le (nearest64_nonneg hq))
  simp only [binary64, if_neg (hneg a ha), if_neg (hneg b (ha.trans h))]
  split_ifs with hover hover'
  · rfl
  · exact absurd (hover.trans hround) hover'
  · rfl
  · simpa using hround

namespace FloatValue

/-- The order that clipping keeps: a NaN gives way to the bound and so comes last. -/
def Below (x y : FloatValue) : Prop := y = .nan ∨ x.le y = true

theorem clip_mono {x y : FloatValue} (h : x.Below y) {m a b : ℚ}
    (ha : (x.min (.finite m)).max (.finite 0) = .finite a)
    (hb : (y.min (.finite m)).max (.finite 0) = .finite b) : a ≤ b := by
  have hclip : ∀ q : ℚ, ((finite q).min (.finite m)).max (.finite 0) =
      .finite (Max.max (Min.min q m) 0) := fun q => by rw [min_finite, max_finite]
  have hbound : (finite m).max (.finite 0) = .finite (Max.max m 0) := max_finite m 0
  have hle : a ≤ Max.max m 0 := by
    cases x with
    | nan => exact (finite.inj (ha.symm.trans hbound)).le
    | posInf => exact (finite.inj (ha.symm.trans hbound)).le
    | negInf => exact (finite.inj (ha.symm.trans rfl)).le.trans (le_max_right m 0)
    | finite q =>
        rw [← finite.inj ((hclip q).symm.trans ha)]
        exact max_le_max_right 0 (min_le_right q m)
  rcases h with rfl | h
  · rwa [← finite.inj (hb.symm.trans hbound)] at hle
  · cases y with
    | nan => cases x <;> cases h
    | posInf => rwa [← finite.inj (hb.symm.trans hbound)] at hle
    | negInf =>
        cases x with
        | negInf => exact (finite.inj (ha.symm.trans hb)).le
        | nan => cases h
        | posInf => cases h
        | finite q => cases h
    | finite r =>
        rw [← finite.inj ((hclip r).symm.trans hb)]
        cases x with
        | nan => cases h
        | posInf => cases h
        | negInf => exact (finite.inj (ha.symm.trans rfl)).le.trans (le_max_right _ 0)
        | finite q =>
            rw [← finite.inj ((hclip q).symm.trans ha)]
            exact max_le_max_right 0 (min_le_min_right m (by simpa using h))

theorem le_posInf {x : FloatValue} (h : x ≠ .nan) : x.le .posInf = true := by
  cases x with
  | nan => exact absurd rfl h
  | finite q => rfl
  | posInf => rfl
  | negInf => rfl

theorem mul_mono {i : ℚ} (hi : 0 ≤ i) {x y : FloatValue} (hx : le (.finite 0) x = true)
    (h : x.le y = true) : (mul binary64 (.finite i) x).Below (mul binary64 (.finite i) y) := by
  have hinf : mul binary64 (.finite i) .posInf = .nan ∨
      mul binary64 (.finite i) .posInf = .posInf := by
    rcases hi.eq_or_lt with rfl | hpos
    · exact .inl rfl
    · exact .inr (by simp [mul, infTimes, hpos, hpos.ne'])
  cases x with
  | nan => cases h
  | negInf => cases hx
  | posInf =>
      cases y with
      | posInf => exact hinf.imp id fun heq => by rw [heq]; rfl
      | nan => cases h
      | negInf => cases h
      | finite b => cases h
  | finite a =>
      cases y with
      | posInf =>
          refine hinf.imp id fun heq => ?_
          rw [heq]
          exact le_posInf (binary64_ne_nan _)
      | nan => cases h
      | negInf => cases h
      | finite b =>
          have ha : 0 ≤ a := by simpa using hx
          have hab : a ≤ b := by simpa using h
          exact .inr (binary64_mono (mul_nonneg hi ha) (mul_le_mul_of_nonneg_left hab hi))

theorem powNat_mono {factor : FloatValue} (h : le (.finite 1) factor = true) {k n : Nat}
    (hkn : k ≤ n) :
    le (.finite 0) (powNat binary64 factor k) = true ∧
      (powNat binary64 factor k).le (powNat binary64 factor n) = true := by
  cases factor with
  | nan => cases h
  | negInf => cases h
  | posInf => cases k <;> cases n <;> simp [powNat, le] at hkn ⊢
  | finite q =>
      have hq : 1 ≤ q := by simpa using h
      have hpow : ∀ m, powNat binary64 (.finite q) m = binary64 (q ^ m) := by
        intro m
        cases m with
        | zero => rw [pow_zero, binary64_one]; rfl
        | succ m => rfl
      rw [hpow, hpow]
      have hnonneg : (0 : ℚ) ≤ q ^ k := pow_nonneg (zero_le_one.trans hq) k
      refine ⟨?_, binary64_mono hnonneg (pow_le_pow_right₀ hq hkn)⟩
      rw [← binary64_zero]
      exact binary64_mono le_rfl hnonneg

end FloatValue

end Breaker.Foundation
