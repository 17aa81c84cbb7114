import Breaker.Foundation.FloatValue

/-!
# Durations and backoff strategies

`BackoffStrategy.waitFor` is the wait of the `attempt`-th trip.  The conversion
of a number of seconds to a `Duration` can panic; the model returns `none`
there, and the state machine turns it into an unwinding transition.  The
arithmetic is parameterised by its rounding function: the state machine runs on
`binary64`, and `FloatValue.finite` gives the same formulas exactly.
-/

namespace Breaker

open Foundation

/-! ## Durations -/

abbrev durationLimit : Nat := 2 ^ 64 * 10 ^ 9

structure Duration where
  nanos : Nat
  lt_limit : nanos < durationLimit
  deriving DecidableEq, Repr

namespace Duration

def fromNanos (n : UInt64) : Duration :=
  ⟨n.toNat, n.toNat_lt.trans (by norm_num)⟩

def fromSecs (n : UInt64) : Duration :=
  ⟨n.toNat * 10 ^ 9, Nat.mul_lt_mul_of_pos_right n.toNat_lt (by norm_num)⟩

def maxValue : Duration := ⟨durationLimit - 1, by norm_num⟩

def isZero (d : Duration) : Bool := d.nanos == 0

def secs (d : Duration) : ℚ := d.nanos / 10 ^ 9

def asSecsF64 (round : ℚ → FloatValue) (d : Duration) : FloatValue := round d.secs

/--
`none` is the panic on a negative, non-finite or too large number of seconds.
The seconds are rounded to the nearest nanosecond.
-/
def fromSecsF64 : FloatValue → Option Duration
  | .finite q =>
      if q < 0 then none
      else
        let n := (roundHalfEven (q * 10 ^ 9)).toNat
        if h : n < durationLimit then some ⟨n, h⟩ else none
  | .posInf | .negInf | .nan => none

def mulF64 (round : ℚ → FloatValue) (d : Duration) (factor : FloatValue) : Option Duration :=
  fromSecsF64 (factor.mul round (d.asSecsF64 round))

end Duration

/-! ## Strategies -/

inductive BackoffStrategy where
  | fixed (d : Duration)
  | exponential (initial max : Duration) (factor : FloatValue)
  | exponentialJitter (initial max : Duration) (factor jitter : FloatValue)
  deriving DecidableEq

/-- The top 53 bits of one state of the jitter generator. -/
abbrev Draw := Fin (2 ^ 53)

instance Draw.neZero : NeZero (2 ^ 53) := ⟨by norm_num⟩

def jitterRand (draw : Draw) : FloatValue := .finite (draw.val / 2 ^ 53)

section Waits

variable (round : ℚ → FloatValue)

def exponentialSecs (initial max factor : FloatValue) (attempt : Nat) : FloatValue :=
  let exp := Nat.min (attempt - 1) 1024
  let computed := initial.mul round (factor.powNat round exp)
  (computed.min max).max (.finite 0)

def exponentialWait (initial max : Duration) (factor : FloatValue) (attempt : Nat) :
    Option Duration :=
  Duration.fromSecsF64
    (exponentialSecs round (initial.asSecsF64 round) (max.asSecsF64 round) factor attempt)

def jitterScale (jitter : FloatValue) (draw : Draw) : FloatValue :=
  let jitter := jitter.clamp (.finite 0) (.finite 1)
  let scale := FloatValue.sub round (.finite 1) (jitter.mul round (jitterRand draw))
  scale.clamp (.finite 0) (.finite 1)

namespace BackoffStrategy

def waitFor (strategy : BackoffStrategy) (attempt : Nat) (draw : Draw) : Option Duration :=
  match strategy with
  | .fixed d => some d
  | .exponential initial max factor => exponentialWait round initial max factor attempt
  | .exponentialJitter initial max factor jitter =>
      match exponentialWait round initial max factor attempt with
      | none => none
      | some base => base.mulF64 round (jitterScale round jitter draw)

def initialWait (strategy : BackoffStrategy) (draw : Draw) : Option Duration :=
  strategy.waitFor round 1 draw

end BackoffStrategy

end Waits

/-! ## The values of the double arithmetic -/

theorem Duration.secs_nonneg (d : Duration) : 0 ≤ d.secs := by
  unfold Duration.secs
  positivity

theorem Duration.secs_lt (d : Duration) : d.secs < 2 ^ 64 := by
  have h : (d.nanos : ℚ) < 2 ^ 64 * 10 ^ 9 := by exact_mod_cast d.lt_limit
  exact (div_lt_iff₀ (by norm_num)).mpr h

private theorem nearest64_two_pow_64 : nearest64 (2 ^ 64) = 2 ^ 64 := by
  have h := nearest64_of_places (n := 1) (e := 64) (by norm_num) (by norm_num) (by norm_num)
  norm_num at h ⊢
  exact h

private theorem nearest64_two_pow_63 : nearest64 (2 ^ 63) = 2 ^ 63 := by
  have h := nearest64_of_places (n := 1) (e := 63) (by norm_num) (by norm_num) (by norm_num)
  norm_num at h ⊢
  exact h

theorem binary64_of_le {q : ℚ} (hq : 0 ≤ q) (hle : q ≤ 2 ^ 64) :
    binary64 q = .finite (nearest64 q) ∧ nearest64 q ≤ 2 ^ 64 := by
  have hbound : nearest64 q ≤ 2 ^ 64 := by
    simpa [nearest64_two_pow_64] using nearest64_mono hq hle
  have hlimit : (2 : ℚ) ^ 64 < 2 ^ 1024 := pow_lt_pow_right₀ (by norm_num) (by norm_num)
  exact ⟨binary64_eq_finite hq (hbound.trans_lt hlimit), hbound⟩

theorem Duration.asSecsF64_binary64 (d : Duration) :
    d.asSecsF64 binary64 = .finite (nearest64 d.secs) :=
  (binary64_of_le d.secs_nonneg d.secs_lt.le).1

def IsDouble (q : ℚ) : Prop := ∃ p, 0 ≤ p ∧ q = nearest64 p

theorem IsDouble.nonneg {q : ℚ} (h : IsDouble q) : 0 ≤ q := by
  obtain ⟨p, hp, rfl⟩ := h
  exact nearest64_nonneg hp

theorem IsDouble.zero : IsDouble 0 := ⟨0, le_rfl, by simp⟩

theorem IsDouble.of_pos {p : ℚ} (h : 0 < nearest64 p) : IsDouble (nearest64 p) := by
  refine ⟨p, ?_, rfl⟩
  by_contra hneg
  exact absurd (nearest64_nonpos (not_le.mp hneg).le) (not_le.mpr h)

def Rounded (x : FloatValue) : Prop := ∀ q, x = .finite q → ∃ p, q = nearest64 p

theorem rounded_binary64 (p : ℚ) : Rounded (binary64 p) := by
  intro q hq
  simp only [binary64] at hq
  split_ifs at hq
  exact ⟨p, (FloatValue.finite.inj hq).symm⟩

theorem rounded_mul (a : ℚ) (x : FloatValue) : Rounded (FloatValue.mul binary64 (.finite a) x) := by
  cases x with
  | finite b => exact rounded_binary64 (a * b)
  | posInf =>
      intro q hq
      simp only [FloatValue.mul, FloatValue.infTimes] at hq
      split_ifs at hq
  | negInf =>
      intro q hq
      simp only [FloatValue.mul, FloatValue.infTimes] at hq
      split_ifs at hq
  | nan =>
      intro q hq
      simp at hq

theorem min_max_double {x : FloatValue} (hx : Rounded x) {m : ℚ} (hm : IsDouble m) :
    ∃ q, (x.min (.finite m)).max (.finite 0) = .finite q ∧ IsDouble q ∧ q ≤ m := by
  have hcap : ∃ q, FloatValue.max (.finite m) (.finite 0) = .finite q ∧ IsDouble q ∧ q ≤ m := by
    by_cases h : m ≤ 0
    · exact ⟨0, by simp [FloatValue.max, h], .zero, hm.nonneg⟩
    · exact ⟨m, by simp [FloatValue.max, h], hm, le_rfl⟩
  cases x with
  | nan => exact hcap
  | posInf => exact hcap
  | negInf => exact ⟨0, rfl, .zero, hm.nonneg⟩
  | finite q =>
      by_cases hle : q ≤ m
      · have hmin : FloatValue.min (.finite q) (.finite m) = .finite q := by
          simp [FloatValue.min, hle]
        rw [hmin]
        by_cases hpos : q ≤ 0
        · exact ⟨0, by simp [FloatValue.max, hpos], .zero, hm.nonneg⟩
        · obtain ⟨p, rfl⟩ := hx q rfl
          exact ⟨_, by simp [FloatValue.max, hpos], .of_pos (not_le.mp hpos), hle⟩
      · have hmin : FloatValue.min (.finite q) (.finite m) = .finite m := by
          simp [FloatValue.min, hle]
        rw [hmin]
        exact hcap

theorem exponentialSecs_double (initial max : Duration) (factor : FloatValue) (attempt : Nat) :
    ∃ q, exponentialSecs binary64 (initial.asSecsF64 binary64) (max.asSecsF64 binary64)
        factor attempt = .finite q ∧ IsDouble q := by
  rw [initial.asSecsF64_binary64, max.asSecsF64_binary64]
  obtain ⟨q, hq, hdouble, -⟩ := min_max_double
    (rounded_mul (nearest64 initial.secs)
      (factor.powNat binary64 (Nat.min (attempt - 1) 1024)))
    ⟨max.secs, max.secs_nonneg, rfl⟩
  exact ⟨q, hq, hdouble⟩

/--
The nanoseconds of a double: either they stay below the whole number `2 ^ 63` of
seconds, or the double is itself a whole number and converts exactly.
-/
theorem IsDouble.nanos_cases {q : ℚ} (hq : IsDouble q) :
    roundHalfEven (q * 10 ^ 9) ≤ 2 ^ 63 * 10 ^ 9 ∨
      ∃ n : ℤ, q = n ∧ roundHalfEven (q * 10 ^ 9) = n * 10 ^ 9 := by
  by_cases hsmall : q ≤ 2 ^ 63
  · left
    apply roundHalfEven_le_of_le
    push_cast
    linarith
  · right
    obtain ⟨p, hp, rfl⟩ := hq
    have hlarge : (2 : ℚ) ^ 63 < nearest64 p := not_le.mp hsmall
    obtain ⟨n, hn⟩ := nearest64_whole hp (le_trans (by norm_num) hlarge.le)
    have hcast : nearest64 p * 10 ^ 9 = ((n * 10 ^ 9 : ℤ) : ℚ) := by
      rw [hn]
      push_cast
      rfl
    exact ⟨n, hn, by rw [hcast, roundHalfEven_intCast]⟩

theorem fromSecsF64_isSome {q : ℚ} (hq : IsDouble q) (hlt : q < 2 ^ 64) :
    (Duration.fromSecsF64 (.finite q)).isSome := by
  have hnanos : (roundHalfEven (q * 10 ^ 9)).toNat < 2 ^ 64 * 10 ^ 9 := by
    rcases hq.nanos_cases with hle | ⟨n, rfl, hround⟩
    · omega
    · have hn : n < 2 ^ 64 := by exact_mod_cast hlt
      omega
  simp [Duration.fromSecsF64, not_lt.mpr hq.nonneg, hnanos]

theorem nearest64_secs_lt {q : ℚ} (hq : IsDouble q) {d : Duration}
    (h : Duration.fromSecsF64 (.finite q) = some d) : nearest64 d.secs < 2 ^ 64 := by
  have hd : d.nanos = (roundHalfEven (q * 10 ^ 9)).toNat := by
    simp only [Duration.fromSecsF64, not_lt.mpr hq.nonneg, ↓reduceIte] at h
    split at h
    · simpa using (congrArg Duration.nanos (Option.some.inj h)).symm
    · cases h
  rcases hq.nanos_cases with hle | ⟨n, hn, hround⟩
  · have hsecs : d.secs ≤ 2 ^ 63 := by
      have hnanos : (d.nanos : ℚ) ≤ 2 ^ 63 * 10 ^ 9 := by
        have : d.nanos ≤ 2 ^ 63 * 10 ^ 9 := by omega
        exact_mod_cast this
      exact (div_le_iff₀ (by norm_num)).mpr hnanos
    have hbound := nearest64_mono d.secs_nonneg hsecs
    rw [nearest64_two_pow_63] at hbound
    exact hbound.trans_lt (by norm_num)
  · have hnonneg : 0 ≤ n := by
      have : (0 : ℚ) ≤ n := hn ▸ hq.nonneg
      exact_mod_cast this
    have hsecs : d.secs = q := by
      have hnanos : ((d.nanos : ℤ) : ℚ) = ((n * 10 ^ 9 : ℤ) : ℚ) := by
        rw [hd, hround, Int.toNat_of_nonneg (by omega)]
      push_cast at hnanos
      rw [Duration.secs, hnanos, hn]
      norm_num
    obtain ⟨p, hp, rfl⟩ := hq
    rw [hsecs, nearest64_idem hp, ← hsecs]
    exact d.secs_lt

theorem jitterScale_nan (draw : Draw) : jitterScale binary64 .nan draw = .nan := by
  simp [jitterScale]

theorem jitterScale_of_ne_nan {jitter : FloatValue} (h : jitter ≠ .nan) (draw : Draw) :
    ∃ q, jitterScale binary64 jitter draw = .finite q ∧ 0 ≤ q ∧ q ≤ 1 := by
  obtain ⟨j, hj, -, -⟩ := FloatValue.clamp_of_ne_nan h (zero_le_one (α := ℚ))
  simp only [jitterScale, hj]
  apply FloatValue.clamp_of_ne_nan _ zero_le_one
  exact FloatValue.finite_sub_ne_nan binary64 binary64_ne_nan 1 (binary64_ne_nan _)

theorem mulF64_isSome {d : Duration} (hd : nearest64 d.secs < 2 ^ 64) {q : ℚ}
    (hq : 0 ≤ q) (hle : q ≤ 1) : (d.mulF64 binary64 (.finite q)).isSome := by
  have hbase := nearest64_nonneg d.secs_nonneg
  have hprod : 0 ≤ q * nearest64 d.secs := mul_nonneg hq hbase
  have hprodle : q * nearest64 d.secs ≤ nearest64 d.secs := mul_le_of_le_one_left hbase hle
  have hround : nearest64 (q * nearest64 d.secs) ≤ nearest64 d.secs := by
    simpa [nearest64_idem d.secs_nonneg] using nearest64_mono hprod hprodle
  have hresult := hround.trans_lt hd
  rw [Duration.mulF64, d.asSecsF64_binary64, FloatValue.mul_finite,
    (binary64_of_le hprod (hprodle.trans hd.le)).1]
  exact fromSecsF64_isSome ⟨_, hprod, rfl⟩ hresult

/-! ## Waits that panic

The conversion of the bounded seconds back to a `Duration` is guarded by the
bound alone.  Two inputs get past it.  A `max` within half a last place of
`2 ^ 64` seconds reads back as `2 ^ 64`, which is one too many, so that a product
that reaches it, or is NaN and gives way to it, panics.  And a NaN jitter
survives its clamp.
-/

/-- `initial * factor ^ (attempt - 1)` in doubles, before `max` bounds it. -/
def unboundedSecs (initial : Duration) (factor : FloatValue) (attempt : Nat) : FloatValue :=
  (initial.asSecsF64 binary64).mul binary64
    (factor.powNat binary64 (Nat.min (attempt - 1) 1024))

/--
The bound reads back below `2 ^ 64` seconds, or the product does not need it: it
is a number and below `2 ^ 64`.
-/
def BoundHolds (initial max : Duration) (factor : FloatValue) (attempt : Nat) : Prop :=
  max.secs < 2 ^ 64 - 2 ^ 10 ∨
    (unboundedSecs initial factor attempt).lt (.finite (2 ^ 64)) = true

namespace BackoffStrategy

def Computes : BackoffStrategy → Nat → Prop
  | fixed _, _ => True
  | exponential initial max factor, attempt => BoundHolds initial max factor attempt
  | exponentialJitter initial max factor jitter, attempt =>
      BoundHolds initial max factor attempt ∧ jitter ≠ .nan

end BackoffStrategy

theorem bounded_lt_iff (x : FloatValue) {m : ℚ} (hm : 0 ≤ m) {q : ℚ}
    (hq : (x.min (.finite m)).max (.finite 0) = .finite q) :
    q < 2 ^ 64 ↔ m < 2 ^ 64 ∨ x.lt (.finite (2 ^ 64)) = true := by
  have hcap : (FloatValue.finite m).max (.finite 0) = .finite m := by
    rw [FloatValue.max_finite, max_eq_left hm]
  cases x with
  | nan =>
      have hqm : q = m := FloatValue.finite.inj (hq.symm.trans hcap)
      simp [hqm]
  | posInf =>
      have hqm : q = m := FloatValue.finite.inj (hq.symm.trans hcap)
      simp [hqm, FloatValue.lt]
  | negInf =>
      have hqzero : q = 0 := (FloatValue.finite.inj hq).symm
      simp [hqzero, FloatValue.lt]
  | finite a =>
      rw [FloatValue.min_finite, FloatValue.max_finite] at hq
      rw [← FloatValue.finite.inj hq, max_lt_iff, min_lt_iff, FloatValue.lt_finite,
        decide_eq_true_eq, or_comm]
      exact and_iff_left (by norm_num)

theorem fromSecsF64_of_large {q : ℚ} (h : 2 ^ 64 ≤ q) :
    Duration.fromSecsF64 (.finite q) = none := by
  have hpos : ¬ q < 0 := not_lt.mpr (le_trans (by norm_num) h)
  have hround : (2 ^ 64 * 10 ^ 9 : ℤ) ≤ roundHalfEven (q * 10 ^ 9) := by
    apply le_roundHalfEven_of_le
    push_cast
    linarith
  have hlimit : ¬ (roundHalfEven (q * 10 ^ 9)).toNat < durationLimit := by
    unfold durationLimit
    omega
  simp only [Duration.fromSecsF64, hpos, ↓reduceIte, hlimit, ↓reduceDIte]

theorem exponentialWait_isSome_iff (initial max : Duration) (factor : FloatValue)
    (attempt : Nat) :
    (exponentialWait binary64 initial max factor attempt).isSome ↔
      BoundHolds initial max factor attempt := by
  obtain ⟨q, hq, hdouble⟩ := exponentialSecs_double initial max factor attempt
  have hbounded : q < 2 ^ 64 ↔ BoundHolds initial max factor attempt := by
    rw [BoundHolds, ← nearest64_lt_iff max.secs_nonneg]
    apply bounded_lt_iff _ (nearest64_nonneg max.secs_nonneg)
    rw [← max.asSecsF64_binary64]
    exact hq
  rw [exponentialWait, hq, ← hbounded]
  constructor
  · intro hsome
    by_contra hlarge
    rw [fromSecsF64_of_large (not_lt.mp hlarge)] at hsome
    cases hsome
  · exact fromSecsF64_isSome hdouble

namespace BackoffStrategy

theorem waitFor_isSome_iff (strategy : BackoffStrategy) (attempt : Nat) (draw : Draw) :
    (strategy.waitFor binary64 attempt draw).isSome ↔ strategy.Computes attempt := by
  cases strategy with
  | fixed d => simp [waitFor, Computes]
  | exponential initial max factor => exact exponentialWait_isSome_iff initial max factor attempt
  | exponentialJitter initial max factor jitter =>
      have hbase := exponentialWait_isSome_iff initial max factor attempt
      simp only [waitFor, Computes, ← hbase]
      cases hwait : exponentialWait binary64 initial max factor attempt with
      | none => simp
      | some base =>
          simp only [Option.isSome_some, true_and]
          by_cases hjitter : jitter = .nan
          · simp [hjitter, jitterScale_nan, Duration.mulF64, Duration.fromSecsF64]
          · obtain ⟨q, hq, hdouble⟩ := exponentialSecs_double initial max factor attempt
            have hread : nearest64 base.secs < 2 ^ 64 := by
              apply nearest64_secs_lt hdouble
              rw [← hq]
              exact hwait
            obtain ⟨scale, hscale, hnonneg, hle⟩ := jitterScale_of_ne_nan hjitter draw
            simp [hjitter, hscale, mulF64_isSome hread hnonneg hle]

theorem waitFor_isSome {strategy : BackoffStrategy} {attempt : Nat} {draw : Draw}
    (h : (strategy.waitFor binary64 attempt draw).isSome) (draw' : Draw) :
    (strategy.waitFor binary64 attempt draw').isSome :=
  (strategy.waitFor_isSome_iff attempt draw').mpr ((strategy.waitFor_isSome_iff attempt draw).mp h)

end BackoffStrategy

end Breaker
