import Breaker.Config.Exact

/-!
# The waits in double precision

The waits as the code computes them.  A duration of at most `2 ^ 23` seconds
reads back as a double that converts to the same duration, and a conversion
keeps the order.  Below that length the formula and the jitter therefore have in
doubles the order that they have in exact arithmetic: the bound bounds, jitter
only shortens, and a factor of at least one never shortens the next wait.
-/

namespace Breaker

open Foundation

/-! ## Conversions -/

theorem fromSecsF64_nanos {x : ℚ} (hx : 0 ≤ x) {d : Duration}
    (h : Duration.fromSecsF64 (.finite x) = some d) :
    d.nanos = (roundHalfEven (x * 10 ^ 9)).toNat := by
  simp only [Duration.fromSecsF64, not_lt.mpr hx, ↓reduceIte] at h
  split at h
  · simpa using (congrArg Duration.nanos (Option.some.inj h)).symm
  · cases h

theorem fromSecsF64_le_of_le {x y : ℚ} (hx : 0 ≤ x) (hxy : x ≤ y) {v w : Duration}
    (hv : Duration.fromSecsF64 (.finite x) = some v)
    (hw : Duration.fromSecsF64 (.finite y) = some w) : v.nanos ≤ w.nanos :=
  fromSecsF64_mono hxy (fromSecsF64_nanos hx hv) (fromSecsF64_nanos (hx.trans hxy) hw)

theorem fromSecsF64_nearest64 {d : Duration} (h : d.secs ≤ 2 ^ 23) :
    Duration.fromSecsF64 (.finite (nearest64 d.secs)) = some d := by
  have hclose : |nearest64 d.secs - d.secs| ≤ 2 ^ (-31 : ℤ) := by
    rw [nearest64_eq]
    exact Format.abs_nearest_sub_le_half (k := 23) d.secs_nonneg (by exact_mod_cast h)
      (by norm_num [Format.double])
  have hnanos : |((d.nanos : ℤ) : ℚ) - nearest64 d.secs * 10 ^ 9| < 1 / 2 := by
    rw [← d.secs_mul, ← sub_mul, abs_mul, abs_sub_comm]
    calc |nearest64 d.secs - d.secs| * |10 ^ 9| ≤ 2 ^ (-31 : ℤ) * 10 ^ 9 := by
          rw [abs_of_nonneg (by norm_num : (0 : ℚ) ≤ 10 ^ 9)]
          gcongr
      _ < 1 / 2 := by norm_num
  have hround := roundHalfEven_eq_of_lt hnanos
  have hnonneg : ¬ nearest64 d.secs < 0 := not_lt.mpr (nearest64_nonneg d.secs_nonneg)
  simp only [Duration.fromSecsF64, hnonneg, ↓reduceIte, hround, Int.toNat_natCast, d.lt_limit,
    ↓reduceDIte]

/-! ## The bounded product -/

section Exponential

variable {initial max : Duration} {factor : FloatValue} {attempt later : Nat} {v w : Duration}

theorem exponentialWait_eq_some (h : exponentialWait binary64 initial max factor attempt = some w) :
    ∃ q, exponentialSecs binary64 (initial.asSecsF64 binary64) (max.asSecsF64 binary64)
        factor attempt = .finite q ∧ 0 ≤ q ∧ q ≤ nearest64 max.secs ∧
      Duration.fromSecsF64 (.finite q) = some w := by
  have hsecs : exponentialSecs binary64 (initial.asSecsF64 binary64) (max.asSecsF64 binary64)
      factor attempt = ((unboundedSecs initial factor attempt).min
        (.finite (nearest64 max.secs))).max (.finite 0) := by
    rw [exponentialSecs, max.asSecsF64_binary64, unboundedSecs]
  have hrounded : Rounded (unboundedSecs initial factor attempt) := by
    rw [unboundedSecs, initial.asSecsF64_binary64]
    exact rounded_mul _ _
  obtain ⟨q, hq, hdouble, hle⟩ := min_max_double hrounded ⟨max.secs, max.secs_nonneg, rfl⟩
  rw [exponentialWait, hsecs, hq] at h
  exact ⟨q, hsecs.trans hq, hdouble.nonneg, hle, h⟩

theorem exponentialWait_le_max (hmax : max.secs ≤ 2 ^ 23)
    (h : exponentialWait binary64 initial max factor attempt = some w) : w.nanos ≤ max.nanos := by
  obtain ⟨q, -, hq, hle, hw⟩ := exponentialWait_eq_some h
  exact fromSecsF64_le_of_le hq hle hw (fromSecsF64_nearest64 hmax)

theorem exponentialWait_le_later (hfactor : FloatValue.le (.finite 1) factor = true)
    (hle : attempt ≤ later) (hv : exponentialWait binary64 initial max factor attempt = some v)
    (hw : exponentialWait binary64 initial max factor later = some w) : v.nanos ≤ w.nanos := by
  obtain ⟨a, ha, hnonneg, -, hv⟩ := exponentialWait_eq_some hv
  obtain ⟨b, hb, -, -, hw⟩ := exponentialWait_eq_some hw
  rw [exponentialSecs, initial.asSecsF64_binary64, max.asSecsF64_binary64] at ha hb
  have hexp : Nat.min (attempt - 1) 1024 ≤ Nat.min (later - 1) 1024 :=
    min_le_min_right 1024 (Nat.sub_le_sub_right hle 1)
  obtain ⟨hpow, hgrows⟩ := FloatValue.powNat_mono hfactor hexp
  have hproduct := FloatValue.mul_mono (nearest64_nonneg initial.secs_nonneg) hpow hgrows
  exact fromSecsF64_le_of_le hnonneg (FloatValue.clip_mono hproduct ha hb) hv hw

end Exponential

/-! ## Jitter -/

section Jitter

variable {jitter : FloatValue} {base w : Duration}

theorem jitterScale_of_le_zero (h : jitter.le (.finite 0) = true) (draw : Draw) :
    jitterScale binary64 jitter draw = .finite 1 := by
  have hclamp : jitter.clamp (.finite 0) (.finite 1) = .finite 0 := by
    cases jitter with
    | nan => cases h
    | posInf => cases h
    | negInf => rfl
    | finite j =>
        have hj : j ≤ 0 := by simpa using h
        have hone : ¬ (1 : ℚ) < j := by linarith
        rcases hj.lt_or_eq with hneg | rfl
        · simp [FloatValue.clamp, hneg]
        · simp [FloatValue.clamp, hone]
  rw [jitterScale, hclamp, jitterRand, FloatValue.mul_finite, zero_mul, binary64_zero,
    FloatValue.sub, sub_zero, binary64_one]
  simp [FloatValue.clamp]

theorem mulF64_le (hbase : base.secs ≤ 2 ^ 23) {q : ℚ} (hq : 0 ≤ q) (hle : q ≤ 1)
    (h : base.mulF64 binary64 (.finite q) = some w) : w.nanos ≤ base.nanos := by
  have hread := nearest64_nonneg base.secs_nonneg
  have hprod : 0 ≤ q * nearest64 base.secs := mul_nonneg hq hread
  have hshorter : q * nearest64 base.secs ≤ nearest64 base.secs := mul_le_of_le_one_left hread hle
  have hround : nearest64 (q * nearest64 base.secs) ≤ nearest64 base.secs := by
    simpa [nearest64_idem base.secs_nonneg] using nearest64_mono hprod hshorter
  have hlimit : nearest64 (q * nearest64 base.secs) < 2 ^ 1024 := by
    have hbound := (binary64_of_le base.secs_nonneg base.secs_lt.le).2
    exact (hround.trans hbound).trans_lt (pow_lt_pow_right₀ (by norm_num) (by norm_num))
  rw [Duration.mulF64, base.asSecsF64_binary64, FloatValue.mul_finite,
    binary64_eq_finite hprod hlimit] at h
  exact fromSecsF64_le_of_le (nearest64_nonneg hprod) hround h (fromSecsF64_nearest64 hbase)

theorem mulF64_one (hbase : base.secs ≤ 2 ^ 23) :
    base.mulF64 binary64 (.finite 1) = some base := by
  have hread := (binary64_of_le base.secs_nonneg base.secs_lt.le).2
  have hlimit : nearest64 (nearest64 base.secs) < 2 ^ 1024 := by
    rw [nearest64_idem base.secs_nonneg]
    exact hread.trans_lt (pow_lt_pow_right₀ (by norm_num) (by norm_num))
  rw [Duration.mulF64, base.asSecsF64_binary64, FloatValue.mul_finite, one_mul,
    binary64_eq_finite (nearest64_nonneg base.secs_nonneg) hlimit, nearest64_idem base.secs_nonneg,
    fromSecsF64_nearest64 hbase]

end Jitter

/-! ## Strategies -/

namespace BackoffStrategy

variable {strategy : BackoffStrategy} {attempt later : Nat} {draw draw' : Draw} {v w : Duration}

def longest : BackoffStrategy → Duration
  | fixed d => d
  | exponential _ max _ | exponentialJitter _ max _ _ => max

/-- The bound is at most `2 ^ 23` seconds, about 97 days: doubles there tell nanoseconds apart. -/
def BoundReads : BackoffStrategy → Prop
  | fixed _ => True
  | exponential _ max _ | exponentialJitter _ max _ _ => max.secs ≤ 2 ^ 23

def withoutJitter : BackoffStrategy → BackoffStrategy
  | fixed d => fixed d
  | exponential initial max factor | exponentialJitter initial max factor _ =>
      exponential initial max factor

def NoJitter : BackoffStrategy → Prop
  | fixed _ | exponential .. => True
  | exponentialJitter _ _ _ jitter => jitter.le (.finite 0) = true

def FactorGrows : BackoffStrategy → Prop
  | fixed _ => True
  | exponential _ _ factor | exponentialJitter _ _ factor _ =>
      FloatValue.le (.finite 1) factor = true

theorem withoutJitter_le_longest (hbound : strategy.BoundReads)
    (h : strategy.withoutJitter.waitFor binary64 attempt draw = some w) :
    w.nanos ≤ strategy.longest.nanos := by
  cases strategy with
  | fixed d => exact (congrArg Duration.nanos (Option.some.inj h)).ge
  | exponential initial max factor => exact exponentialWait_le_max hbound h
  | exponentialJitter initial max factor jitter => exact exponentialWait_le_max hbound h

theorem withoutJitter_le_later (hgrows : strategy.FactorGrows) (hle : attempt ≤ later)
    (hv : strategy.withoutJitter.waitFor binary64 attempt draw = some v)
    (hw : strategy.withoutJitter.waitFor binary64 later draw' = some w) : v.nanos ≤ w.nanos := by
  cases strategy with
  | fixed d => exact (congrArg Duration.nanos (Option.some.inj (hv.symm.trans hw))).le
  | exponential initial max factor => exact exponentialWait_le_later hgrows hle hv hw
  | exponentialJitter initial max factor jitter => exact exponentialWait_le_later hgrows hle hv hw

theorem waitFor_le_withoutJitter (hbound : strategy.BoundReads)
    (h : strategy.waitFor binary64 attempt draw = some w) (draw' : Draw) :
    ∃ base, strategy.withoutJitter.waitFor binary64 attempt draw' = some base ∧
      w.nanos ≤ base.nanos ∧ (strategy.NoJitter → w = base) := by
  cases strategy with
  | fixed d => exact ⟨w, h, le_rfl, fun _ => rfl⟩
  | exponential initial max factor => exact ⟨w, h, le_rfl, fun _ => rfl⟩
  | exponentialJitter initial max factor jitter =>
      have hjitter : jitter ≠ .nan :=
        ((waitFor_isSome_iff _ attempt draw).mp (Option.isSome_of_eq_some h)).2
      rw [waitFor] at h
      cases hbase : exponentialWait binary64 initial max factor attempt with
      | none => simp [hbase] at h
      | some base =>
          simp only [hbase] at h
          have hsecs : base.secs ≤ 2 ^ 23 := by
            have hle := exponentialWait_le_max hbound hbase
            refine le_trans ?_ hbound
            unfold Duration.secs
            gcongr
          obtain ⟨q, hq, hnonneg, hone⟩ := jitterScale_of_ne_nan hjitter draw
          refine ⟨base, hbase, ?_, fun hnone => ?_⟩
          · rw [hq] at h
            exact mulF64_le hsecs hnonneg hone h
          · rw [jitterScale_of_le_zero hnone, mulF64_one hsecs] at h
            exact (Option.some.inj h).symm

theorem computes_of_boundReads (hbound : strategy.BoundReads)
    (hfirst : (strategy.initialWait binary64 draw).isSome) (attempt : Nat) :
    strategy.Computes attempt := by
  have hholds : ∀ (initial max : Duration) (factor : FloatValue), max.secs ≤ 2 ^ 23 →
      BoundHolds initial max factor attempt :=
    fun _ _ _ hmax => .inl (hmax.trans_lt (by norm_num))
  cases strategy with
  | fixed d => trivial
  | exponential initial max factor => exact hholds initial max factor hbound
  | exponentialJitter initial max factor jitter =>
      exact ⟨hholds initial max factor hbound, ((waitFor_isSome_iff _ 1 draw).mp hfirst).2⟩

end BackoffStrategy

end Breaker
