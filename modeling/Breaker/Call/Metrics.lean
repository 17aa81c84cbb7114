import Breaker.Call.Histogram

/-!
# Snapshots of the metrics

`metrics()` copies the counters of the machine and computes two failure rates
under one read lock, the lifetime rate in double precision and that of the window
in single precision.  Both are fractions, whatever the counters hold, and as
close to the exact ones as their formats allow.
-/

namespace Breaker

open Foundation

universe u

variable {arith : RateArithmetic} {ε : Type u}

structure CircuitMetrics where
  failureRate : FloatValue
  windowFailureRate : FloatValue
  state : State
  totalSuccesses : Nat
  totalFailures : Nat
  transitions : Nat
  deriving DecidableEq, Repr

namespace StateMachine

variable {config : CircuitBreakerConfig arith ε}

/-- `metrics()`, with the clock that the state is read at. -/
def metrics (s : StateMachine) (now : Nat) : CircuitMetrics where
  failureRate := s.failureRate
  windowFailureRate := s.window.failureRate .single
  state := s.currentAt now
  totalSuccesses := s.totalSuccesses
  totalFailures := s.totalFailures
  transitions := s.transitions

/-! ## Rates -/

/-- The value is a fraction, and the closest of its format to `ratio` where the condition holds. -/
def Approximates (f : Format) (value : FloatValue) (ratio : ℚ) (condition : Prop) : Prop :=
  ∃ q, value = .finite q ∧ 0 ≤ q ∧ q ≤ 1 ∧ (condition →
    |q - ratio| ≤ 2 ^ (-f.fraction - 2 : ℤ) ∧
      ∀ y, 0 ≤ y → f.Represents y → |q - ratio| ≤ |y - ratio|)

theorem approximates_zero (f : Format) {ratio : ℚ} (h : ratio = 0) (condition : Prop) :
    Approximates f (.finite 0) ratio condition := by
  subst h
  refine ⟨0, rfl, le_rfl, zero_le_one, fun _ => ⟨?_, fun y _ _ => ?_⟩⟩
  · rw [sub_self, abs_zero]
    exact (two_zpow_pos _).le
  · rw [sub_self, abs_zero]
    exact abs_nonneg _

theorem approximates_ratio {f : Format} {a n : Nat} (hneg : f.least + f.fraction < 0)
    (h : a ≤ n) {condition : Prop} (hsmall : condition → n ≤ 2 ^ (f.fraction + 1)) :
    Approximates f (.finite (f.nearest (f.nearest a / f.nearest n))) (a / n) condition := by
  have hleast : f.least ≤ 0 := by omega
  obtain ⟨hnonneg, hone⟩ := Format.nearest_ratio_le_one hleast h
  refine ⟨_, rfl, hnonneg, hone, fun hcondition => ?_⟩
  rw [Format.nearest_ratio_eq hleast h (hsmall hcondition)]
  exact ⟨Format.abs_nearest_ratio_sub_le hneg h,
    fun y hy hrepresents => Format.abs_nearest_sub_le (by positivity) hy hrepresents⟩

theorem failureRate_approximates (s : StateMachine) :
    Approximates .double s.failureRate
      (s.totalFailures / ((s.totalSuccesses + s.totalFailures : Nat) : ℚ))
      (s.totalSuccesses + s.totalFailures ≤ 2 ^ 53) := by
  have hle : s.totalFailures ≤ s.totalSuccesses + s.totalFailures := Nat.le_add_left _ _
  have hneg : Format.double.least + Format.double.fraction < 0 := by norm_num [Format.double]
  unfold failureRate
  dsimp only
  split_ifs with hzero
  · refine approximates_zero .double ?_ _
    rw [hzero, Nat.cast_zero, div_zero]
  · have hone := (Format.nearest_ratio_le_one (f := .double) (by norm_num [Format.double]) hle).2
    have hratio : Approximates .double _ _ (s.totalSuccesses + s.totalFailures ≤ 2 ^ 53) :=
      approximates_ratio hneg hle id
    simp only [← nearest64_eq] at hone hratio
    have hnonneg : (0 : ℚ) ≤
        nearest64 s.totalFailures / nearest64 ↑(s.totalSuccesses + s.totalFailures) :=
      div_nonneg (nearest64_nonneg (Nat.cast_nonneg _)) (nearest64_nonneg (Nat.cast_nonneg _))
    have hlimit : (1 : ℚ) < 2 ^ 1024 := one_lt_pow₀ (by norm_num) (by norm_num)
    rw [binary64_eq_finite hnonneg (hone.trans_lt hlimit)]
    exact hratio

theorem windowFailureRate_approximates {s : StateMachine} (h : s.Shape config) :
    Approximates .single (s.window.failureRate .single)
      (s.window.outcomes.countP id / s.window.outcomes.length)
      (config.slidingWindowSize ≤ 2 ^ 24) := by
  obtain ⟨history, htracks⟩ := h.window
  have hfilled : s.window.filled = s.window.outcomes.length := by
    rw [htracks.filled_eq, htracks.length]
  have hsmall : config.slidingWindowSize ≤ 2 ^ 24 → s.window.filled ≤ 2 ^ 24 := by
    rw [htracks.filled_eq, h.capacity]
    exact (min_le_left _ _).trans
  rw [← htracks.failures_eq, ← hfilled]
  unfold Window.failureRate
  split_ifs with hzero
  · refine approximates_zero .single ?_ _
    rw [hzero, Nat.cast_zero, div_zero]
  · have hratio := approximates_ratio (f := .single) (by norm_num [Format.single])
      htracks.failures_le_filled hsmall
    simp only [← nearest32_eq] at hratio
    exact hratio

end StateMachine

end Breaker
