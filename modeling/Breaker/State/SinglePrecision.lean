import Breaker.Config.Setters
import Breaker.State.TripCheck

/-!
# The rate rule in single precision

The code computes the failure rate in `f32` and compares it with an `f32`
threshold.  Where the threshold is the literal of a fraction `p / q` and the
window is so small that two different fractions cannot round to one number, the
rounded comparison decides as the exact one does, and the machine of the code
runs as the exact machine does on the fraction itself.
-/

namespace Breaker

open Foundation

universe u

variable {ε : Type u}

/-- The configuration as the code holds it, with a fraction for a threshold rounded to an `f32`. -/
def CircuitBreakerConfig.rounded (config : CircuitBreakerConfig .exact ε) :
    CircuitBreakerConfig .single ε :=
  { config with
    failureRateThreshold :=
      match config.failureRateThreshold with
      | .finite q => .finite (nearest32 q)
      | .posInf => .posInf
      | .negInf => .negInf
      | .nan => .nan }

namespace StateMachine

variable {config : CircuitBreakerConfig .exact ε} {s : StateMachine}

theorem failureRate_single {w : Window} {history : List Bool} (h : w.Tracks history)
    (hfilled : w.filled ≠ 0) (hsmall : w.filled ≤ 2 ^ 24) :
    w.failureRate .single = .finite (nearest32 (w.failures / w.filled)) := by
  have hfailures := h.failures_le_filled.trans hsmall
  simp only [Window.failureRate, hfilled, ↓reduceIte, RateArithmetic.rate, RateArithmetic.single,
    nearest32_natCast hfailures, nearest32_natCast hsmall]

theorem shouldTrip_rounded {p q : Nat} (hp : p ≤ q) (hq : 0 < q)
    (hrate : config.failureRateThreshold = .finite (p / q))
    {history : List Bool} (hwindow : s.window.Tracks history) (hfilled : 0 < s.window.filled)
    (hsmall : s.window.filled * q < 2 ^ 24) :
    s.shouldTrip config.rounded = s.shouldTrip config := by
  have hthreshold : config.rounded.failureRateThreshold = .finite (nearest32 (p / q)) := by
    simp only [CircuitBreakerConfig.rounded, hrate]
  have hfew : s.window.filled < 2 ^ 24 := (Nat.le_mul_of_pos_right _ hq).trans_lt hsmall
  have hone : 1 * q < 2 ^ 24 := (Nat.mul_le_mul_right q hfilled).trans_lt hsmall
  have hpositive : (0 : ℚ) < nearest32 (p / q) ↔ (0 : ℚ) < p / q := by
    have hzero := nearest32_le_iff (a := 0) one_pos hp hq hone
    simp only [Nat.cast_zero, zero_div, nearest32_zero] at hzero
    rw [← not_le, hzero, not_le]
  have hreached := nearest32_le_iff (a := s.window.failures) hfilled hp hq hsmall
  have hsingle := failureRate_single hwindow hfilled.ne' hfew.le
  have hexact : s.window.failureRate .exact = .finite (s.window.failures / s.window.filled) :=
    if_neg hfilled.ne'
  simp only [shouldTrip, hthreshold, hrate, hsingle, hexact, FloatValue.lt_finite,
    FloatValue.le_finite, hpositive, hreached]
  rfl

theorem settleFailure_rounded {p q : Nat} (hshape : s.Shape config)
    (hp : p ≤ q) (hq : 0 < q) (hrate : config.failureRateThreshold = .finite (p / q))
    (hsmall : config.slidingWindowSize * q < 2 ^ 24) (tick : Tick) :
    s.settleFailure config.rounded tick = s.settleFailure config tick := by
  cases hcurrent : s.current with
  | closed =>
      obtain ⟨history, hhistory⟩ := hshape.window
      have hwindow := hhistory.record true
      have hfilled := (hhistory.filled_record true).2
      have hcapacity : (s.window.record true).filled ≤ config.slidingWindowSize := by
        rw [hwindow.filled_eq, Window.record_capacity, hshape.capacity]
        exact min_le_left _ _
      have hcheck : s.failed.shouldTrip config.rounded = s.failed.shouldTrip config :=
        shouldTrip_rounded hp hq hrate hwindow hfilled
          ((Nat.mul_le_mul_right q hcapacity).trans_lt hsmall)
      rw [settleFailure, settleFailure, hcurrent, hcheck]
      rfl
  | halfOpen =>
      rw [settleFailure_halfOpen hcurrent, settleFailure_halfOpen hcurrent]
      rfl
  | opened => rw [settleFailure_opened hcurrent, settleFailure_opened hcurrent]

theorem apply_rounded (hconfig : config.WellFormed) {p q : Nat} (hshape : s.Shape config)
    (hp : p ≤ q) (hq : 0 < q) (hrate : config.failureRateThreshold = .finite (p / q))
    (hsmall : config.slidingWindowSize * q < 2 ^ 24) (input : Op × Tick) :
    s.apply config.rounded input = s.apply config input := by
  obtain ⟨op, tick⟩ := input
  cases op with
  | failure =>
      exact settleFailure_rounded
        (hshape.countFailure.maybeTransitionToHalfOpen hconfig tick.now) hp hq hrate hsmall tick
  | success => rfl
  | forceOpen => rfl
  | forceClosed => rfl

/--
The machine of the code, with its threshold and its rates in single precision,
makes the same steps as the exact machine on the fraction that the threshold was
written as, along every run of records and forced transitions.
-/
theorem single_precision {p q : Nat} (b : CircuitBreakerConfigBuilder .exact ε) {draw : Draw}
    (hnew : new b.build draw = some s) (hq : 0 < q)
    (hrate : b.build.failureRateThreshold = .finite (p / q))
    (hsmall : b.build.slidingWindowSize * q < 2 ^ 24) (inputs : List (Op × Tick)) :
    trace (apply b.build.rounded) s inputs = trace (apply b.build) s inputs := by
  have hconfig := build_wellFormed b
  have hp : p ≤ q := by
    have hqpos : (0 : ℚ) < q := by exact_mod_cast hq
    rcases hconfig.threshold with hnan | ⟨r, hr, -, hle⟩
    · rw [hrate] at hnan
      cases hnan
    · rw [hrate, FloatValue.finite.injEq] at hr
      rw [← hr, div_le_one hqpos] at hle
      exact_mod_cast hle
  by_contra hne
  obtain ⟨before, input, after, -, -, hstep⟩ := exists_first_difference hne
  have hreach : Reachable b.build (runFrom (StateMachine.apply b.build) s before) :=
    runFrom_invariant (I := Reachable b.build) ⟨draw, s, hnew, .refl s⟩
      fun _ input _ hreach => hreach.apply input
  exact hstep (apply_rounded hconfig (hreach.shape hconfig) hp hq hrate hsmall input)

/-- A threshold of ten percent, which no `f32` is equal to. -/
def tenPercent : CircuitBreakerConfigBuilder .exact Unit :=
  .chain [.failureRateThreshold (.finite (1 / 10)), .slidingWindowSize 20]

def secondInTwenty : List (Op × Tick) :=
  (.failure, ⟨0, 0, 0⟩) :: List.replicate 18 (.success, ⟨0, 0, 0⟩) ++ [(.failure, ⟨0, 0, 0⟩)]

theorem single_precision_tenPercent :
    trace (apply tenPercent.build.rounded) (fresh tenPercent.build (.fromSecs 30)) secondInTwenty =
      trace (apply tenPercent.build) (fresh tenPercent.build (.fromSecs 30)) secondInTwenty := by
  have hrate : tenPercent.build.failureRateThreshold = .finite ((1 : Nat) / (10 : Nat)) := by
    have hclamp : FloatValue.clamp (.finite (1 / 10)) (.finite 0) (.finite 1) =
        .finite (1 / 10) := by
      norm_num [FloatValue.clamp]
    change ((FloatValue.finite (1 / 10)).clamp (.finite 0) (.finite 1)).clamp (.finite 0)
      (.finite 1) = _
    rw [hclamp, hclamp]
    norm_num
  have hnew : new tenPercent.build 0 = some (fresh tenPercent.build (.fromSecs 30)) := rfl
  exact single_precision tenPercent hnew (by norm_num) hrate (by decide) _

end StateMachine

end Breaker
