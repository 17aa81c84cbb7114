import Breaker.Config.Backoff
import Breaker.Config.Rates

/-!
# Configurations and their builder

The fields of a `CircuitBreakerConfig` are public, so that a configuration can
hold any values; what the rest of the development relies on is what `build`
guarantees, `CircuitBreakerConfig.WellFormed`.  The `u32` parameters enter as
`UInt32` and are kept as numbers.  `ε` is the type of type-erased errors, the
`dyn Any` that the failure predicate is consulted with, and `arith` the arithmetic
that the machine of the configuration computes its failure rates in.
-/

namespace Breaker

open Foundation

universe u

variable {arith : RateArithmetic} {ε : Type u}

structure FailurePredicate (ε : Type u) where
  classify : ε → Bool

namespace FailurePredicate

/--
`downcast` is `downcast_ref::<E>`.  An error of another type than the one the
predicate was built for counts as a failure.
-/
def new {E : Type*} (downcast : ε → Option E) (f : E → Bool) : FailurePredicate ε where
  classify err :=
    match downcast err with
    | some e => f e
    | none => true

def isFailure (p : FailurePredicate ε) (err : ε) : Bool := p.classify err

end FailurePredicate

structure CircuitBreakerConfig (arith : RateArithmetic) (ε : Type u) where
  failureRateThreshold : FloatValue
  consecutiveFailures : Nat
  slidingWindowSize : Nat
  minimumCalls : Nat
  halfOpenMaxCalls : Nat
  successThreshold : Nat
  backoff : BackoffStrategy
  failurePredicate : Option (FailurePredicate ε)
  callTimeout : Option Duration

def CircuitBreakerConfig.isBreakerFailure (config : CircuitBreakerConfig arith ε)
    (err : ε) : Bool :=
  match config.failurePredicate with
  | some p => p.isFailure err
  | none => true

structure CircuitBreakerConfigBuilder (arith : RateArithmetic) (ε : Type u) where
  failureRateThreshold : Option FloatValue := none
  consecutiveFailures : Option UInt32 := none
  slidingWindowSize : Option UInt32 := none
  minimumCalls : Option UInt32 := none
  waitDuration : Option Duration := none
  backoff : Option BackoffStrategy := none
  halfOpenMaxCalls : Option UInt32 := none
  successThreshold : Option UInt32 := none
  failurePredicate : Option (FailurePredicate ε) := none
  callTimeout : Option Duration := none

namespace CircuitBreakerConfigBuilder

variable (b : CircuitBreakerConfigBuilder arith ε)

/-! ## Setters -/

def setFailureRateThreshold (v : FloatValue) : CircuitBreakerConfigBuilder arith ε :=
  { b with failureRateThreshold := some (v.clamp (.finite 0) (.finite 1)) }

def setConsecutiveFailures (v : UInt32) : CircuitBreakerConfigBuilder arith ε :=
  { b with consecutiveFailures := some (max v 1) }

def setSlidingWindowSize (v : UInt32) : CircuitBreakerConfigBuilder arith ε :=
  { b with slidingWindowSize := some (max v 1) }

def setMinimumCalls (v : UInt32) : CircuitBreakerConfigBuilder arith ε :=
  { b with minimumCalls := some (max v 1) }

def setBackoff (v : BackoffStrategy) : CircuitBreakerConfigBuilder arith ε :=
  { b with backoff := some v }

/-- The setter of `wait_duration` replaces the backoff; the field of that name stays unset. -/
def setWaitDuration (d : Duration) : CircuitBreakerConfigBuilder arith ε :=
  b.setBackoff (.fixed d)

def setHalfOpenMaxCalls (v : UInt32) : CircuitBreakerConfigBuilder arith ε :=
  { b with halfOpenMaxCalls := some (max v 1) }

def setSuccessThreshold (v : UInt32) : CircuitBreakerConfigBuilder arith ε :=
  { b with successThreshold := some (max v 1) }

def setFailurePredicate {E : Type*} (downcast : ε → Option E) (f : E → Bool) :
    CircuitBreakerConfigBuilder arith ε :=
  { b with failurePredicate := some (.new downcast f) }

def setCallTimeout (d : Option Duration) : CircuitBreakerConfigBuilder arith ε :=
  { b with callTimeout := d.filter fun d => !d.isZero }

/-! ## Building -/

def build : CircuitBreakerConfig arith ε :=
  let halfOpenMax := max (b.halfOpenMaxCalls.getD 3).toNat 1
  let window := max (b.slidingWindowSize.getD 10).toNat 1
  let backoff := b.backoff.getD (.fixed (b.waitDuration.getD (Duration.fromSecs 30)))
  { failureRateThreshold :=
      (b.failureRateThreshold.getD (.finite (1 / 2))).clamp (.finite 0) (.finite 1)
    consecutiveFailures := max (b.consecutiveFailures.getD 5).toNat 1
    slidingWindowSize := window
    minimumCalls := min (max ((b.minimumCalls.map UInt32.toNat).getD window) 1) window
    halfOpenMaxCalls := halfOpenMax
    successThreshold := max ((b.successThreshold.map UInt32.toNat).getD halfOpenMax) 1
    backoff := backoff
    failurePredicate := b.failurePredicate
    callTimeout := b.callTimeout }

end CircuitBreakerConfigBuilder

/--
A builder for concrete runs: the circuit trips on the first failure, waits one
nanosecond, and closes on the first successful probe.
-/
def hairTrigger : CircuitBreakerConfigBuilder .single Unit where
  consecutiveFailures := some 1
  successThreshold := some 1
  backoff := some (.fixed (Duration.fromNanos 1))

def doubleTrigger : CircuitBreakerConfigBuilder .single Unit :=
  { hairTrigger with consecutiveFailures := some 2 }

/-! ## What building guarantees -/

structure CircuitBreakerConfig.WellFormed (config : CircuitBreakerConfig arith ε) : Prop where
  threshold : config.failureRateThreshold = .nan ∨
    ∃ q, config.failureRateThreshold = .finite q ∧ 0 ≤ q ∧ q ≤ 1
  consecutive_pos : 1 ≤ config.consecutiveFailures
  consecutive_lt : config.consecutiveFailures < 2 ^ 32
  window_pos : 1 ≤ config.slidingWindowSize
  window_lt : config.slidingWindowSize < 2 ^ 32
  minimum_pos : 1 ≤ config.minimumCalls
  minimum_le : config.minimumCalls ≤ config.slidingWindowSize
  halfOpen_pos : 1 ≤ config.halfOpenMaxCalls
  halfOpen_lt : config.halfOpenMaxCalls < 2 ^ 32
  success_pos : 1 ≤ config.successThreshold
  success_lt : config.successThreshold < 2 ^ 32

private theorem clamped_lt (v : UInt32) : max v.toNat 1 < 2 ^ 32 :=
  max_lt v.toNat_lt (by norm_num)

theorem build_threshold (b : CircuitBreakerConfigBuilder arith ε) :
    b.build.failureRateThreshold = .nan ∨
      ∃ q, b.build.failureRateThreshold = .finite q ∧ 0 ≤ q ∧ q ≤ 1 := by
  simp only [CircuitBreakerConfigBuilder.build]
  by_cases h : b.failureRateThreshold.getD (.finite (1 / 2)) = .nan
  · exact .inl (by rw [h, FloatValue.clamp_nan])
  · exact .inr (FloatValue.clamp_of_ne_nan h zero_le_one)

theorem build_success_lt (b : CircuitBreakerConfigBuilder arith ε) :
    b.build.successThreshold < 2 ^ 32 := by
  simp only [CircuitBreakerConfigBuilder.build]
  cases b.successThreshold with
  | none => exact max_lt (clamped_lt _) (by norm_num)
  | some v => exact clamped_lt v

theorem build_wellFormed (b : CircuitBreakerConfigBuilder arith ε) : b.build.WellFormed where
  threshold := build_threshold b
  consecutive_pos := le_max_right _ _
  consecutive_lt := clamped_lt _
  window_pos := le_max_right _ _
  window_lt := clamped_lt _
  minimum_pos := le_min (le_max_right _ _) (le_max_right _ _)
  minimum_le := min_le_right _ _
  halfOpen_pos := le_max_right _ _
  halfOpen_lt := clamped_lt _
  success_pos := le_max_right _ _
  success_lt := build_success_lt b

end Breaker
