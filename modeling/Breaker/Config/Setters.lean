import Breaker.Config.Builder
import Breaker.Foundation.Overwriting
import Mathlib.Data.List.Induction

/-!
# Sequences of setters

What a chain of setters builds.  A setter overwrites the field that it is named
after, `wait_duration` that of the backoff, so that only the last setter of each
field counts; and the built configurations are exactly the well-formed ones,
each of them built from its own values.
-/

namespace Breaker

open Foundation

universe u

variable {arith : RateArithmetic} {ε : Type u}

inductive Setter (ε : Type u) : Type (u + 1) where
  | failureRateThreshold (v : FloatValue)
  | consecutiveFailures (v : UInt32)
  | slidingWindowSize (v : UInt32)
  | minimumCalls (v : UInt32)
  | backoff (v : BackoffStrategy)
  | waitDuration (d : Duration)
  | halfOpenMaxCalls (v : UInt32)
  | successThreshold (v : UInt32)
  | failurePredicate {E : Type u} (downcast : ε → Option E) (f : E → Bool)
  | callTimeout (d : Option Duration)

inductive Field where
  | failureRateThreshold
  | consecutiveFailures
  | slidingWindowSize
  | minimumCalls
  | backoff
  | halfOpenMaxCalls
  | successThreshold
  | failurePredicate
  | callTimeout
  deriving DecidableEq

/-- `wait_duration` and `backoff` replace each other. -/
def Setter.field : Setter ε → Field
  | failureRateThreshold _ => .failureRateThreshold
  | consecutiveFailures _ => .consecutiveFailures
  | slidingWindowSize _ => .slidingWindowSize
  | minimumCalls _ => .minimumCalls
  | backoff _ | waitDuration _ => .backoff
  | halfOpenMaxCalls _ => .halfOpenMaxCalls
  | successThreshold _ => .successThreshold
  | failurePredicate .. => .failurePredicate
  | callTimeout _ => .callTimeout

namespace CircuitBreakerConfigBuilder

def set (b : CircuitBreakerConfigBuilder arith ε) : Setter ε → CircuitBreakerConfigBuilder arith ε
  | .failureRateThreshold v => b.setFailureRateThreshold v
  | .consecutiveFailures v => b.setConsecutiveFailures v
  | .slidingWindowSize v => b.setSlidingWindowSize v
  | .minimumCalls v => b.setMinimumCalls v
  | .backoff v => b.setBackoff v
  | .waitDuration d => b.setWaitDuration d
  | .halfOpenMaxCalls v => b.setHalfOpenMaxCalls v
  | .successThreshold v => b.setSuccessThreshold v
  | .failurePredicate downcast f => b.setFailurePredicate downcast f
  | .callTimeout d => b.setCallTimeout d

theorem set_overwrites :
    Overwrites (set : CircuitBreakerConfigBuilder arith ε → _ → _) Setter.field where
  overwrite b first last h := by
    cases first <;> cases last <;> first
      | rfl
      | cases h
  comm b first last h := by
    cases first <;> cases last <;> first
      | rfl
      | exact absurd rfl h

def chain (setters : List (Setter ε)) : CircuitBreakerConfigBuilder arith ε := setters.foldl set {}

theorem chain_callTimeout (setters : List (Setter ε)) (d : Duration)
    (h : (chain setters : CircuitBreakerConfigBuilder arith ε).callTimeout = some d) :
    d.isZero = false := by
  induction setters using List.reverseRecOn with
  | nil => cases h
  | append_singleton setters last ih =>
      rw [chain, List.foldl_append] at h
      cases last with
      | callTimeout v =>
          have hfilter := (Option.filter_eq_some_iff.mp h).2
          simpa using hfilter
      | _ => exact ih h

end CircuitBreakerConfigBuilder

open CircuitBreakerConfigBuilder

/-! ## The presets -/

namespace CircuitBreakerConfig

def standardSetters : List (Setter ε) :=
  [.failureRateThreshold (.finite (1 / 2)), .consecutiveFailures 5, .slidingWindowSize 10,
    .backoff (.fixed (.fromSecs 30)), .halfOpenMaxCalls 3]

def standard : CircuitBreakerConfig arith ε := (chain standardSetters).build

def fastFailSetters : List (Setter ε) :=
  [.failureRateThreshold (.finite 1), .consecutiveFailures 1, .slidingWindowSize 5,
    .backoff (.fixed (.fromSecs 10)), .halfOpenMaxCalls 1]

def fastFail : CircuitBreakerConfig arith ε := (chain fastFailSetters).build

def lenientSetters : List (Setter ε) :=
  [.failureRateThreshold (.finite (1 / 2)), .consecutiveFailures 10, .slidingWindowSize 20,
    .backoff (.fixed (.fromSecs 60)), .halfOpenMaxCalls 5]

def lenient : CircuitBreakerConfig arith ε := (chain lenientSetters).build

/-! ## What the chains build -/

/-- The setters of every field, each with the value that the configuration has there. -/
def setters (config : CircuitBreakerConfig arith ε) : List (Setter ε) :=
  [.failureRateThreshold config.failureRateThreshold,
    .consecutiveFailures (.ofNat config.consecutiveFailures),
    .slidingWindowSize (.ofNat config.slidingWindowSize),
    .minimumCalls (.ofNat config.minimumCalls),
    .backoff config.backoff,
    .halfOpenMaxCalls (.ofNat config.halfOpenMaxCalls),
    .successThreshold (.ofNat config.successThreshold),
    .callTimeout config.callTimeout] ++
  config.failurePredicate.toList.map fun p => .failurePredicate some p.classify

theorem toNat_max_ofNat {n : Nat} (hpos : 1 ≤ n) (hlt : n < 2 ^ 32) :
    (max (UInt32.ofNat n) 1).toNat = n := by
  have hn : (UInt32.ofNat n).toNat = n := UInt32.toNat_ofNat_of_lt' hlt
  change (if UInt32.ofNat n ≤ 1 then 1 else UInt32.ofNat n).toNat = n
  split_ifs with hle
  · rw [UInt32.le_iff_toNat_le, hn] at hle
    exact le_antisymm hpos hle
  · exact hn

theorem clamp_threshold {config : CircuitBreakerConfig arith ε} (h : config.WellFormed) :
    config.failureRateThreshold.clamp (.finite 0) (.finite 1) = config.failureRateThreshold := by
  rcases h.threshold with hnan | ⟨q, hq, hnonneg, hle⟩
  · rw [hnan, FloatValue.clamp_nan]
  · simp [hq, FloatValue.clamp, not_lt.mpr hnonneg, not_lt.mpr hle]

theorem filter_callTimeout {config : CircuitBreakerConfig arith ε}
    (h : ∀ d, config.callTimeout = some d → d.isZero = false) :
    (config.callTimeout.filter fun d => !d.isZero) = config.callTimeout := by
  cases htimeout : config.callTimeout with
  | none => rfl
  | some d => simp [h d htimeout]

theorem chain_setters (config : CircuitBreakerConfig arith ε) :
    (chain config.setters : CircuitBreakerConfigBuilder arith ε) =
      { failureRateThreshold := some (config.failureRateThreshold.clamp (.finite 0) (.finite 1))
        consecutiveFailures := some (max (.ofNat config.consecutiveFailures) 1)
        slidingWindowSize := some (max (.ofNat config.slidingWindowSize) 1)
        minimumCalls := some (max (.ofNat config.minimumCalls) 1)
        backoff := some config.backoff
        halfOpenMaxCalls := some (max (.ofNat config.halfOpenMaxCalls) 1)
        successThreshold := some (max (.ofNat config.successThreshold) 1)
        failurePredicate := config.failurePredicate
        callTimeout := config.callTimeout.filter fun d => !d.isZero } := by
  unfold setters
  cases config.failurePredicate with
  | none => rfl
  | some p => rfl

theorem build_setters {config : CircuitBreakerConfig arith ε} (h : config.WellFormed)
    (htimeout : ∀ d, config.callTimeout = some d → d.isZero = false) :
    (chain config.setters).build = config := by
  have hminimum := toNat_max_ofNat h.minimum_pos (h.minimum_le.trans_lt h.window_lt)
  rw [chain_setters, filter_callTimeout htimeout]
  simp only [build, Option.getD_some, Option.map_some,
    toNat_max_ofNat h.consecutive_pos h.consecutive_lt,
    toNat_max_ofNat h.window_pos h.window_lt, hminimum,
    toNat_max_ofNat h.halfOpen_pos h.halfOpen_lt, toNat_max_ofNat h.success_pos h.success_lt,
    clamp_threshold h, max_eq_left h.consecutive_pos, max_eq_left h.window_pos,
    max_eq_left h.minimum_pos, min_eq_left h.minimum_le, max_eq_left h.halfOpen_pos,
    max_eq_left h.success_pos]

/--
The chains of setters: only the last setter of each field counts, in whatever
order the fields are set; and a configuration is built by some chain if and only
if it is well formed and has no zero timeout, and then by the chain of its values.
-/
theorem builder_chains :
    (∀ setters setters' : List (Setter ε),
      (∀ field, lastOf Setter.field field setters = lastOf Setter.field field setters') →
      (chain setters : CircuitBreakerConfigBuilder arith ε).build = (chain setters').build) ∧
    ∀ config : CircuitBreakerConfig arith ε,
      ((∃ setters, (chain setters).build = config) ↔
        config.WellFormed ∧ ∀ d, config.callTimeout = some d → d.isZero = false) ∧
      ((∃ setters, (chain setters).build = config) → (chain config.setters).build = config) := by
  refine ⟨fun setters setters' hlast => ?_, fun config => ?_⟩
  · rw [chain, set_overwrites.foldl_eq hlast, chain]
  · have hbuilt : (∃ setters, (chain setters).build = config) →
        config.WellFormed ∧ ∀ d, config.callTimeout = some d → d.isZero = false := by
      rintro ⟨setters, rfl⟩
      exact ⟨build_wellFormed _, chain_callTimeout setters⟩
    refine ⟨⟨hbuilt, fun ⟨hconfig, htimeout⟩ => ⟨_, build_setters hconfig htimeout⟩⟩, fun h => ?_⟩
    exact build_setters (hbuilt h).1 (hbuilt h).2

end CircuitBreakerConfig

end Breaker
