import Breaker.State.Outage

/-!
# Operations that unwind

`new` and the transition to `Open` are the two places that compute a wait, the
latter with the state already set to `Open`.  They unwind exactly for the
strategies and attempts whose wait panics.
-/

namespace Breaker

open Foundation

universe u

variable {arith : RateArithmetic} {ε : Type u}

namespace StateMachine

theorem new_isSome_iff (config : CircuitBreakerConfig arith ε) (draw : Draw) :
    (new config draw).isSome ↔ config.backoff.Computes 1 := by
  rw [new, Option.isSome_map, BackoffStrategy.initialWait]
  exact config.backoff.waitFor_isSome_iff 1 draw

theorem nextWait_isSome_iff (config : CircuitBreakerConfig arith ε) (s : StateMachine)
    (tick : Tick) :
    (s.nextWait config tick).isSome ↔ config.backoff.Computes (saturatingSucc s.openAttempts) :=
  config.backoff.waitFor_isSome_iff _ tick.draw

theorem transition_opened_ok_iff (config : CircuitBreakerConfig arith ε) (s : StateMachine)
    (tick : Tick) : (s.transition .opened config tick).2 = .ok () ↔
      config.backoff.Computes (saturatingSucc s.openAttempts) := by
  rw [← nextWait_isSome_iff config s tick]
  cases hnext : s.nextWait config tick with
  | none => simp [transition_opened_none config tick hnext]
  | some wait => simp [transition_opened_some config tick hnext]

/--
A wait is computed, and a machine is built or tripped without unwinding, exactly
for the strategies and attempts of `Computes`.
-/
theorem wait_computed_iff (b : CircuitBreakerConfigBuilder arith ε) :
    (∀ attempt draw, (b.build.backoff.waitFor binary64 attempt draw).isSome ↔
        b.build.backoff.Computes attempt) ∧
      (∀ draw, (new b.build draw).isSome ↔ b.build.backoff.Computes 1) ∧
      ∀ s tick, (transition s .opened b.build tick).2 = .ok () ↔
        b.build.backoff.Computes (saturatingSucc s.openAttempts) :=
  ⟨b.build.backoff.waitFor_isSome_iff, new_isSome_iff b.build,
    transition_opened_ok_iff b.build⟩

theorem wait_computed_overlongWait :
    ¬ ∀ (b : CircuitBreakerConfigBuilder .single Unit) (attempt : Nat) (draw : Draw),
      attempt < 2 ^ 32 → (b.build.backoff.waitFor binary64 attempt draw).isSome := by
  intro hlaw
  exact absurd (hlaw overlongWait 2 0 (by norm_num)) (by decide +kernel)

end StateMachine

end Breaker
