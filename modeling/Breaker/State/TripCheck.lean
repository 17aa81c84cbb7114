import Breaker.State.Tripping

/-!
# Trip checks

The machine with its trip check as a parameter: with the check of the code it is
the machine itself, and `rateTrips` is the check without the streak rule.
-/

namespace Breaker

open Foundation

universe u

variable {arith : RateArithmetic} {ε : Type u}

namespace StateMachine

/-! ## The rules of a trip -/

variable (config : CircuitBreakerConfig arith ε)

/-- `should_trip` without the streak test. -/
def rateTrips (s : StateMachine) : Bool :=
  FloatValue.lt (.finite 0) config.failureRateThreshold
    && decide (config.minimumCalls ≤ s.window.filled)
    && FloatValue.le config.failureRateThreshold (s.window.failureRate arith)

theorem shouldTrip_eq (s : StateMachine) :
    s.shouldTrip config =
      if config.consecutiveFailures ≤ s.failureCount then true else s.rateTrips config := rfl

/-! ## The machine over a check -/

variable (trips : StateMachine → Bool)

/-- `settleFailure` with the trip check `trips`. -/
def settleFailureBy (s : StateMachine) (tick : Tick) :
    StateMachine × Except Panic (Option (State × State)) :=
  match s.current with
  | .closed =>
      if trips s.failed then s.failed.transitionFrom .closed .opened config tick
      else (s.failed, .ok none)
  | .halfOpen => s.transitionFrom .halfOpen .opened config tick
  | .opened => (s, .ok none)

def recordBy (s : StateMachine) (input : Bool × Tick) :
    StateMachine × Except Panic (Option (State × State)) :=
  if input.1 then
    (s.countFailure.maybeTransitionToHalfOpen input.2.now).settleFailureBy config trips input.2
  else s.recordSuccess config input.2

theorem record_eq_recordBy :
    record config = recordBy config fun s => s.shouldTrip config := rfl

variable {config trips} {s : StateMachine}

theorem settleFailureBy_eq (h : s.current ≠ .closed) (tick : Tick) :
    s.settleFailureBy config trips tick = s.settleFailure config tick := by
  unfold settleFailureBy settleFailure
  cases hcurrent : s.current with
  | closed => exact absurd hcurrent h
  | halfOpen => rfl
  | opened => rfl

theorem recordBy_success (h : s.current = .closed) (tick : Tick) :
    recordBy config trips s (false, tick) = (s.countSuccess.succeeded, .ok none) :=
  recordSuccess_closed h tick

theorem recordBy_failure (h : s.current = .closed) (tick : Tick) :
    recordBy config trips s (true, tick) =
      if trips s.countFailure.failed then
        s.countFailure.failed.transitionFrom .closed .opened config tick
      else (s.countFailure.failed, .ok none) := by
  have hclosed : s.countFailure.current = .closed := h
  rw [recordBy, if_pos rfl,
    maybeTransitionToHalfOpen_of_not_due (not_due_of_closed hclosed tick.now), settleFailureBy,
    hclosed]

theorem recordBy_stay (h : s.current = .closed) (hstay : trips s.countFailure.failed = false)
    (tick : Tick) :
    recordBy config trips s (true, tick) = (s.countFailure.failed, .ok none) := by
  rw [recordBy_failure h, hstay]
  rfl

theorem recordBy_trip (h : s.current = .closed) (htrip : trips s.countFailure.failed = true)
    (tick : Tick) :
    recordBy config trips s (true, tick) =
      s.countFailure.failed.transitionFrom .closed .opened config tick := by
  rw [recordBy_failure h, if_pos htrip]

theorem recordBy_trip_current (h : s.current = .closed)
    (htrip : trips s.countFailure.failed = true) (tick : Tick) :
    (recordBy config trips s (true, tick)).1.current = .opened := by
  obtain ⟨wait, heq⟩ := transitionFrom_opened config tick s.countFailure.failed .closed
  rw [recordBy_trip h htrip, heq]
  rfl

end StateMachine

end Breaker
