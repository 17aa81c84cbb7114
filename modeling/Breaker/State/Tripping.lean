import Breaker.State.Reachable

/-!
# The tripping policy

`TripsAt` is the policy as a statement about a whole history of outcomes: the
last outcome is a failure and either the last `consecutiveFailures` outcomes are
failures or enough of the last `slidingWindowSize` outcomes are.  The machine
decides from a streak counter and an evicting window instead.  `Watching` ties
the two together while the circuit is `Closed`.
-/

namespace Breaker

open Foundation

universe u

variable {arith : RateArithmetic} {ε : Type u}

/-! ## The policy over histories -/

/-- The last `n` outcomes exist and are all failures. -/
def StreakOf (n : Nat) (history : List Bool) : Prop :=
  n ≤ history.length ∧ ∀ failed ∈ history.rtake n, failed = true

/-- The failure rate of the window over the history reaches an enabled threshold. -/
def RateReached (config : CircuitBreakerConfig arith ε) (history : List Bool) : Prop :=
  let m := min history.length config.slidingWindowSize
  ∃ q, config.failureRateThreshold = .finite q ∧ 0 < q ∧ config.minimumCalls ≤ m ∧
    q ≤ arith.rate ((history.rtake m).countP id) m

def TripsAt (config : CircuitBreakerConfig arith ε) (history : List Bool) : Prop :=
  history.getLast? = some true ∧
    (StreakOf config.consecutiveFailures history ∨ RateReached config history)

instance (n : Nat) (history : List Bool) : Decidable (StreakOf n history) :=
  inferInstanceAs (Decidable (_ ∧ _))

instance (config : CircuitBreakerConfig arith ε) (history : List Bool) :
    Decidable (RateReached config history) :=
  match h : config.failureRateThreshold with
  | .finite q =>
      decidable_of_iff (0 < q ∧ config.minimumCalls ≤ min history.length config.slidingWindowSize ∧
        q ≤ arith.rate
          ((history.rtake (min history.length config.slidingWindowSize)).countP id)
          (min history.length config.slidingWindowSize)) (by simp [RateReached, h])
  | .nan => isFalse (by simp [RateReached, h])
  | .negInf => isFalse (by simp [RateReached, h])
  | .posInf => isFalse (by simp [RateReached, h])

instance (config : CircuitBreakerConfig arith ε) (history : List Bool) :
    Decidable (TripsAt config history) :=
  inferInstanceAs (Decidable (_ ∧ _))

theorem rateReached_exact {config : CircuitBreakerConfig .exact ε} (hconfig : config.WellFormed)
    (history : List Bool) :
    RateReached config history ↔ ∃ q, config.failureRateThreshold = .finite q ∧ 0 < q ∧
      config.minimumCalls ≤ min history.length config.slidingWindowSize ∧
      q * (min history.length config.slidingWindowSize : Nat) ≤
        (history.rtake (min history.length config.slidingWindowSize)).countP id := by
  unfold RateReached
  refine exists_congr fun q => and_congr_right fun _ => and_congr_right fun _ =>
    and_congr_right fun hminimum => ?_
  have hpos : (0 : ℚ) < (min history.length config.slidingWindowSize : Nat) := by
    exact_mod_cast hconfig.minimum_pos.trans hminimum
  rw [RateArithmetic.exact_rate, le_div_iff₀ hpos]

theorem not_tripsAt_success (config : CircuitBreakerConfig arith ε) (history : List Bool) :
    ¬ TripsAt config (history ++ [false]) := by
  simp [TripsAt]

namespace StateMachine

/-! ## Entering `Closed` -/

/-- Machines that have just entered `Closed`: new, recovered or reset ones. -/
inductive EntersClosed (config : CircuitBreakerConfig arith ε) : StateMachine → Prop
  | constructed {draw : Draw} {s : StateMachine} :
      new config draw = some s → EntersClosed config s
  | recovery {s s' : StateMachine} {tick : Tick} : Reachable config s →
      s.recordSuccess config tick = (s', .ok (some (.halfOpen, .closed))) →
      EntersClosed config s'
  | reset {s : StateMachine} {tick : Tick} : Reachable config s →
      EntersClosed config (s.forceClosed config tick).1

/-! ## The counters while the circuit is `Closed` -/

structure Watching (config : CircuitBreakerConfig arith ε) (history : List Bool)
    (s : StateMachine) : Prop where
  reachable : Reachable config s
  current : s.current = .closed
  streak : s.failureCount = (history.rtakeWhile id).length
  window : s.window.Tracks history

variable {config : CircuitBreakerConfig arith ε} {s : StateMachine} {history : List Bool}
  {tick : Tick}

theorem recordSuccess_recovery {s' : StateMachine}
    (h : s.recordSuccess config tick = (s', .ok (some (.halfOpen, .closed)))) :
    s' = (s.countSuccess.maybeTransitionToHalfOpen tick.now).recovered := by
  unfold StateMachine.recordSuccess at h
  generalize s.countSuccess.maybeTransitionToHalfOpen tick.now = t at h ⊢
  cases hcurrent : t.current with
  | closed => simp [settleSuccess_closed hcurrent] at h
  | opened => simp [settleSuccess_opened hcurrent] at h
  | halfOpen =>
      by_cases hlt : t.successCount + 1 < config.successThreshold
      · simp [settleSuccess_halfOpen_lt hcurrent hlt] at h
      · rw [settleSuccess_halfOpen_ge hcurrent (not_lt.mp hlt)] at h
        exact (congrArg Prod.fst h).symm

theorem EntersClosed.watching (hconfig : config.WellFormed) (h : EntersClosed config s) :
    Watching config [] s := by
  cases h with
  | @constructed draw _ hnew =>
      obtain ⟨wait, -, rfl⟩ := new_eq hnew
      exact ⟨⟨draw, _, hnew, .refl _⟩, rfl, rfl, Window.tracks_new hconfig.window_lt⟩
  | @recovery t _ tick hreach hrec =>
      have hreach' := hreach.recordSuccess tick
      rw [hrec] at hreach'
      have hshape := (hreach.shape hconfig).countSuccess.maybeTransitionToHalfOpen hconfig tick.now
      obtain ⟨past, hpast⟩ := hshape.window
      rw [recordSuccess_recovery hrec] at hreach' ⊢
      exact ⟨hreach', rfl, rfl, hpast.clear⟩
  | @reset t tick hreach =>
      obtain ⟨past, hpast⟩ := (hreach.shape hconfig).window
      exact ⟨hreach.apply (.forceClosed, tick), rfl, rfl, hpast.clear⟩

/-! ## One outcome -/

theorem Watching.recordSuccess (h : Watching config history s) (tick : Tick) :
    (s.recordSuccess config tick).2 = .ok none ∧
      Watching config (history ++ [false]) (s.recordSuccess config tick).1 := by
  have hstep : s.recordSuccess config tick = (s.countSuccess.succeeded, .ok none) :=
    recordSuccess_closed h.current tick
  have hreach := h.reachable.recordSuccess tick
  rw [hstep] at hreach ⊢
  exact ⟨rfl, hreach, h.current, by simp [succeeded], h.window.record false⟩

theorem Watching.shouldTrip_iff (hconfig : config.WellFormed) (h : Watching config history s) :
    s.failed.shouldTrip config = true ↔ TripsAt config (history ++ [true]) := by
  have hwindow := h.window.record true
  have hcapacity : (s.window.record true).capacity = config.slidingWindowSize := by
    rw [Window.record_capacity]
    exact (h.reachable.shape hconfig).capacity
  have hstreak : config.consecutiveFailures ≤ s.failed.failureCount ↔
      StreakOf config.consecutiveFailures (history ++ [true]) := by
    have hcount : s.failed.failureCount = ((history ++ [true]).rtakeWhile id).length := by
      simp [failed, h.streak]
    rw [hcount]
    exact le_length_rtakeWhile_iff id _ _
  have hrate : (FloatValue.lt (.finite 0) config.failureRateThreshold
        && decide (config.minimumCalls ≤ s.failed.window.filled)
        && FloatValue.le config.failureRateThreshold (s.failed.window.failureRate arith)) = true ↔
      RateReached config (history ++ [true]) := by
    have hfilled : s.failed.window.filled =
        min (history ++ [true]).length config.slidingWindowSize := by
      rw [failed, hwindow.filled_eq, hcapacity, min_comm]
    have hfailures : s.failed.window.failures =
        ((history ++ [true]).rtake s.failed.window.filled).countP id := by
      rw [hfilled, rtake_min_length, failed, hwindow.failures_rtake, hcapacity]
    have hpos : 0 < s.failed.window.filled := by
      have := hconfig.window_pos
      rw [hfilled]
      simp
      omega
    unfold RateReached
    rw [← hfilled]
    rcases hconfig.threshold with hnan | ⟨q, hq, -, -⟩
    · simp [hnan]
    · simp only [hq, Window.failureRate, hpos.ne', ↓reduceIte, FloatValue.lt_finite,
        FloatValue.le_finite, Bool.and_eq_true, decide_eq_true_eq, FloatValue.finite.injEq,
        exists_eq_left', hfailures, and_assoc]
  simp only [shouldTrip, TripsAt, List.getLast?_append, List.getLast?_singleton,
    Option.some_or, true_and, ← hstreak, ← hrate]
  split_ifs with hcond <;> simp [hcond]

theorem Watching.countFailure_failed_shouldTrip (s : StateMachine) :
    s.countFailure.failed.shouldTrip config = s.failed.shouldTrip config := rfl

theorem Watching.recordFailure_stay (hconfig : config.WellFormed)
    (h : Watching config history s) (hstay : ¬ TripsAt config (history ++ [true]))
    (tick : Tick) :
    (s.recordFailure config tick).2 = .ok none ∧
      Watching config (history ++ [true]) (s.recordFailure config tick).1 := by
  have hcheck : s.countFailure.failed.shouldTrip config = false := by
    rw [countFailure_failed_shouldTrip]
    exact Bool.eq_false_iff.mpr fun htrip => hstay ((h.shouldTrip_iff hconfig).mp htrip)
  have hstep := recordFailure_closed_stay h.current hcheck tick
  refine ⟨by rw [hstep], ?_⟩
  have hreach := h.reachable.recordFailure tick
  rw [hstep] at hreach ⊢
  exact ⟨hreach, h.current, by simp [failed, countFailure, h.streak],
    h.window.record true⟩

theorem Watching.recordFailure_trip (hconfig : config.WellFormed)
    (h : Watching config history s) (htrip : TripsAt config (history ++ [true]))
    (tick : Tick) :
    (s.recordFailure config tick).2 = .ok (some (.closed, .opened)) ∧
      (s.recordFailure config tick).1.current = .opened := by
  have hcheck : s.countFailure.failed.shouldTrip config = true := by
    rw [countFailure_failed_shouldTrip]
    exact (h.shouldTrip_iff hconfig).mpr htrip
  have hwait : (s.countFailure.failed.nextWait config tick).isSome :=
    h.reachable.nextWait_isSome ((h.reachable.shape hconfig).closed h.current).1 tick
  rw [recordFailure_closed_trip h.current hcheck]
  obtain ⟨wait, heq⟩ := transitionFrom_opened config tick s.countFailure.failed .closed
  obtain ⟨next, hnext⟩ := Option.isSome_iff_exists.mp hwait
  rw [heq, tripReport, hnext]
  exact ⟨rfl, rfl⟩

/-! ## Sequences of outcomes -/

theorem Watching.run (hconfig : config.WellFormed) (h : Watching config history s)
    (inputs : List (Bool × Tick))
    (hstay : ∀ j < inputs.length,
      ¬ TripsAt config (history ++ (inputs.map Prod.fst).take (j + 1))) :
    Watching config (history ++ inputs.map Prod.fst) (runFrom (record config) s inputs) := by
  induction inputs generalizing history s with
  | nil => simpa using h
  | cons input inputs ih =>
      obtain ⟨failed, tick⟩ := input
      have hhead : Watching config (history ++ [failed]) (record config s (failed, tick)).1 := by
        cases failed with
        | false => exact (h.recordSuccess tick).2
        | true =>
            exact (h.recordFailure_stay hconfig (by simpa using hstay 0 (by simp)) tick).2
      have htail := ih hhead fun j hj => by
        simpa [List.append_assoc] using hstay (j + 1) (by simpa using hj)
      simpa [List.append_assoc] using htail

/--
The tripping policy, exactly.  As long as no index trips on the history up to
it, every record returns nothing and the circuit stays `Closed`; the first index
that does trip returns the pair and opens the circuit.
-/
theorem tripping_policy (b : CircuitBreakerConfigBuilder arith ε) {s : StateMachine}
    (h : EntersClosed b.build s) (inputs : List (Bool × Tick)) {i : Nat}
    (hi : i < inputs.length)
    (hfirst : ∀ j < i, ¬ TripsAt b.build ((inputs.map Prod.fst).take (j + 1))) :
    ∃ step, (trace (record b.build) s inputs)[i]? = some step ∧
      (TripsAt b.build ((inputs.map Prod.fst).take (i + 1)) →
        step.2 = .ok (some (.closed, .opened)) ∧ step.1.current = .opened) ∧
      (¬ TripsAt b.build ((inputs.map Prod.fst).take (i + 1)) →
        step.2 = .ok none ∧ step.1.current = .closed) := by
  have hconfig := build_wellFormed b
  have hbefore := (h.watching hconfig).run hconfig (inputs.take i) fun j hj => by
    have hji : j < i := by
      rw [List.length_take] at hj
      omega
    rw [List.nil_append, List.map_take, List.take_take, min_eq_left (by omega)]
    exact hfirst j hji
  have hhistory : (inputs.map Prod.fst).take (i + 1) =
      (inputs.take i).map Prod.fst ++ [inputs[i].1] := by
    rw [List.map_take, List.take_add_one]
    simp [hi]
  rw [List.nil_append] at hbefore
  refine ⟨_, by rw [getElem?_trace, List.getElem?_eq_getElem hi, Option.map_some], ?_⟩
  rw [hhistory]
  generalize hinput : inputs[i] = input
  obtain ⟨failed, tick⟩ := input
  cases failed with
  | false =>
      refine ⟨fun htrip => absurd htrip (not_tripsAt_success _ _), fun _ => ?_⟩
      have hstep := hbefore.recordSuccess tick
      exact ⟨hstep.1, hstep.2.current⟩
  | true =>
      refine ⟨fun htrip => hbefore.recordFailure_trip hconfig htrip tick, fun hstay => ?_⟩
      have hstep := hbefore.recordFailure_stay hconfig hstay tick
      exact ⟨hstep.1, hstep.2.current⟩

/-- The first failure is alone, the second one follows a success, the third one trips. -/
def brokenPair : List (Bool × Tick) :=
  [(true, ⟨0, 0, 0⟩), (false, ⟨1, 1, 0⟩), (true, ⟨2, 2, 0⟩), (true, ⟨3, 3, 0⟩)]

theorem tripping_policy_brokenPair :
    ∃ start step, new doubleTrigger.build 0 = some start ∧
      (trace (record doubleTrigger.build) start brokenPair)[3]? = some step ∧
        step.2 = .ok (some (.closed, .opened)) ∧ step.1.current = .opened := by
  obtain ⟨step, hstep, htrip, -⟩ := tripping_policy doubleTrigger
    (@EntersClosed.constructed _ _ _ 0 _ rfl) brokenPair (show 3 < 4 by decide) (by decide +kernel)
  exact ⟨_, step, rfl, hstep, htrip (by decide +kernel)⟩

end StateMachine

end Breaker
