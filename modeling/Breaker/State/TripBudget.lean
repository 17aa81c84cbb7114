import Breaker.State.Counters

/-!
# What a trip costs

`tripCost` is the least number of failures that trip a closed circuit: those of
a streak, or those of the smallest window on which the rate rule acts.  Over a
whole run every trip has cost that many failures of its own, a re-trip one more,
and some run pays no more than that for each of its trips.
-/

namespace Breaker

open Foundation

universe u

variable {arith : RateArithmetic} {ε : Type u}

def CircuitBreakerConfig.tripCost (config : CircuitBreakerConfig arith ε) : Nat :=
  match config.failureRateThreshold with
  | .finite q =>
      if 0 < q then min config.consecutiveFailures (arith.leastFailures q config.minimumCalls)
      else config.consecutiveFailures
  | .posInf | .negInf | .nan => config.consecutiveFailures

namespace Window

theorem popFront_failures_le (w : Window) : w.popFront.failures ≤ w.failures := by
  unfold popFront
  cases w.outcomes <;> simp

theorem record_failures_le (w : Window) (failed : Bool) :
    (w.record failed).failures ≤ w.failures + failed.toNat := by
  have hpop := w.popFront_failures_le
  unfold record
  cases failed with
  | false => by_cases hfull : w.capacity ≤ asU32 w.outcomes.length <;> simp [hfull, hpop]
  | true => by_cases hfull : w.capacity ≤ asU32 w.outcomes.length <;> simp [hfull, hpop]

end Window

namespace StateMachine

variable {config : CircuitBreakerConfig arith ε} {s : StateMachine}

/-! ## The failures that a closed circuit has seen -/

/-- The failures that count toward the next trip. -/
def evidence (s : StateMachine) : Nat :=
  if s.current = .closed then max s.failureCount s.window.failures else 0

theorem evidence_of_ne_closed (h : s.current ≠ .closed) : s.evidence = 0 := if_neg h

theorem evidence_failed_le (h : s.current = .closed) : s.failed.evidence ≤ s.evidence + 1 := by
  have hwindow := s.window.record_failures_le true
  simp only [evidence, failed, h, if_true, Bool.toNat_true] at hwindow ⊢
  omega

theorem evidence_succeeded_le (h : s.current = .closed) : s.succeeded.evidence ≤ s.evidence := by
  have hwindow := s.window.record_failures_le false
  simp only [evidence, succeeded, h, if_true, Bool.toNat_false] at hwindow ⊢
  omega

theorem tripCost_le_consecutiveFailures (config : CircuitBreakerConfig arith ε) :
    config.tripCost ≤ config.consecutiveFailures := by
  unfold CircuitBreakerConfig.tripCost
  split
  · split_ifs
    · exact min_le_left _ _
    · exact le_rfl
  all_goals exact le_rfl

theorem tripCost_le_evidence (hclosed : s.current = .closed) (h : s.shouldTrip config = true) :
    config.tripCost ≤ s.evidence := by
  rw [evidence, if_pos hclosed]
  unfold shouldTrip at h
  split_ifs at h with hstreak
  · exact ((tripCost_le_consecutiveFailures config).trans hstreak).trans (le_max_left _ _)
  · -- The window is full enough, and the threshold is a share of it.
    simp only [Bool.and_eq_true, decide_eq_true_eq] at h
    obtain ⟨⟨hpositive, hminimum⟩, hrate⟩ := h
    cases hthreshold : config.failureRateThreshold with
    | finite q =>
        rw [hthreshold, FloatValue.lt_finite, decide_eq_true_eq] at hpositive
        rw [hthreshold] at hrate
        have hcost : config.tripCost ≤ arith.leastFailures q config.minimumCalls := by
          simp only [CircuitBreakerConfig.tripCost, hthreshold, if_pos hpositive]
          exact min_le_right _ _
        have hfailures : arith.leastFailures q config.minimumCalls ≤ s.window.failures := by
          rcases Nat.eq_zero_or_pos config.minimumCalls with hnone | hsome
          · rw [hnone]
            exact RateArithmetic.leastFailures_le_filled.trans (Nat.zero_le _)
          · unfold Window.failureRate at hrate
            rw [if_neg (hsome.trans_le hminimum).ne', FloatValue.le_finite,
              decide_eq_true_eq] at hrate
            exact RateArithmetic.leastFailures_le
              (hrate.trans (arith.rate_mono le_rfl hsome hminimum))
        exact (hcost.trans hfailures).trans (le_max_right _ _)
    | posInf =>
        rw [hthreshold] at hrate
        unfold Window.failureRate at hrate
        split_ifs at hrate <;> cases hrate
    | negInf => simp [hthreshold, FloatValue.lt] at hpositive
    | nan => simp [hthreshold] at hpositive

/-! ## One operation -/

def opens (config : CircuitBreakerConfig arith ε) (prev : State) (s : StateMachine)
    (input : Op × Tick) : Nat :=
  if input.1 = .failure ∧ s.currentAt input.2.now = prev ∧
    (s.apply config input).1.current = .opened then 1 else 0

def price (config : CircuitBreakerConfig arith ε) (s : StateMachine) (input : Op × Tick) : Nat :=
  config.tripCost * opens config .closed s input + opens config .halfOpen s input

theorem price_of_ne_failure {input : Op × Tick} (h : input.1 ≠ .failure) :
    price config s input = 0 := by
  simp [price, opens, h]

theorem settleSuccess_evidence_le (config : CircuitBreakerConfig arith ε) (s : StateMachine)
    (tick : Tick) : (s.settleSuccess config tick).1.evidence ≤ s.evidence := by
  rcases s.settleSuccess_cases config tick with
    ⟨hcurrent, heq⟩ | ⟨-, heq⟩ | ⟨hcurrent, -, heq⟩ | ⟨-, -, heq⟩
  · rw [heq]
    exact evidence_succeeded_le hcurrent
  · rw [heq]
  · rw [heq]
    simp [evidence, hcurrent]
  · rw [heq]
    simp [evidence, recovered, Window.clear]

theorem maybeTransition_evidence (s : StateMachine) (now : Nat) :
    (s.maybeTransitionToHalfOpen now).evidence = s.evidence := by
  by_cases hdue : s.Due now
  · rw [maybeTransitionToHalfOpen_of_due hdue]
    simp [evidence, hdue.1]
  · rw [maybeTransitionToHalfOpen_of_not_due hdue]

theorem price_failure_le (config : CircuitBreakerConfig arith ε) (s : StateMachine) (tick : Tick) :
    (s.recordFailure config tick).1.evidence + price config s (.failure, tick) ≤
      s.evidence + 1 := by
  have hupgrade := s.countFailure.maybeTransition_evidence tick.now
  have hcounted : s.countFailure.evidence = s.evidence := rfl
  have hprev : s.currentAt tick.now =
      (s.countFailure.maybeTransitionToHalfOpen tick.now).current := by
    rw [← currentAt_eq]
    rfl
  simp only [price, opens, hprev, apply, StateMachine.recordFailure]
  rw [← hcounted, ← hupgrade]
  generalize s.countFailure.maybeTransitionToHalfOpen tick.now = t
  rcases t.settleFailure_cases config tick with
    ⟨hcurrent, heq⟩ | ⟨hcurrent, hstay, heq⟩ | ⟨hcurrent, htrip, wait, heq⟩ | ⟨hcurrent, wait, heq⟩
  · simp [heq, hcurrent]
  · have hfailed := evidence_failed_le hcurrent
    simp [heq, hcurrent, hfailed]
  · have hcost := tripCost_le_evidence (s := t.failed) hcurrent htrip
    have hfailed := evidence_failed_le hcurrent
    have htripped : (t.failed.tripped tick.stamp wait).evidence = 0 :=
      evidence_of_ne_closed (by simp)
    simp only [heq, hcurrent, tripped_current, htripped]
    simp
    omega
  · simp [heq, hcurrent, evidence]

theorem price_le (config : CircuitBreakerConfig arith ε) (s : StateMachine) (input : Op × Tick) :
    (s.apply config input).1.evidence + price config s input + s.totalFailures ≤
      s.evidence + (s.apply config input).1.totalFailures := by
  obtain ⟨op, tick⟩ := input
  have htotal := (s.apply_totals config op tick).2
  rw [htotal]
  cases op with
  | success =>
      rw [price_of_ne_failure (by simp)]
      have hle := settleSuccess_evidence_le config
        (s.countSuccess.maybeTransitionToHalfOpen tick.now) tick
      rw [maybeTransition_evidence] at hle
      exact Nat.add_le_add_right hle _
  | failure =>
      have hle := price_failure_le config s tick
      simp only [Op.outcome, List.count_singleton_self]
      change (s.recordFailure config tick).1.evidence + _ + _ ≤ _
      omega
  | forceOpen =>
      obtain ⟨wait, heq⟩ := transition_opened_cases config tick s
      rw [price_of_ne_failure (by simp)]
      change (s.transition .opened config tick).1.evidence + 0 + _ ≤ _
      rw [heq, evidence_of_ne_closed (by simp)]
      simp [Op.outcome]
  | forceClosed =>
      rw [price_of_ne_failure (by simp)]
      change s.recovered.evidence + 0 + _ ≤ _
      simp [evidence, recovered, Window.clear, Op.outcome]

/-! ## The cheapest trip -/

/-- Successes that a window needs before the rate rule acts on a cheaper share of it. -/
def padding (config : CircuitBreakerConfig arith ε) : Nat :=
  if config.tripCost = config.consecutiveFailures then 0
  else config.minimumCalls - config.tripCost

def cheapest (config : CircuitBreakerConfig arith ε) : List Bool :=
  List.replicate (padding config) false ++ List.replicate config.tripCost true

theorem tripCost_cases (hconfig : config.WellFormed) :
    (config.tripCost = config.consecutiveFailures ∧ ∀ q : ℚ,
      config.failureRateThreshold = .finite q → 0 < q →
        config.tripCost ≤ config.minimumCalls) ∨
      ∃ q : ℚ, config.failureRateThreshold = .finite q ∧ 0 < q ∧ q ≤ 1 ∧
        config.tripCost = arith.leastFailures q config.minimumCalls ∧
        config.tripCost ≤ config.minimumCalls := by
  rcases hconfig.threshold with hnan | ⟨q, hq, -, hone⟩
  · left
    refine ⟨by simp [CircuitBreakerConfig.tripCost, hnan], fun q hq => ?_⟩
    rw [hnan] at hq
    cases hq
  · by_cases hpositive : 0 < q
    · have hcost : config.tripCost = min config.consecutiveFailures
          (arith.leastFailures q config.minimumCalls) := by
        simp only [CircuitBreakerConfig.tripCost, hq, if_pos hpositive]
      have hle : config.tripCost ≤ config.minimumCalls := by
        rw [hcost]
        exact (min_le_right _ _).trans RateArithmetic.leastFailures_le_filled
      rcases min_choice config.consecutiveFailures (arith.leastFailures q config.minimumCalls) with
        hmin | hmin
      · exact .inl ⟨hcost.trans hmin, fun _ _ _ => hle⟩
      · exact .inr ⟨q, hq, hpositive, hone, hcost.trans hmin, hle⟩
    · left
      refine ⟨by simp [CircuitBreakerConfig.tripCost, hq, hpositive], fun q' hq' hpositive' => ?_⟩
      rw [hq] at hq'
      cases hq'
      exact absurd hpositive' hpositive

theorem tripCost_exact {config : CircuitBreakerConfig .exact ε} (hconfig : config.WellFormed)
    {q : ℚ} (hq : config.failureRateThreshold = .finite q) (hpositive : 0 < q) :
    config.tripCost = min config.consecutiveFailures ⌈q * config.minimumCalls⌉₊ := by
  have hone : q ≤ 1 := by
    rcases hconfig.threshold with hnan | ⟨q', hq', -, hone⟩
    · rw [hq] at hnan
      cases hnan
    · rw [hq, FloatValue.finite.injEq] at hq'
      rwa [hq']
  simp only [CircuitBreakerConfig.tripCost, hq, if_pos hpositive,
    RateArithmetic.exact_leastFailures hone hconfig.minimum_pos]

theorem tripCost_pos (hconfig : config.WellFormed) : 1 ≤ config.tripCost := by
  rcases tripCost_cases hconfig with ⟨hcost, -⟩ | ⟨q, -, hpositive, hone, hcost, -⟩
  · rw [hcost]
    exact hconfig.consecutive_pos
  · rw [hcost]
    exact RateArithmetic.leastFailures_pos hpositive hconfig.minimum_pos hone

theorem rtakeWhile_padded (pad k : Nat) :
    (List.replicate pad false ++ List.replicate k true).rtakeWhile id = List.replicate k true := by
  cases pad with
  | zero => simp [List.rtakeWhile]
  | succ pad => simp [List.rtakeWhile, List.replicate_succ']

theorem not_tripsAt_padded (hconfig : config.WellFormed) {pad k : Nat}
    (hpad : pad ≤ padding config) (hk : k < config.tripCost) :
    ¬ TripsAt config (List.replicate pad false ++ List.replicate k true) := by
  rintro ⟨-, hstreak | ⟨q, hq, hpositive, hminimum, -⟩⟩
  · have hrun := (le_length_rtakeWhile_iff id _ _).mpr hstreak
    rw [rtakeWhile_padded, List.length_replicate] at hrun
    exact absurd (hrun.trans_lt hk) (not_lt.mpr (tripCost_le_consecutiveFailures config))
  · -- The window is not full enough.
    have hle : config.tripCost ≤ config.minimumCalls := by
      rcases tripCost_cases hconfig with ⟨-, hle⟩ | ⟨-, -, -, -, -, hle⟩
      · exact hle q hq hpositive
      · exact hle
    have hshort := hminimum.trans (min_le_left _ _)
    simp only [List.length_append, List.length_replicate] at hshort
    unfold padding at hpad
    split_ifs at hpad <;> omega

theorem tripsAt_cheapest (hconfig : config.WellFormed) : TripsAt config (cheapest config) := by
  have hpos := tripCost_pos hconfig
  have hlast : (cheapest config).getLast? = some true := by
    obtain ⟨k, hk⟩ := Nat.exists_eq_add_of_le' hpos
    simp [cheapest, hk, List.replicate_succ']
  refine ⟨hlast, ?_⟩
  by_cases hstreak : config.tripCost = config.consecutiveFailures
  · left
    apply (le_length_rtakeWhile_iff id _ _).mp
    rw [cheapest, rtakeWhile_padded, List.length_replicate, hstreak]
  · right
    rcases tripCost_cases hconfig with ⟨hcost, -⟩ | ⟨q, hq, hpositive, hone, hcost, hle⟩
    · exact absurd hcost hstreak
    · have hlength : (cheapest config).length = config.minimumCalls := by
        simp only [cheapest, padding, if_neg hstreak, List.length_append, List.length_replicate]
        omega
      have hreached : q ≤ arith.rate config.tripCost config.minimumCalls := by
        rw [hcost]
        exact RateArithmetic.le_rate_leastFailures hone hconfig.minimum_pos
      refine ⟨q, hq, hpositive, ?_⟩
      rw [hlength, min_eq_left hconfig.minimum_le, rtake_of_length_le hlength.le]
      refine ⟨le_rfl, ?_⟩
      simpa [cheapest, List.countP_replicate] using hreached

theorem not_tripsAt_take (hconfig : config.WellFormed) {j : Nat}
    (hj : j < (cheapest config).length) : ¬ TripsAt config ((cheapest config).take j) := by
  rw [cheapest, List.length_append, List.length_replicate, List.length_replicate] at hj
  rw [cheapest, List.take_append, List.take_replicate, List.take_replicate, List.length_replicate]
  have hpos := tripCost_pos hconfig
  exact not_tripsAt_padded hconfig (min_le_right _ _) (by omega)

/-! ## Paying no more than the price -/

def outcomeInput (failed : Bool) : Op × Tick := (if failed then .failure else .success, ⟨0, 0, 0⟩)

theorem runFrom_outcomes (s : StateMachine) (outcomes : List Bool) :
    runFrom (StateMachine.apply config) s (outcomes.map outcomeInput) =
      runFrom (record config) s (outcomes.map fun failed => (failed, ⟨0, 0, 0⟩)) := by
  induction outcomes generalizing s with
  | nil => rfl
  | cons failed outcomes ih =>
      rw [List.map_cons, List.map_cons, runFrom_cons, runFrom_cons, ih]
      cases failed <;> rfl

theorem runFrom_total (config : CircuitBreakerConfig arith ε) (s : StateMachine)
    (inputs : List (Op × Tick)) (failed : Bool) :
    (runFrom (StateMachine.apply config) s inputs).total failed =
      s.total failed + (inputs.flatMap fun input => input.1.outcome).count failed := by
  induction inputs generalizing s with
  | nil => rfl
  | cons input inputs ih =>
      rw [runFrom_cons, ih, s.apply_total input.1 input.2 failed, List.flatMap_cons,
        List.count_append, Nat.add_assoc]

def cycle (config : CircuitBreakerConfig arith ε) : List (Op × Tick) :=
  (cheapest config).map outcomeInput ++ [(.forceClosed, ⟨0, 0, 0⟩)]

theorem cycle_failures (config : CircuitBreakerConfig arith ε) :
    ((cycle config).flatMap fun input => input.1.outcome).count true = config.tripCost := by
  have houtcome : ∀ outcomes : List Bool,
      (outcomes.map outcomeInput).flatMap (fun input => input.1.outcome) = outcomes := by
    intro outcomes
    induction outcomes with
    | nil => rfl
    | cons failed outcomes ih =>
        rw [List.map_cons, List.flatMap_cons, ih]
        cases failed <;> rfl
  rw [cycle, List.flatMap_append, houtcome]
  simp [cheapest, Op.outcome, List.count_replicate]

theorem entersClosed_cycle (hconfig : config.WellFormed) (h : EntersClosed config s) :
    EntersClosed config (runFrom (StateMachine.apply config) s (cycle config)) ∧
      1 ≤ sumAlong (StateMachine.apply config) (opens config .closed) s (cycle config) := by
  have htrips := tripsAt_cheapest hconfig
  have hcheapest := List.dropLast_append_getLast? true htrips.1
  have hbefore : Watching config (cheapest config).dropLast
      (runFrom (StateMachine.apply config) s ((cheapest config).dropLast.map outcomeInput)) := by
    have hrun := (h.watching hconfig).run hconfig
      ((cheapest config).dropLast.map fun failed => (failed, ⟨0, 0, 0⟩)) (by
        intro j hj
        rw [List.length_map, List.length_dropLast] at hj
        rw [List.map_map, List.nil_append]
        simp only [Function.comp_def, List.map_id', List.dropLast_eq_take, List.take_take]
        exact not_tripsAt_take hconfig (by omega))
    rw [runFrom_outcomes]
    simpa [Function.comp_def] using hrun
  obtain ⟨-, hopened⟩ := hbefore.recordFailure_trip hconfig
    (by rw [hcheapest]; exact htrips) ⟨0, 0, 0⟩
  rw [cycle, ← hcheapest, List.map_append, List.map_singleton, List.append_assoc,
    runFrom_append, sumAlong_append]
  generalize runFrom (StateMachine.apply config) s
    ((cheapest config).dropLast.map outcomeInput) = t at hbefore hopened
  have hreset : EntersClosed config
      ((t.apply config (.failure, ⟨0, 0, 0⟩)).1.forceClosed config ⟨0, 0, 0⟩).1 :=
    .reset (hbefore.reachable.apply (.failure, ⟨0, 0, 0⟩))
  refine ⟨hreset, le_add_left ?_⟩
  have hopens : opens config .closed t (outcomeInput true) = 1 :=
    if_pos ⟨rfl, currentAt_closed_iff.mpr hbefore.current, hopened⟩
  rw [List.singleton_append, sumAlong, hopens]
  exact Nat.le_add_right _ _

theorem le_trips_cycles (hconfig : config.WellFormed) (n : Nat) (h : EntersClosed config s) :
    n ≤ sumAlong (StateMachine.apply config) (opens config .closed) s
      (List.replicate n (cycle config)).flatten := by
  induction n generalizing s with
  | zero => exact Nat.zero_le _
  | succ n ih =>
      obtain ⟨hnext, htrip⟩ := entersClosed_cycle hconfig h
      have hrest := ih hnext
      rw [List.replicate_succ, List.flatten_cons, sumAlong_append]
      omega

theorem cycles_failures (config : CircuitBreakerConfig arith ε) (n : Nat) :
    (((List.replicate n (cycle config)).flatten).flatMap fun input => input.1.outcome).count true =
      config.tripCost * n := by
  induction n with
  | zero => rfl
  | succ n ih =>
      rw [List.replicate_succ, List.flatten_cons, List.flatMap_append, List.count_append, ih,
        cycle_failures, Nat.mul_succ, Nat.add_comm]

/-! ## The budget of a run -/

theorem trips_paid {draw : Draw} (hnew : new config draw = some s) (inputs : List (Op × Tick)) :
    config.tripCost * sumAlong (StateMachine.apply config) (opens config .closed) s inputs +
        sumAlong (StateMachine.apply config) (opens config .halfOpen) s inputs +
        (runFrom (StateMachine.apply config) s inputs).evidence ≤
      (runFrom (StateMachine.apply config) s inputs).totalFailures := by
  have hpaid := sumAlong_le (price_le config) s inputs
  have hstart : s.evidence = 0 ∧ s.totalFailures = 0 := by
    obtain ⟨wait, -, rfl⟩ := new_eq hnew
    exact ⟨rfl, rfl⟩
  have hprice : sumAlong (StateMachine.apply config) (price config) s inputs =
      config.tripCost * sumAlong (StateMachine.apply config) (opens config .closed) s inputs +
        sumAlong (StateMachine.apply config) (opens config .halfOpen) s inputs :=
    sumAlong_linear _ _ _ s inputs
  rw [hstart.1, hstart.2] at hpaid
  omega

/--
The budget of trips.  In every run of the machine each threshold trip costs
`tripCost` failures that pay for no other transition, and each re-trip one; and
no less will do, since any number of trips can be had for exactly that price.
-/
theorem trip_budget (b : CircuitBreakerConfigBuilder arith ε) {draw : Draw}
    (hnew : new b.build draw = some s) :
    (∀ inputs, b.build.tripCost *
          sumAlong (StateMachine.apply b.build) (opens b.build .closed) s inputs +
          sumAlong (StateMachine.apply b.build) (opens b.build .halfOpen) s inputs ≤
        (runFrom (StateMachine.apply b.build) s inputs).totalFailures) ∧
      ∀ n, ∃ inputs,
        sumAlong (StateMachine.apply b.build) (opens b.build .closed) s inputs = n ∧
        (runFrom (StateMachine.apply b.build) s inputs).totalFailures = b.build.tripCost * n := by
  have hconfig := build_wellFormed b
  refine ⟨fun inputs => (Nat.le_add_right _ _).trans (trips_paid hnew inputs), fun n => ?_⟩
  have hfailures : (runFrom (StateMachine.apply b.build) s
      (List.replicate n (cycle b.build)).flatten).totalFailures = b.build.tripCost * n := by
    obtain ⟨wait, -, rfl⟩ := new_eq hnew
    have htotal := runFrom_total b.build (fresh b.build wait)
      (List.replicate n (cycle b.build)).flatten true
    rw [cycles_failures] at htotal
    exact htotal.trans (Nat.zero_add _)
  refine ⟨_, le_antisymm ?_ (le_trips_cycles hconfig n (.constructed hnew)), hfailures⟩
  have hpaid := trips_paid hnew (List.replicate n (cycle b.build)).flatten
  rw [hfailures] at hpaid
  exact Nat.le_of_mul_le_mul_left (by omega) (tripCost_pos hconfig)

theorem trip_budget_hairTrigger : ∃ inputs,
    sumAlong (StateMachine.apply hairTrigger.build) (opens hairTrigger.build .closed)
      (fresh hairTrigger.build (.fromNanos 1)) inputs = 2 ∧
    (runFrom (StateMachine.apply hairTrigger.build) (fresh hairTrigger.build (.fromNanos 1))
      inputs).totalFailures = hairTrigger.build.tripCost * 2 := by
  obtain ⟨-, hattained⟩ := @trip_budget _ _ _ hairTrigger 0 rfl
  exact hattained 2

end StateMachine

end Breaker
