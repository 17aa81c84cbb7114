import Breaker.State.Counters

/-!
# The trip check that a success skips

The code evaluates `shouldTrip` after failures only, as a success cannot raise
the failure rate.  It can let the window reach `minimumCalls`, though: the plain
policy, which also checks after a success, may trip there.  Once a failure of
the `Closed` episode has been evaluated against a window that holds
`minimumCalls` outcomes the two agree until `Closed` is entered again.
-/

namespace Breaker

open Foundation

universe u

variable {arith : RateArithmetic} {ε : Type u}

namespace StateMachine

variable (config : CircuitBreakerConfig arith ε)

/-! ## The plain policy -/

/-- `settleSuccess` with the trip check after the success. -/
def settleSuccessChecked (s : StateMachine) (tick : Tick) :
    StateMachine × Except Panic (Option (State × State)) :=
  match s.current with
  | .closed =>
      if s.succeeded.shouldTrip config then
        s.succeeded.transitionFrom .closed .opened config tick
      else (s.succeeded, .ok none)
  | .halfOpen | .opened => s.settleSuccess config tick

def applyChecked (s : StateMachine) (input : Op × Tick) :
    StateMachine × Except Panic (Option (State × State)) :=
  match input.1 with
  | .success =>
      (s.countSuccess.maybeTransitionToHalfOpen input.2.now).settleSuccessChecked config input.2
  | .failure | .forceOpen | .forceClosed => s.apply config input

/-! ## Evaluated failures -/

/-- The operation records a failure in `Closed`, into a window of `minimumCalls` outcomes. -/
def Evaluates (s : StateMachine) (op : Op) : Prop :=
  op = .failure ∧ s.current = .closed ∧ config.minimumCalls ≤ (s.window.record true).filled

instance (s : StateMachine) (op : Op) : Decidable (s.Evaluates config op) :=
  inferInstanceAs (Decidable (_ ∧ _))

/-- The machine with a flag: a failure has been evaluated since `Closed` was last entered. -/
def judge (x : StateMachine × Bool) (input : Op × Tick) :
    (StateMachine × Bool) × Except Panic (Option (State × State)) :=
  let step := x.1.apply config input
  ((step.1, !entersClosed step.2 && (x.2 || decide (x.1.Evaluates config input.1))), step.2)

def judged (start : StateMachine) (inputs : List (Op × Tick)) : Bool :=
  (runFrom (judge config) (start, false) inputs).2

structure Judges (x : StateMachine × Bool) : Prop where
  shape : x.1.Shape config
  judged : x.1.current = .closed → x.2 = true →
    config.minimumCalls ≤ x.1.window.filled ∧ x.1.shouldTrip config = false
  /-- With one call as the minimum every failure is evaluated. -/
  unjudged : x.1.current = .closed → x.2 = false → config.minimumCalls = 1 →
    x.1.window.failures = 0

variable {config} {s : StateMachine} {x : StateMachine × Bool} {history : List Bool}

/-! ## The check after a success -/

theorem shouldTrip_eq_false_iff (hconfig : config.WellFormed) (hwindow : s.window.Tracks history)
    (hfilled : config.minimumCalls ≤ s.window.filled) :
    s.shouldTrip config = false ↔ s.failureCount < config.consecutiveFailures ∧
      ∀ q, config.failureRateThreshold = .finite q → 0 < q →
        arith.rate s.window.failures s.window.filled < q := by
  have hrate := s.window.failureRate_eq arith hwindow.failures_le_filled
  have hstreak : config.consecutiveFailures ≤ s.failureCount ∨
      s.failureCount < config.consecutiveFailures := le_or_gt _ _
  rcases hstreak with hle | hlt
  · simp [shouldTrip, hle]
  · rcases hconfig.threshold with hnan | ⟨q, hq, -, -⟩
    · simp [shouldTrip, not_le.mpr hlt, hlt, hnan]
    · simp only [shouldTrip, not_le.mpr hlt, ↓reduceIte, hq, hfilled, hrate, FloatValue.lt_finite,
        FloatValue.le_finite, decide_true, Bool.and_true, hlt, true_and, FloatValue.finite.injEq,
        forall_eq']
      by_cases hqpos : 0 < q <;> simp [hqpos]

theorem succeeded_shouldTrip (hconfig : config.WellFormed) (hwindow : s.window.Tracks history)
    (hfilled : config.minimumCalls ≤ s.window.filled) (h : s.shouldTrip config = false) :
    config.minimumCalls ≤ s.succeeded.window.filled ∧
      s.succeeded.shouldTrip config = false := by
  have hgrows : config.minimumCalls ≤ s.succeeded.window.filled :=
    hfilled.trans (hwindow.filled_record false).1
  refine ⟨hgrows, ?_⟩
  rw [shouldTrip_eq_false_iff hconfig (hwindow.record false) hgrows]
  obtain ⟨-, hrate⟩ := (shouldTrip_eq_false_iff hconfig hwindow hfilled).mp h
  exact ⟨hconfig.consecutive_pos,
    fun q hq hqpos => (hwindow.rate_record_success arith).trans_lt (hrate q hq hqpos)⟩

theorem succeeded_shouldTrip_of_no_failures (hconfig : config.WellFormed)
    (hwindow : s.window.Tracks history) (h : s.window.failures = 0) :
    s.succeeded.shouldTrip config = false := by
  have hnone : s.succeeded.window.failures = 0 :=
    Nat.le_zero.mp (h ▸ hwindow.failures_record_success)
  have hzero : s.succeeded.window.failureRate arith = .finite 0 := by
    have hrate := (s.window.record false).failureRate_eq arith
      (hwindow.record false).failures_le_filled
    rw [StateMachine.succeeded] at hnone ⊢
    rw [hrate, hnone, arith.rate_zero]
  have hstreak : ¬ config.consecutiveFailures ≤ s.succeeded.failureCount :=
    not_le.mpr hconfig.consecutive_pos
  rw [shouldTrip, if_neg hstreak, hzero]
  rcases hconfig.threshold with hnan | ⟨q, hq, -, -⟩
  · simp [hnan]
  · by_cases hqpos : 0 < q <;> simp [hq, hqpos]

/-! ## The flag along a run -/

theorem judges_new (hconfig : config.WellFormed) {draw : Draw} (h : new config draw = some s) :
    Judges config (s, false) := by
  have hshape := shape_new hconfig h
  obtain ⟨wait, -, rfl⟩ := new_eq h
  exact ⟨hshape, fun _ hflag => (by cases hflag), fun _ _ _ => rfl⟩

theorem Judges.of_not_closed (hshape : x.1.Shape config) (h : x.1.current ≠ .closed) :
    Judges config x :=
  ⟨hshape, fun hclosed => absurd hclosed h, fun hclosed => absurd hclosed h⟩

theorem Judges.of_cleared (hshape : x.1.Shape config) (hflag : x.2 = false)
    (hempty : x.1.window.failures = 0) : Judges config x :=
  ⟨hshape, fun _ htrue => by simp [hflag] at htrue, fun _ _ _ => hempty⟩

theorem Judges.congr {t : StateMachine} {flag : Bool} (h : Judges config (s, flag))
    (hshape : t.Shape config) (hcurrent : t.current = s.current)
    (hcount : t.failureCount = s.failureCount) (hwindow : t.window = s.window) :
    Judges config (t, flag) := by
  have htrip : t.shouldTrip config = s.shouldTrip config := by
    rw [shouldTrip, shouldTrip, hcount, hwindow]
  refine ⟨hshape, fun hclosed hflag => ?_, fun hclosed hflag hminimum => ?_⟩
  · change config.minimumCalls ≤ t.window.filled ∧ t.shouldTrip config = false
    rw [hwindow, htrip]
    exact h.judged (hcurrent ▸ hclosed) hflag
  · change t.window.failures = 0
    rw [hwindow]
    exact h.unjudged (hcurrent ▸ hclosed) hflag hminimum

theorem Judges.maybeTransitionToHalfOpen (hconfig : config.WellFormed) {flag : Bool}
    (h : Judges config (s, flag)) (now : Nat) :
    Judges config (s.maybeTransitionToHalfOpen now, flag) := by
  have hshape := h.shape.maybeTransitionToHalfOpen hconfig now
  by_cases hdue : s.Due now
  · refine .of_not_closed hshape ?_
    change (s.maybeTransitionToHalfOpen now).current ≠ .closed
    rw [maybeTransitionToHalfOpen_of_due hdue]
    simp
  · rw [maybeTransitionToHalfOpen_of_not_due hdue]
    exact h

theorem Judges.succeeded (hconfig : config.WellFormed) {flag : Bool}
    (h : Judges config (s, flag)) (hshape : s.succeeded.Shape config)
    (hclosed : s.current = .closed) : Judges config (s.succeeded, flag) := by
  obtain ⟨history, hwindow⟩ := h.shape.window
  refine ⟨hshape, fun _ hflag => ?_, fun _ hflag hminimum => ?_⟩
  · obtain ⟨hfilled, hstay⟩ := h.judged hclosed hflag
    exact succeeded_shouldTrip hconfig hwindow hfilled hstay
  · have hnone := h.unjudged hclosed hflag hminimum
    exact Nat.le_zero.mp (hwindow.failures_record_success.trans hnone.le)

theorem Judges.failed {flag : Bool} (h : Judges config (s, flag))
    (hshape : s.failed.Shape config) (hclosed : s.current = .closed)
    (hstay : s.failed.shouldTrip config = false) :
    Judges config (s.failed, flag || decide (s.Evaluates config .failure)) := by
  obtain ⟨history, hwindow⟩ := h.shape.window
  obtain ⟨hgrows, hpos⟩ := hwindow.filled_record true
  refine ⟨hshape, fun _ hflag => ⟨?_, hstay⟩, fun _ hflag hminimum => ?_⟩
  · rcases Bool.or_eq_true_iff.mp hflag with hold | hnew
    · exact (h.judged hclosed hold).1.trans hgrows
    · exact (of_decide_eq_true hnew).2.2
  · have hevaluates : s.Evaluates config .failure := ⟨rfl, hclosed, hminimum.trans_le hpos⟩
    simp [hevaluates] at hflag

theorem Judges.success (hconfig : config.WellFormed) (h : Judges config x) (tick : Tick) :
    Judges config (judge config x (.success, tick)).1 := by
  have hcounted : Judges config (x.1.countSuccess, x.2) :=
    h.congr h.shape.countSuccess rfl rfl rfl
  have hready := hcounted.maybeTransitionToHalfOpen hconfig tick.now
  have hshape := hready.shape.settleSuccess hconfig tick
  have hflag : x.1.Evaluates config .success ↔ False := by simp [Evaluates]
  simp only [judge, StateMachine.apply, StateMachine.recordSuccess, hflag, decide_false,
    Bool.or_false]
  generalize x.1.countSuccess.maybeTransitionToHalfOpen tick.now = t at hready hshape ⊢
  rcases t.settleSuccess_cases config tick with
    ⟨hclosed, heq⟩ | ⟨hopened, heq⟩ | ⟨hhalf, -, heq⟩ | ⟨-, -, heq⟩
  all_goals rw [heq] at hshape ⊢
  · simpa [entersClosed] using hready.succeeded hconfig hshape hclosed
  · exact .of_not_closed hshape (by simp [hopened])
  · exact .of_not_closed hshape (by simp [hhalf])
  · exact .of_cleared hshape (by simp [entersClosed]) rfl

theorem Judges.failure (hconfig : config.WellFormed) (h : Judges config x) (tick : Tick) :
    Judges config (judge config x (.failure, tick)).1 := by
  have hcounted : Judges config (x.1.countFailure, x.2) :=
    h.congr h.shape.countFailure rfl rfl rfl
  have hready := hcounted.maybeTransitionToHalfOpen hconfig tick.now
  have hshape := hready.shape.settleFailure tick
  have hflag : (x.1.countFailure.maybeTransitionToHalfOpen tick.now).current = .closed →
      ((x.1.countFailure.maybeTransitionToHalfOpen tick.now).Evaluates config .failure ↔
        x.1.Evaluates config .failure) := by
    intro hclosed
    by_cases hdue : x.1.countFailure.Due tick.now
    · simp [maybeTransitionToHalfOpen_of_due hdue] at hclosed
    · rw [maybeTransitionToHalfOpen_of_not_due hdue]
      exact Iff.rfl
  simp only [judge, StateMachine.apply, StateMachine.recordFailure]
  generalize x.1.countFailure.maybeTransitionToHalfOpen tick.now = t at hready hshape hflag ⊢
  rcases t.settleFailure_cases config tick with
    ⟨hopened, heq⟩ | ⟨hclosed, hstay, heq⟩ | ⟨-, -, wait, heq⟩ | ⟨-, wait, heq⟩
  all_goals rw [heq] at hshape ⊢
  · exact .of_not_closed hshape (by simp [hopened])
  · have hfailed := hready.failed hshape hclosed hstay
    simpa [entersClosed, hflag hclosed] using hfailed
  · exact .of_not_closed hshape (by simp)
  · exact .of_not_closed hshape (by simp)

theorem Judges.judge (hconfig : config.WellFormed) (h : Judges config x) (input : Op × Tick) :
    Judges config (judge config x input).1 := by
  obtain ⟨op, tick⟩ := input
  cases op with
  | success => exact h.success hconfig tick
  | failure => exact h.failure hconfig tick
  | forceOpen =>
      refine .of_not_closed (h.shape.forceOpen tick) ?_
      obtain ⟨wait, heq⟩ := transition_opened_cases config tick x.1
      change (x.1.transition .opened config tick).1.current ≠ .closed
      rw [heq]
      simp
  | forceClosed => exact .of_cleared (h.shape.forceClosed hconfig tick) rfl rfl

theorem runFrom_judge_fst (start : StateMachine) (inputs : List (Op × Tick)) :
    (runFrom (StateMachine.judge config) (start, false) inputs).1 =
      runFrom (StateMachine.apply config) start inputs :=
  runFrom_fst (fun _ _ => rfl) (start, false) inputs

theorem judges_run (hconfig : config.WellFormed) {draw : Draw} {start : StateMachine}
    (hnew : new config draw = some start) (inputs : List (Op × Tick)) :
    Judges config (runFrom (apply config) start inputs, judged config start inputs) := by
  have hrun : Judges config (runFrom (judge config) (start, false) inputs) :=
    runFrom_invariant (judges_new hconfig hnew) fun _ input _ h => h.judge hconfig input
  rw [← runFrom_judge_fst start inputs]
  exact hrun

/-! ## The two policies -/

theorem settleSuccessChecked_eq {tick : Tick}
    (h : s.current = .closed → s.succeeded.shouldTrip config = false) :
    s.settleSuccessChecked config tick = s.settleSuccess config tick := by
  cases hcurrent : s.current with
  | closed => simp [settleSuccessChecked, hcurrent, h hcurrent, settleSuccess_closed hcurrent]
  | halfOpen => simp [settleSuccessChecked, hcurrent]
  | opened => simp [settleSuccessChecked, hcurrent]

theorem Judges.applyChecked (hconfig : config.WellFormed) (h : Judges config x)
    {input : Op × Tick} (hne : x.1.applyChecked config input ≠ x.1.apply config input) :
    input.1 = .success ∧ x.1.current = .closed ∧ x.2 = false ∧ config.minimumCalls ≠ 1 := by
  obtain ⟨op, tick⟩ := input
  cases op with
  | failure => exact absurd rfl hne
  | forceOpen => exact absurd rfl hne
  | forceClosed => exact absurd rfl hne
  | success =>
      have htrips : ¬ ((x.1.countSuccess.maybeTransitionToHalfOpen tick.now).current = .closed →
          (x.1.countSuccess.maybeTransitionToHalfOpen tick.now).succeeded.shouldTrip config =
            false) :=
        fun hsafe => hne (settleSuccessChecked_eq hsafe)
      rw [Classical.not_imp] at htrips
      obtain ⟨hclosed, htrips⟩ := htrips
      have hdue : ¬ x.1.countSuccess.Due tick.now := fun hdue => by
        simp [maybeTransitionToHalfOpen_of_due hdue] at hclosed
      rw [maybeTransitionToHalfOpen_of_not_due hdue] at hclosed htrips
      obtain ⟨history, hwindow⟩ := h.shape.window
      have hcheck : x.1.succeeded.shouldTrip config ≠ false := htrips
      refine ⟨rfl, hclosed, Bool.eq_false_iff.mpr fun hflag => ?_, fun hminimum => ?_⟩
      · obtain ⟨hfilled, hstay⟩ := h.judged hclosed hflag
        exact hcheck (succeeded_shouldTrip hconfig hwindow hfilled hstay).2
      · cases hflag : x.2 with
        | true =>
            obtain ⟨hfilled, hstay⟩ := h.judged hclosed hflag
            exact hcheck (succeeded_shouldTrip hconfig hwindow hfilled hstay).2
        | false =>
            have hnone := h.unjudged hclosed hflag hminimum
            exact hcheck (succeeded_shouldTrip_of_no_failures hconfig hwindow hnone)

variable (config) in
/-- What holds of the skipped check in every run that starts in a new machine. -/
structure HarmlessSkip (start : StateMachine) : Prop where
  /-- A success in `Closed` never raises the failure rate, in whatever arithmetic. -/
  rate : ∀ inputs tick s s', runFrom (apply config) start inputs = s → s.current = .closed →
    (s.apply config (.success, tick)).1 = s' → ∀ rates : RateArithmetic,
    rates.rate s'.window.failures s'.window.filled ≤ rates.rate s.window.failures s.window.filled
  /-- Once a failure has been evaluated, `Closed` means that nothing trips. -/
  evaluated : ∀ inputs s, runFrom (apply config) start inputs = s → s.current = .closed →
    judged config start inputs = true →
    s.shouldTrip config = false ∧ s.failureCount < config.consecutiveFailures ∧
      config.minimumCalls ≤ s.window.filled ∧
      ∀ q, config.failureRateThreshold = .finite q → 0 < q →
        arith.rate s.window.failures s.window.filled < q
  minimumOne : config.minimumCalls = 1 → ∀ inputs,
    trace (applyChecked config) start inputs = trace (apply config) start inputs
  /-- The first difference is a success in `Closed` before any evaluated failure. -/
  difference : ∀ inputs, trace (applyChecked config) start inputs ≠
      trace (apply config) start inputs → ∃ before tick after,
    inputs = before ++ (.success, tick) :: after ∧
      trace (applyChecked config) start before = trace (apply config) start before ∧
      (runFrom (apply config) start before).current = .closed ∧
      judged config start before = false

/-- The trip check that a success skips is harmless once a failure has been evaluated. -/
theorem success_check_skipped (b : CircuitBreakerConfigBuilder arith ε) {draw : Draw}
    {start : StateMachine} (hnew : new b.build draw = some start) :
    HarmlessSkip b.build start := by
  have hconfig := build_wellFormed b
  have hrun := judges_run hconfig hnew
  have hdifference : ∀ inputs, trace (StateMachine.applyChecked b.build) start inputs ≠
      trace (StateMachine.apply b.build) start inputs → ∃ before tick after,
      inputs = before ++ (.success, tick) :: after ∧
        trace (StateMachine.applyChecked b.build) start before =
          trace (StateMachine.apply b.build) start before ∧
        (runFrom (StateMachine.apply b.build) start before).current = .closed ∧
        judged b.build start before = false ∧ b.build.minimumCalls ≠ 1 := by
    intro inputs hne
    obtain ⟨before, ⟨op, tick⟩, after, rfl, hsame, hstep⟩ := exists_first_difference hne
    obtain ⟨rfl, hclosed, hflag, hminimum⟩ := (hrun before).applyChecked hconfig hstep
    exact ⟨before, tick, after, rfl, hsame, hclosed, hflag, hminimum⟩
  refine ⟨?_, ?_, fun hminimum inputs => ?_, fun inputs hne => ?_⟩
  · rintro inputs tick s s' rfl hclosed rfl
    obtain ⟨history, hwindow⟩ := (hrun inputs).shape.window
    have hstep : StateMachine.recordSuccess _ b.build tick = _ := recordSuccess_closed hclosed tick
    simp only [StateMachine.apply, hstep]
    exact hwindow.rate_record_success
  · rintro inputs s rfl hclosed hflag
    obtain ⟨history, hwindow⟩ := (hrun inputs).shape.window
    obtain ⟨hfilled, hstay⟩ := (hrun inputs).judged hclosed hflag
    obtain ⟨hstreak, hrate⟩ := (shouldTrip_eq_false_iff hconfig hwindow hfilled).mp hstay
    exact ⟨hstay, hstreak, hfilled, hrate⟩
  · by_contra hne
    obtain ⟨before, tick, after, -, -, -, -, hother⟩ := hdifference inputs hne
    exact hother hminimum
  · obtain ⟨before, tick, after, heq, hsame, hclosed, hflag, -⟩ := hdifference inputs hne
    exact ⟨before, tick, after, heq, hsame, hclosed, hflag⟩

theorem success_check_skipped_hairTrigger :
    ∃ start, new hairTrigger.build 0 = some start ∧ HarmlessSkip hairTrigger.build start :=
  ⟨_, rfl, @success_check_skipped _ _ hairTrigger 0 _ rfl⟩

end StateMachine

end Breaker
