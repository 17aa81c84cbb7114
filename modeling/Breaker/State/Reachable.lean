import Breaker.Foundation.Runs
import Breaker.State.Machine

/-!
# Reachable machines

`StateMachine.Reachable` is every machine that some sequence of operations
makes of a newly constructed one, at any clock readings and with any draws; an
operation that unwinds leaves a reachable machine too.  `Shape` relates the
stored state to the fields that belong to it.
-/

namespace Breaker

open Foundation

universe u

variable {arith : RateArithmetic} {ε : Type u}

inductive Op where
  | success
  | failure
  | forceOpen
  | forceClosed
  deriving DecidableEq, Repr

namespace StateMachine

variable (config : CircuitBreakerConfig arith ε)

/-- The pair that is announced after a forced transition. -/
def forced (prev next : State) (step : StateMachine × Except Panic Unit) :
    StateMachine × Except Panic (Option (State × State)) :=
  (step.1, step.2.map fun _ => some (prev, next))

/--
One operation, with the pair that it announces.  A forced transition announces
the state that it was asked to replace, read before the transition.
-/
def apply (s : StateMachine) (input : Op × Tick) :
    StateMachine × Except Panic (Option (State × State)) :=
  match input.1 with
  | .success => s.recordSuccess config input.2
  | .failure => s.recordFailure config input.2
  | .forceOpen => forced (s.currentAt input.2.now) .opened (s.forceOpen config input.2)
  | .forceClosed => forced (s.currentAt input.2.now) .closed (s.forceClosed config input.2)

def Reachable (s : StateMachine) : Prop :=
  ∃ draw start, new config draw = some start ∧
    Foundation.Reachable (fun s input s' => (s.apply config input).1 = s') start s

def record (s : StateMachine) (input : Bool × Tick) :
    StateMachine × Except Panic (Option (State × State)) :=
  if input.1 then s.recordFailure config input.2 else s.recordSuccess config input.2

variable {config} {s : StateMachine}

theorem Reachable.apply (h : Reachable config s) (input : Op × Tick) :
    Reachable config (s.apply config input).1 := by
  obtain ⟨draw, start, hnew, hrun⟩ := h
  exact ⟨draw, start, hnew, hrun.snoc (a := input) rfl⟩

theorem Reachable.recordSuccess (h : Reachable config s) (tick : Tick) :
    Reachable config (s.recordSuccess config tick).1 :=
  h.apply (.success, tick)

theorem Reachable.recordFailure (h : Reachable config s) (tick : Tick) :
    Reachable config (s.recordFailure config tick).1 :=
  h.apply (.failure, tick)

/-! ## The fields that belong to each state -/

variable (config)

structure Shape (s : StateMachine) : Prop where
  since_iff : s.openSince.isSome ↔ s.current = .opened
  attempts_lt : s.openAttempts < 2 ^ 32
  capacity : s.window.capacity = config.slidingWindowSize
  window : ∃ history, s.window.Tracks history
  closed : s.current = .closed →
    s.openAttempts = 0 ∧ s.successCount = 0 ∧ s.failureCount < config.consecutiveFailures
  opened : s.current = .opened →
    1 ≤ s.openAttempts ∧ s.successCount = 0 ∧ s.failureCount = 0
  halfOpen : s.current = .halfOpen →
    1 ≤ s.openAttempts ∧ s.successCount < config.successThreshold ∧ s.failureCount = 0

variable {config}

theorem new_eq {draw : Draw} {start : StateMachine} (h : new config draw = some start) :
    ∃ wait, config.backoff.initialWait binary64 draw = some wait ∧ fresh config wait = start :=
  Option.map_eq_some_iff.mp h

theorem shape_new (hconfig : config.WellFormed) {draw : Draw} {start : StateMachine}
    (h : new config draw = some start) : start.Shape config := by
  obtain ⟨wait, -, rfl⟩ := new_eq h
  exact {
    since_iff := by simp [fresh]
    attempts_lt := by simp [fresh]
    capacity := max_eq_left hconfig.window_pos
    window := ⟨[], Window.tracks_new hconfig.window_lt⟩
    closed := fun _ => ⟨rfl, rfl, hconfig.consecutive_pos⟩
    opened := by simp [fresh]
    halfOpen := by simp [fresh] }

theorem saturatingSucc_lt (n : Nat) : saturatingSucc n < 2 ^ 32 := by
  unfold saturatingSucc
  omega

theorem one_le_saturatingSucc (n : Nat) : 1 ≤ saturatingSucc n := by
  unfold saturatingSucc
  omega

theorem Shape.countSuccess (h : s.Shape config) : s.countSuccess.Shape config :=
  ⟨h.since_iff, h.attempts_lt, h.capacity, h.window, h.closed, h.opened, h.halfOpen⟩

theorem Shape.countFailure (h : s.Shape config) : s.countFailure.Shape config :=
  ⟨h.since_iff, h.attempts_lt, h.capacity, h.window, h.closed, h.opened, h.halfOpen⟩

theorem Shape.upgraded (hconfig : config.WellFormed) (h : s.Shape config)
    (hopen : s.current = .opened) : s.upgraded.Shape config where
  since_iff := by simp [StateMachine.upgraded]
  attempts_lt := h.attempts_lt
  capacity := h.capacity
  window := h.window
  closed := by simp
  opened := by simp
  halfOpen _ := ⟨(h.opened hopen).1, hconfig.success_pos, rfl⟩

theorem Shape.maybeTransitionToHalfOpen (hconfig : config.WellFormed) (h : s.Shape config)
    (now : Nat) : (s.maybeTransitionToHalfOpen now).Shape config := by
  by_cases hdue : s.Due now
  · rw [maybeTransitionToHalfOpen_of_due hdue]
    exact h.upgraded hconfig hdue.1
  · rwa [maybeTransitionToHalfOpen_of_not_due hdue]

theorem Shape.tripped (h : s.Shape config) (stamp : Nat) (wait : Duration) :
    (s.tripped stamp wait).Shape config where
  since_iff := by simp [StateMachine.tripped]
  attempts_lt := saturatingSucc_lt _
  capacity := h.capacity
  window := h.window
  closed := by simp
  opened _ := ⟨one_le_saturatingSucc _, rfl, rfl⟩
  halfOpen := by simp

theorem Shape.recovered (hconfig : config.WellFormed) (h : s.Shape config) :
    s.recovered.Shape config := by
  obtain ⟨history, hhistory⟩ := h.window
  exact {
    since_iff := by simp [StateMachine.recovered]
    attempts_lt := by simp [StateMachine.recovered]
    capacity := h.capacity
    window := ⟨[], hhistory.clear⟩
    closed := fun _ => ⟨rfl, rfl, hconfig.consecutive_pos⟩
    opened := by simp
    halfOpen := by simp }

theorem Shape.windowed (h : s.Shape config) (hcurrent : s.current = .closed) (failed : Bool)
    {streak : Nat} (hstreak : streak < config.consecutiveFailures) :
    Shape config { s with window := s.window.record failed, failureCount := streak } := by
  obtain ⟨history, hhistory⟩ := h.window
  have hclosed := h.closed hcurrent
  exact {
    since_iff := h.since_iff
    attempts_lt := h.attempts_lt
    capacity := (Window.record_capacity _ _).trans h.capacity
    window := ⟨_, hhistory.record failed⟩
    closed := fun _ => ⟨hclosed.1, hclosed.2.1, hstreak⟩
    opened := by simp [hcurrent]
    halfOpen := by simp [hcurrent] }

theorem Shape.settleSuccess (hconfig : config.WellFormed) (h : s.Shape config) (tick : Tick) :
    (s.settleSuccess config tick).1.Shape config := by
  rcases s.settleSuccess_cases config tick with
    ⟨hcurrent, heq⟩ | ⟨-, heq⟩ | ⟨hcurrent, hlt, heq⟩ | ⟨-, -, heq⟩
  · rw [heq]
    exact h.windowed hcurrent false hconfig.consecutive_pos
  · rw [heq]
    exact h
  · rw [heq]
    have hhalf := h.halfOpen hcurrent
    exact {
      since_iff := h.since_iff
      attempts_lt := h.attempts_lt
      capacity := h.capacity
      window := h.window
      closed := by simp [hcurrent]
      opened := by simp [hcurrent]
      halfOpen := fun _ => ⟨hhalf.1, hlt, hhalf.2.2⟩ }
  · rw [heq]
    exact h.recovered hconfig

theorem failed_streak_lt (hstay : s.failed.shouldTrip config = false) :
    s.failureCount + 1 < config.consecutiveFailures := by
  by_contra hge
  have : config.consecutiveFailures ≤ s.failed.failureCount := not_lt.mp hge
  simp [shouldTrip, this] at hstay

theorem Shape.failed_tripped (h : s.Shape config) (stamp : Nat) (wait : Duration) :
    (s.failed.tripped stamp wait).Shape config := by
  obtain ⟨history, hhistory⟩ := h.window
  exact {
    h.tripped stamp wait with
    capacity := (Window.record_capacity _ _).trans h.capacity
    window := ⟨_, hhistory.record true⟩ }

theorem Shape.settleFailure (h : s.Shape config) (tick : Tick) :
    (s.settleFailure config tick).1.Shape config := by
  rcases s.settleFailure_cases config tick with
    ⟨-, heq⟩ | ⟨hcurrent, hstay, heq⟩ | ⟨-, -, wait, heq⟩ | ⟨-, wait, heq⟩
  · rw [heq]
    exact h
  · rw [heq]
    exact h.windowed hcurrent true (failed_streak_lt hstay)
  · rw [heq]
    exact h.failed_tripped tick.stamp wait
  · rw [heq]
    exact h.tripped tick.stamp wait

theorem Shape.recordSuccess (hconfig : config.WellFormed) (h : s.Shape config) (tick : Tick) :
    (s.recordSuccess config tick).1.Shape config :=
  (h.countSuccess.maybeTransitionToHalfOpen hconfig tick.now).settleSuccess hconfig tick

theorem Shape.recordFailure (hconfig : config.WellFormed) (h : s.Shape config) (tick : Tick) :
    (s.recordFailure config tick).1.Shape config :=
  (h.countFailure.maybeTransitionToHalfOpen hconfig tick.now).settleFailure tick

theorem Shape.forceOpen (h : s.Shape config) (tick : Tick) :
    (s.forceOpen config tick).1.Shape config := by
  obtain ⟨wait, heq⟩ := transition_opened_cases config tick s
  rw [StateMachine.forceOpen, heq]
  exact h.tripped tick.stamp wait

theorem Shape.forceClosed (hconfig : config.WellFormed) (h : s.Shape config) (tick : Tick) :
    (s.forceClosed config tick).1.Shape config := by
  rw [StateMachine.forceClosed, transition_closed]
  exact h.recovered hconfig

theorem Shape.apply (hconfig : config.WellFormed) (h : s.Shape config) (input : Op × Tick) :
    (s.apply config input).1.Shape config := by
  obtain ⟨op, tick⟩ := input
  cases op with
  | success => exact h.recordSuccess hconfig tick
  | failure => exact h.recordFailure hconfig tick
  | forceOpen => exact h.forceOpen tick
  | forceClosed => exact h.forceClosed hconfig tick

theorem Reachable.shape (hconfig : config.WellFormed) (h : Reachable config s) :
    s.Shape config := by
  obtain ⟨draw, start, hnew, hrun⟩ := h
  apply hrun.invariant (shape_new hconfig hnew)
  rintro s input s' - hshape rfl
  exact hshape.apply hconfig input

/-! ## One record, by the state that clients see -/

/--
`Recorded config s prev failed s'`: what the record of one outcome makes of a
machine that reads as `prev`, as far as the verdict of the probes goes.
-/
inductive Recorded (config : CircuitBreakerConfig arith ε) (s : StateMachine) (prev : State)
    (failed : Bool) (s' : StateMachine) : Prop
  | counted : prev = .closed → s'.current = .closed → s'.successCount = s.successCount →
      Recorded config s prev failed s'
  | tripped : prev = .closed → failed = true → s'.current = .opened → s'.successCount = 0 →
      Recorded config s prev failed s'
  | waiting : prev = .opened → s'.current = .opened → s'.successCount = s.successCount →
      Recorded config s prev failed s'
  | probed : prev = .halfOpen → failed = false →
      s.successCount + 1 < config.successThreshold → s'.current = .halfOpen →
      s'.successCount = s.successCount + 1 → Recorded config s prev failed s'
  | recovered : prev = .halfOpen → failed = false →
      config.successThreshold ≤ s.successCount + 1 → s'.current = .closed →
      s'.successCount = 0 → Recorded config s prev failed s'
  | retripped : prev = .halfOpen → failed = true → s'.current = .opened →
      s'.successCount = 0 → Recorded config s prev failed s'

theorem recorded_success (s : StateMachine) (tick : Tick) :
    Recorded config s s.current false (s.settleSuccess config tick).1 := by
  rcases s.settleSuccess_cases config tick with
    ⟨hcurrent, heq⟩ | ⟨hcurrent, heq⟩ | ⟨hcurrent, hlt, heq⟩ | ⟨hcurrent, hge, heq⟩
  · rw [heq]
    exact .counted hcurrent hcurrent rfl
  · rw [heq]
    exact .waiting hcurrent hcurrent rfl
  · rw [heq]
    exact .probed hcurrent rfl hlt hcurrent rfl
  · rw [heq]
    exact .recovered hcurrent rfl hge rfl rfl

theorem recorded_failure (s : StateMachine) (tick : Tick) :
    Recorded config s s.current true (s.settleFailure config tick).1 := by
  rcases s.settleFailure_cases config tick with
    ⟨hcurrent, heq⟩ | ⟨hcurrent, -, heq⟩ | ⟨hcurrent, -, wait, heq⟩ | ⟨hcurrent, wait, heq⟩
  · rw [heq]
    exact .waiting hcurrent hcurrent rfl
  · rw [heq]
    exact .counted hcurrent hcurrent rfl
  · rw [heq]
    exact .tripped hcurrent rfl rfl rfl
  · rw [heq]
    exact .retripped hcurrent rfl rfl rfl

theorem Shape.maybeTransition_successCount (h : s.Shape config) (now : Nat) :
    (s.maybeTransitionToHalfOpen now).successCount = s.successCount := by
  by_cases hdue : s.Due now
  · rw [maybeTransitionToHalfOpen_of_due hdue]
    exact (h.opened hdue.1).2.1.symm
  · rw [maybeTransitionToHalfOpen_of_not_due hdue]

theorem Recorded.congr {t s' : StateMachine} {prev : State} {failed : Bool}
    (h : Recorded config t prev failed s') (hcount : t.successCount = s.successCount) :
    Recorded config s prev failed s' := by
  cases h with
  | counted hprev hcurrent hsame => exact .counted hprev hcurrent (hsame.trans hcount)
  | tripped hprev hfailed hcurrent hzero => exact .tripped hprev hfailed hcurrent hzero
  | waiting hprev hcurrent hsame => exact .waiting hprev hcurrent (hsame.trans hcount)
  | probed hprev hfailed hlt hcurrent hsucc =>
      exact .probed hprev hfailed (hcount ▸ hlt) hcurrent (hcount ▸ hsucc)
  | recovered hprev hfailed hge hcurrent hzero =>
      exact .recovered hprev hfailed (hcount ▸ hge) hcurrent hzero
  | retripped hprev hfailed hcurrent hzero => exact .retripped hprev hfailed hcurrent hzero

theorem Shape.recorded (h : s.Shape config) (failed : Bool) (tick : Tick) :
    Recorded config s (s.currentAt tick.now) failed (record config s (failed, tick)).1 := by
  have hcount := h.maybeTransition_successCount tick.now
  rw [currentAt_eq]
  cases failed with
  | false =>
      simp only [record, Bool.false_eq_true, ↓reduceIte, StateMachine.recordSuccess,
        countSuccess_maybeTransition]
      exact (recorded_success (s.maybeTransitionToHalfOpen tick.now).countSuccess tick).congr hcount
  | true =>
      simp only [record, ↓reduceIte, StateMachine.recordFailure, countFailure_maybeTransition]
      exact (recorded_failure (s.maybeTransitionToHalfOpen tick.now).countFailure tick).congr hcount

theorem settleSuccess_announces {tick : Tick} {pair : State × State}
    (h : (s.settleSuccess config tick).2 = .ok (some pair)) :
    pair = (s.current, (s.settleSuccess config tick).1.current) := by
  rcases s.settleSuccess_cases config tick with
    ⟨-, heq⟩ | ⟨-, heq⟩ | ⟨-, -, heq⟩ | ⟨hcurrent, -, heq⟩
  all_goals rw [heq] at h ⊢
  · cases h
  · cases h
  · cases h
  · cases h
    rw [hcurrent]
    rfl

theorem tripReport_announces {tick : Tick} {prev : State} {pair : State × State}
    (h : s.tripReport config tick prev = .ok (some pair)) : pair = (prev, .opened) := by
  unfold tripReport at h
  split at h <;> cases h
  rfl

theorem settleFailure_announces {tick : Tick} {pair : State × State}
    (h : (s.settleFailure config tick).2 = .ok (some pair)) :
    pair = (s.current, (s.settleFailure config tick).1.current) := by
  rcases s.settleFailure_cases config tick with
    ⟨-, heq⟩ | ⟨-, -, heq⟩ | ⟨hcurrent, -, wait, heq⟩ | ⟨hcurrent, wait, heq⟩
  all_goals rw [heq] at h ⊢
  · cases h
  · cases h
  · rw [hcurrent]
    exact tripReport_announces h
  · rw [hcurrent]
    exact tripReport_announces h

theorem record_announces {failed : Bool} {tick : Tick} {pair : State × State}
    (h : (record config s (failed, tick)).2 = .ok (some pair)) :
    pair = (s.currentAt tick.now, (record config s (failed, tick)).1.current) := by
  rw [currentAt_eq]
  cases failed with
  | false =>
      simp only [record, Bool.false_eq_true, ↓reduceIte, StateMachine.recordSuccess,
        countSuccess_maybeTransition] at h ⊢
      exact settleSuccess_announces h
  | true =>
      simp only [record, ↓reduceIte, StateMachine.recordFailure,
        countFailure_maybeTransition] at h ⊢
      exact settleFailure_announces h

/-! ## The time of the entry into `Open` -/

def OpenedBy (clock : Nat) (s : StateMachine) : Prop := ∀ since ∈ s.openSince, since ≤ clock

variable {clock : Nat}

theorem openedBy_of_none (h : s.openSince = none) : s.OpenedBy clock := by
  simp [OpenedBy, h]

theorem OpenedBy.mono {clock' : Nat} (h : s.OpenedBy clock) (hle : clock ≤ clock') :
    s.OpenedBy clock' :=
  fun since hsince => (h since hsince).trans hle

theorem openedBy_tripped (s : StateMachine) (stamp : Nat) (wait : Duration) :
    (s.tripped stamp wait).OpenedBy stamp := by
  simp [OpenedBy, tripped]

theorem OpenedBy.maybeTransitionToHalfOpen (h : s.OpenedBy clock) (now : Nat) :
    (s.maybeTransitionToHalfOpen now).OpenedBy clock := by
  by_cases hdue : s.Due now
  · rw [maybeTransitionToHalfOpen_of_due hdue]
    exact openedBy_of_none rfl
  · rwa [maybeTransitionToHalfOpen_of_not_due hdue]

theorem OpenedBy.settleSuccess (h : s.OpenedBy clock) (tick : Tick) :
    (s.settleSuccess config tick).1.OpenedBy clock := by
  rcases s.settleSuccess_cases config tick with
    ⟨-, heq⟩ | ⟨-, heq⟩ | ⟨-, -, heq⟩ | ⟨-, -, heq⟩
  · rw [heq]
    exact h
  · rw [heq]
    exact h
  · rw [heq]
    exact h
  · rw [heq]
    exact openedBy_of_none rfl

theorem OpenedBy.settleFailure {tick : Tick} (h : s.OpenedBy tick.stamp) :
    (s.settleFailure config tick).1.OpenedBy tick.stamp := by
  rcases s.settleFailure_cases config tick with
    ⟨-, heq⟩ | ⟨-, -, heq⟩ | ⟨-, -, wait, heq⟩ | ⟨-, wait, heq⟩
  · rw [heq]
    exact h
  · rw [heq]
    exact h
  · rw [heq]
    exact openedBy_tripped _ _ wait
  · rw [heq]
    exact openedBy_tripped _ _ wait

theorem OpenedBy.apply {tick : Tick} (h : s.OpenedBy tick.stamp) (op : Op) :
    (s.apply config (op, tick)).1.OpenedBy tick.stamp := by
  cases op with
  | success =>
      have hcounted : s.countSuccess.OpenedBy tick.stamp := h
      exact (hcounted.maybeTransitionToHalfOpen tick.now).settleSuccess tick
  | failure =>
      have hcounted : s.countFailure.OpenedBy tick.stamp := h
      exact (hcounted.maybeTransitionToHalfOpen tick.now).settleFailure
  | forceOpen =>
      obtain ⟨wait, heq⟩ := transition_opened_cases config tick s
      change (s.transition .opened config tick).1.OpenedBy tick.stamp
      rw [heq]
      exact openedBy_tripped _ _ wait
  | forceClosed => exact openedBy_of_none rfl

/-! ## The wait of the first attempt -/

/-- Once a machine has been constructed no trip out of `Closed` can panic. -/
theorem Reachable.nextWait_isSome (h : Reachable config s) (hattempts : s.openAttempts = 0)
    (tick : Tick) : (s.nextWait config tick).isSome := by
  obtain ⟨draw, start, hnew, -⟩ := h
  obtain ⟨wait, hwait, -⟩ := new_eq hnew
  have hfirst : (config.backoff.waitFor binary64 1 draw).isSome := by
    rw [BackoffStrategy.initialWait] at hwait
    simp [hwait]
  have hattempt : saturatingSucc s.openAttempts = 1 := by
    rw [hattempts]
    rfl
  rw [nextWait, hattempt]
  exact BackoffStrategy.waitFor_isSome hfirst tick.draw

/-! ## Operations that unwind -/

variable (config) in
/--
The operation forces the circuit open or is a failed probe, and the computation
of the new wait panics.
-/
def Unwinds (s : StateMachine) (input : Op × Tick) : Prop :=
  (input.1 = .forceOpen ∨ input.1 = .failure ∧ s.currentAt input.2.now = .halfOpen) ∧
    s.nextWait config input.2 = none

instance (s : StateMachine) (input : Op × Tick) : Decidable (s.Unwinds config input) :=
  inferInstanceAs (Decidable (_ ∧ _))

theorem maybeTransition_nextWait (s : StateMachine) (now : Nat) (tick : Tick) :
    (s.maybeTransitionToHalfOpen now).nextWait config tick = s.nextWait config tick := by
  by_cases hdue : s.Due now
  · rw [maybeTransitionToHalfOpen_of_due hdue]
    rfl
  · rw [maybeTransitionToHalfOpen_of_not_due hdue]

theorem tripReport_eq_error_iff (tick : Tick) (prev : State) (panic : Panic) :
    s.tripReport config tick prev = .error panic ↔ s.nextWait config tick = none := by
  cases panic
  unfold tripReport
  cases s.nextWait config tick <;> simp

theorem recordSuccess_ne_error (s : StateMachine) (tick : Tick) (panic : Panic) :
    (s.recordSuccess config tick).2 ≠ .error panic := by
  unfold StateMachine.recordSuccess
  rcases (s.countSuccess.maybeTransitionToHalfOpen tick.now).settleSuccess_cases config tick with
    ⟨-, heq⟩ | ⟨-, heq⟩ | ⟨-, -, heq⟩ | ⟨-, -, heq⟩
  all_goals
    rw [heq]
    simp

theorem Reachable.recordFailure_eq_error_iff (hconfig : config.WellFormed)
    (h : Reachable config s) (tick : Tick) (panic : Panic) :
    (s.recordFailure config tick).2 = .error panic ↔
      s.currentAt tick.now = .halfOpen ∧ s.nextWait config tick = none := by
  have hwait : (s.countFailure.maybeTransitionToHalfOpen tick.now).nextWait config tick =
      s.nextWait config tick := s.countFailure.maybeTransition_nextWait tick.now tick
  have hcurrent : s.currentAt tick.now =
      (s.countFailure.maybeTransitionToHalfOpen tick.now).current :=
    s.countFailure.currentAt_eq tick.now
  unfold StateMachine.recordFailure
  rcases (s.countFailure.maybeTransitionToHalfOpen tick.now).settleFailure_cases config tick with
    ⟨hopened, heq⟩ | ⟨hclosed, -, heq⟩ | ⟨hclosed, -, wait, heq⟩ | ⟨hhalf, wait, heq⟩
  · rw [heq, hcurrent, hopened]
    simp
  · rw [heq, hcurrent, hclosed]
    simp
  · -- The first trip of an episode has a wait.
    have hstored : s.current = .closed := by
      rw [← currentAt_closed_iff, hcurrent, hclosed]
    have hfirst := h.nextWait_isSome ((h.shape hconfig).closed hstored).1 tick
    rw [heq, hcurrent, hclosed, tripReport_eq_error_iff]
    change (s.countFailure.maybeTransitionToHalfOpen tick.now).nextWait config tick = none ↔ _
    rw [hwait]
    simp [Option.isSome_iff_ne_none.mp hfirst]
  · rw [heq, hcurrent, hhalf, tripReport_eq_error_iff, hwait]
    simp

theorem Reachable.apply_eq_error_iff (hconfig : config.WellFormed) (h : Reachable config s)
    (input : Op × Tick) (panic : Panic) :
    (s.apply config input).2 = .error panic ↔ s.Unwinds config input := by
  obtain ⟨op, tick⟩ := input
  cases op with
  | success =>
      change (s.recordSuccess config tick).2 = .error panic ↔ _
      simpa [Unwinds] using s.recordSuccess_ne_error tick panic
  | failure =>
      change (s.recordFailure config tick).2 = .error panic ↔ _
      rw [h.recordFailure_eq_error_iff hconfig]
      simp [Unwinds]
  | forceOpen =>
      cases panic
      have hresult : (s.apply config (.forceOpen, tick)).2 = .error .durationConversion ↔
          s.nextWait config tick = none := by
        change (s.transition .opened config tick).2.map _ = _ ↔ _
        cases hnext : s.nextWait config tick with
        | none => simp [transition_opened_none config tick hnext, Except.map]
        | some wait => simp [transition_opened_some config tick hnext, Except.map]
      simpa [Unwinds] using hresult
  | forceClosed =>
      change Except.ok _ = _ ↔ _
      simp [Unwinds]

end StateMachine

end Breaker
