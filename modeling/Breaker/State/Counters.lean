import Breaker.State.Tripping

/-!
# What the counters count

The lifetime totals count the records, whatever the circuit makes of them.  The
streak and the probe count are about one episode only: `History` keeps the
outcomes recorded since `Closed` was last entered and those recorded since the
last upgrade to `HalfOpen`, and `Represents` reads every counter of a machine
off its history.
-/

namespace Breaker

open Foundation

universe u

variable {arith : RateArithmetic} {ε : Type u}

def Op.outcome : Op → List Bool
  | .success => [false]
  | .failure => [true]
  | .forceOpen | .forceClosed => []

namespace StateMachine

variable {config : CircuitBreakerConfig arith ε} {s : StateMachine}

/-! ## Lifetime totals -/

theorem maybeTransition_totals (s : StateMachine) (now : Nat) :
    (s.maybeTransitionToHalfOpen now).totalSuccesses = s.totalSuccesses ∧
      (s.maybeTransitionToHalfOpen now).totalFailures = s.totalFailures := by
  by_cases hdue : s.Due now
  · rw [maybeTransitionToHalfOpen_of_due hdue]
    exact ⟨rfl, rfl⟩
  · rw [maybeTransitionToHalfOpen_of_not_due hdue]
    exact ⟨rfl, rfl⟩

variable (config) in
theorem settleSuccess_totals (s : StateMachine) (tick : Tick) :
    (s.settleSuccess config tick).1.totalSuccesses = s.totalSuccesses ∧
      (s.settleSuccess config tick).1.totalFailures = s.totalFailures := by
  rcases s.settleSuccess_cases config tick with ⟨-, heq⟩ | ⟨-, heq⟩ | ⟨-, -, heq⟩ | ⟨-, -, heq⟩
  all_goals
    rw [heq]
    exact ⟨rfl, rfl⟩

variable (config) in
theorem settleFailure_totals (s : StateMachine) (tick : Tick) :
    (s.settleFailure config tick).1.totalSuccesses = s.totalSuccesses ∧
      (s.settleFailure config tick).1.totalFailures = s.totalFailures := by
  rcases s.settleFailure_cases config tick with
    ⟨-, heq⟩ | ⟨-, -, heq⟩ | ⟨-, -, wait, heq⟩ | ⟨-, wait, heq⟩
  all_goals
    rw [heq]
    exact ⟨rfl, rfl⟩

variable (config) in
theorem apply_totals (s : StateMachine) (op : Op) (tick : Tick) :
    (s.apply config (op, tick)).1.totalSuccesses =
        s.totalSuccesses + op.outcome.count false ∧
      (s.apply config (op, tick)).1.totalFailures =
        s.totalFailures + op.outcome.count true := by
  cases op with
  | success =>
      obtain ⟨hsuccesses, hfailures⟩ := settleSuccess_totals config
        (s.countSuccess.maybeTransitionToHalfOpen tick.now) tick
      obtain ⟨hsuccesses', hfailures'⟩ := s.countSuccess.maybeTransition_totals tick.now
      exact ⟨hsuccesses.trans hsuccesses', hfailures.trans hfailures'⟩
  | failure =>
      obtain ⟨hsuccesses, hfailures⟩ := settleFailure_totals config
        (s.countFailure.maybeTransitionToHalfOpen tick.now) tick
      obtain ⟨hsuccesses', hfailures'⟩ := s.countFailure.maybeTransition_totals tick.now
      exact ⟨hsuccesses.trans hsuccesses', hfailures.trans hfailures'⟩
  | forceOpen =>
      obtain ⟨wait, heq⟩ := transition_opened_cases config tick s
      change (s.transition .opened config tick).1.totalSuccesses = _ ∧
        (s.transition .opened config tick).1.totalFailures = _
      rw [heq]
      exact ⟨rfl, rfl⟩
  | forceClosed => exact ⟨rfl, rfl⟩

def total (s : StateMachine) (failed : Bool) : Nat :=
  if failed then s.totalFailures else s.totalSuccesses

theorem apply_total (s : StateMachine) (op : Op) (tick : Tick) (failed : Bool) :
    (s.apply config (op, tick)).1.total failed = s.total failed + op.outcome.count failed := by
  obtain ⟨hsuccesses, hfailures⟩ := s.apply_totals config op tick
  cases failed
  · exact hsuccesses
  · exact hfailures

/-! ## Outcomes of the episode -/

/-- The operation applies the upgrade to `HalfOpen` before it records. -/
def Upgrades (s : StateMachine) (input : Op × Tick) : Prop :=
  input.1.outcome ≠ [] ∧ s.Due input.2.now

instance (s : StateMachine) (input : Op × Tick) : Decidable (s.Upgrades input) :=
  inferInstanceAs (Decidable (_ ∧ _))

def entersClosed : Except Panic (Option (State × State)) → Bool
  | .ok (some (_, .closed)) => true
  | .ok (some (_, .opened)) | .ok (some (_, .halfOpen)) | .ok none | .error _ => false

structure History where
  /-- The outcomes recorded since `Closed` was last entered. -/
  sinceClosed : List Bool
  /-- The outcomes recorded since the last upgrade, with the one that applied it. -/
  sinceUpgrade : List Bool
  deriving DecidableEq, Repr

variable (config)

def watch (x : StateMachine × History) (input : Op × Tick) :
    (StateMachine × History) × Except Panic (Option (State × State)) :=
  let step := x.1.apply config input
  let upgrade := if x.1.Upgrades input then [] else x.2.sinceUpgrade
  let closed := x.2.sinceClosed ++ input.1.outcome
  ((step.1, {
    sinceClosed := if entersClosed step.2 then [] else closed
    sinceUpgrade := upgrade ++ input.1.outcome }), step.2)

/-- The history of a run that starts in a new machine. -/
def history (start : StateMachine) (inputs : List (Op × Tick)) : History :=
  (runFrom (watch config) (start, ⟨[], []⟩) inputs).2

structure Represents (s : StateMachine) (h : History) : Prop where
  since_iff : s.openSince.isSome ↔ s.current = .opened
  closed : s.current = .closed →
    s.openAttempts = 0 ∧ s.successCount = 0 ∧ s.failureCount < config.consecutiveFailures ∧
      s.failureCount = (h.sinceClosed.rtakeWhile id).length
  opened : s.current = .opened →
    s.failureCount = 0 ∧ s.successCount = 0 ∧ 1 ≤ s.openAttempts
  halfOpen : s.current = .halfOpen →
    s.failureCount = 0 ∧ s.successCount < config.successThreshold ∧ 1 ≤ s.openAttempts ∧
      s.successCount = h.sinceUpgrade.count false

/-- A half-open machine has counted the successes since its upgrade. -/
def Tallies (x : StateMachine × History) : Prop :=
  x.1.current = .halfOpen → x.1.successCount = x.2.sinceUpgrade.count false

variable {config}

theorem runFrom_watch_fst (x : StateMachine × History) (inputs : List (Op × Tick)) :
    (runFrom (watch config) x inputs).1 = runFrom (StateMachine.apply config) x.1 inputs :=
  runFrom_fst (fun _ _ => rfl) x inputs

theorem Tallies.upgraded {x : StateMachine × History} (h : Tallies x) {input : Op × Tick}
    (hrecord : input.1.outcome ≠ [])
    (hhalf : (x.1.maybeTransitionToHalfOpen input.2.now).current = .halfOpen) :
    (x.1.maybeTransitionToHalfOpen input.2.now).successCount =
      (if x.1.Upgrades input then [] else x.2.sinceUpgrade).count false := by
  by_cases hdue : x.1.Due input.2.now
  · simp [Upgrades, hrecord, hdue, maybeTransitionToHalfOpen_of_due hdue,
      StateMachine.upgraded]
  · rw [maybeTransitionToHalfOpen_of_not_due hdue] at hhalf ⊢
    simpa [Upgrades, hdue] using h hhalf

theorem Tallies.success {x : StateMachine × History} (h : Tallies x) (tick : Tick) :
    Tallies (watch config x (.success, tick)).1 := by
  have hprobes := @Tallies.upgraded x h (.success, tick) (by simp [Op.outcome])
  simp only [Tallies, watch, StateMachine.apply, StateMachine.recordSuccess,
    countSuccess_maybeTransition, Op.outcome]
  dsimp only at hprobes
  generalize x.1.maybeTransitionToHalfOpen tick.now = t at hprobes ⊢
  rcases t.countSuccess.settleSuccess_cases config tick with
    ⟨hcurrent, heq⟩ | ⟨hcurrent, heq⟩ | ⟨hcurrent, -, heq⟩ | ⟨-, -, heq⟩
  all_goals rw [heq]
  · simp [hcurrent]
  · simp [hcurrent]
  · exact fun _ => by simp [probed, countSuccess, hprobes hcurrent]
  · simp

theorem Tallies.watch {x : StateMachine × History} (h : Tallies x) (input : Op × Tick) :
    Tallies (watch config x input).1 := by
  obtain ⟨op, tick⟩ := input
  cases op with
  | success => exact h.success tick
  | failure =>
      simp only [Tallies, StateMachine.watch, StateMachine.apply, StateMachine.recordFailure]
      rcases (x.1.countFailure.maybeTransitionToHalfOpen tick.now).settleFailure_cases config tick
        with ⟨hcurrent, heq⟩ | ⟨hcurrent, -, heq⟩ | ⟨-, -, wait, heq⟩ | ⟨-, wait, heq⟩
      all_goals rw [heq]
      · simp [hcurrent]
      · simp [hcurrent]
      · simp
      · simp
  | forceOpen =>
      obtain ⟨wait, heq⟩ := transition_opened_cases config tick x.1
      intro hhalf
      change (x.1.transition .opened config tick).1.current = .halfOpen at hhalf
      rw [heq] at hhalf
      cases hhalf
  | forceClosed => exact fun hhalf => (by cases hhalf)

theorem tallies_run {draw : Draw} (hnew : new config draw = some s)
    (inputs : List (Op × Tick)) :
    Tallies (runFrom (StateMachine.apply config) s inputs, history config s inputs) := by
  have hstart : Tallies (s, ⟨[], []⟩) := by
    obtain ⟨wait, -, rfl⟩ := new_eq hnew
    exact fun hhalf => (by cases hhalf)
  have hrun : Tallies (runFrom (StateMachine.watch config) (s, ⟨[], []⟩) inputs) :=
    runFrom_invariant hstart fun _ input _ htallies => htallies.watch input
  rw [← runFrom_watch_fst (s, ⟨[], []⟩) inputs]
  exact hrun

/-! ## The episode as a watched history -/

/-- The invariant of a run; only a recovery or a reset leads back to `Closed`. -/
structure Watches (config : CircuitBreakerConfig arith ε) (x : StateMachine × History) : Prop where
  reachable : Reachable config x.1
  watching : x.1.current = .closed → Watching config x.2.sinceClosed x.1

theorem Watches.success (hconfig : config.WellFormed) {x : StateMachine × History}
    (h : Watches config x) (tick : Tick) : Watches config (watch config x (.success, tick)).1 := by
  refine ⟨h.reachable.recordSuccess tick, fun hclosed => ?_⟩
  by_cases hcurrent : x.1.current = .closed
  · obtain ⟨hresult, hwatching⟩ := (h.watching hcurrent).recordSuccess tick
    simpa [StateMachine.watch, StateMachine.apply, Op.outcome, hresult, entersClosed]
      using hwatching
  · have hready : (x.1.countSuccess.maybeTransitionToHalfOpen tick.now).current ≠ .closed := by
      rw [← currentAt_eq]
      exact fun heq => hcurrent (currentAt_closed_iff.mp heq)
    rcases (x.1.countSuccess.maybeTransitionToHalfOpen tick.now).settleSuccess_cases config tick
      with ⟨hstate, -⟩ | ⟨hstate, heq⟩ | ⟨hstate, -, heq⟩ | ⟨-, -, heq⟩
    · exact absurd hstate hready
    · change (x.1.recordSuccess config tick).1.current = .closed at hclosed
      rw [StateMachine.recordSuccess, heq] at hclosed
      exact absurd hclosed hready
    · change (x.1.recordSuccess config tick).1.current = .closed at hclosed
      rw [StateMachine.recordSuccess, heq] at hclosed
      exact absurd hclosed hready
    · have hrecovers : (x.1.recordSuccess config tick).2 = .ok (some (.halfOpen, .closed)) := by
        rw [StateMachine.recordSuccess, heq]
      have henters : EntersClosed config (x.1.recordSuccess config tick).1 :=
        .recovery h.reachable (Prod.ext rfl hrecovers)
      simpa [StateMachine.watch, StateMachine.apply, hrecovers, entersClosed]
        using henters.watching hconfig

theorem Watches.failure (hconfig : config.WellFormed) {x : StateMachine × History}
    (h : Watches config x) (tick : Tick) : Watches config (watch config x (.failure, tick)).1 := by
  refine ⟨h.reachable.recordFailure tick, fun hclosed => ?_⟩
  by_cases hcurrent : x.1.current = .closed
  · have hwatching := h.watching hcurrent
    by_cases htrip : TripsAt config (x.2.sinceClosed ++ [true])
    · have hopened := (hwatching.recordFailure_trip hconfig htrip tick).2
      change (x.1.recordFailure config tick).1.current = .closed at hclosed
      simp [hopened] at hclosed
    · obtain ⟨hresult, hnext⟩ := hwatching.recordFailure_stay hconfig htrip tick
      simpa [StateMachine.watch, StateMachine.apply, Op.outcome, hresult, entersClosed] using hnext
  · have hready : (x.1.countFailure.maybeTransitionToHalfOpen tick.now).current ≠ .closed := by
      rw [← currentAt_eq]
      exact fun heq => hcurrent (currentAt_closed_iff.mp heq)
    change (x.1.recordFailure config tick).1.current = .closed at hclosed
    rw [StateMachine.recordFailure] at hclosed
    rcases (x.1.countFailure.maybeTransitionToHalfOpen tick.now).settleFailure_cases config tick
      with ⟨-, heq⟩ | ⟨hstate, -, -⟩ | ⟨hstate, -, -⟩ | ⟨-, wait, heq⟩
    · rw [heq] at hclosed
      exact absurd hclosed hready
    · exact absurd hstate hready
    · exact absurd hstate hready
    · rw [heq] at hclosed
      simp at hclosed

theorem Watches.watch (hconfig : config.WellFormed) {x : StateMachine × History}
    (h : Watches config x) (input : Op × Tick) : Watches config (watch config x input).1 := by
  obtain ⟨op, tick⟩ := input
  cases op with
  | success => exact h.success hconfig tick
  | failure => exact h.failure hconfig tick
  | forceOpen =>
      refine ⟨h.reachable.apply (.forceOpen, tick), fun hclosed => ?_⟩
      obtain ⟨wait, heq⟩ := transition_opened_cases config tick x.1
      change (x.1.transition .opened config tick).1.current = .closed at hclosed
      rw [heq] at hclosed
      cases hclosed
  | forceClosed =>
      exact ⟨h.reachable.apply (.forceClosed, tick), fun _ =>
        (@EntersClosed.reset _ _ config x.1 tick h.reachable).watching hconfig⟩

theorem watching_run (hconfig : config.WellFormed) {draw : Draw} (hnew : new config draw = some s)
    (inputs : List (Op × Tick))
    (hclosed : (runFrom (StateMachine.apply config) s inputs).current = .closed) :
    Watching config (history config s inputs).sinceClosed
      (runFrom (StateMachine.apply config) s inputs) := by
  have hstart : Watches config (s, ⟨[], []⟩) :=
    ⟨⟨draw, s, hnew, .refl s⟩, fun _ => (EntersClosed.constructed hnew).watching hconfig⟩
  have hrun : Watches config (runFrom (StateMachine.watch config) (s, ⟨[], []⟩) inputs) :=
    runFrom_invariant hstart fun _ input _ h => h.watch hconfig input
  rw [← runFrom_watch_fst (s, ⟨[], []⟩) inputs] at hclosed ⊢
  exact hrun.watching hclosed

theorem represents_run (hconfig : config.WellFormed) {draw : Draw}
    (hnew : new config draw = some s) (inputs : List (Op × Tick)) :
    Represents config (runFrom (StateMachine.apply config) s inputs)
      (history config s inputs) := by
  have hshape : (runFrom (StateMachine.apply config) s inputs).Shape config :=
    runFrom_invariant (shape_new hconfig hnew) fun _ input _ hshape => hshape.apply hconfig input
  exact {
    since_iff := hshape.since_iff
    closed := fun hcurrent =>
      have hclosed := hshape.closed hcurrent
      ⟨hclosed.1, hclosed.2.1, hclosed.2.2, (watching_run hconfig hnew inputs hcurrent).streak⟩
    opened := fun hcurrent =>
      have hopened := hshape.opened hcurrent
      ⟨hopened.2.2, hopened.2.1, hopened.1⟩
    halfOpen := fun hcurrent =>
      have hhalf := hshape.halfOpen hcurrent
      ⟨hhalf.2.2, hhalf.2.1, hhalf.1, tallies_run hnew inputs hcurrent⟩ }

end StateMachine

end Breaker
