import Breaker.State.Tripping

/-!
# Recovery is a clean slate

A machine that has just entered `Closed` differs from a new one in its lifetime
totals, in its number of transitions, and in the wait that the last outage has
left behind.  The wait is not read before the next trip stores a new one: the
wait of a first attempt is computed without a panic, or the new machine could
not have been built.  `Resumes` is the relation that both machines keep when they
are driven by the same operations at the same readings.
-/

namespace Breaker

open Foundation

universe u

variable {arith : RateArithmetic} {ε : Type u}

def BackoffStrategy.Deterministic : BackoffStrategy → Prop
  | fixed _ | exponential .. => True
  | exponentialJitter .. => False

theorem BackoffStrategy.Deterministic.waitFor {strategy : BackoffStrategy}
    (h : strategy.Deterministic) (attempt : Nat) (draw draw' : Draw) :
    strategy.waitFor binary64 attempt draw = strategy.waitFor binary64 attempt draw' := by
  cases strategy with
  | fixed d => rfl
  | exponential initial max factor => rfl
  | exponentialJitter => cases h

/-- The same operation at the same readings; the draws may differ. -/
def SameReadings (input input' : Op × Tick) : Prop :=
  input.1 = input'.1 ∧ input.2.now = input'.2.now ∧ input.2.stamp = input'.2.stamp

namespace StateMachine

/-- Two machines, of which the first has the past of `past` behind it. -/
structure CleanSlate (past s t : StateMachine) : Prop where
  current : ∀ now, s.currentAt now = t.currentAt now
  windowFilled : s.window.filled = t.window.filled
  windowFailureRate : ∀ arith, s.window.failureRate arith = t.window.failureRate arith
  failureCount : s.failureCount = t.failureCount
  openAttempts : s.openAttempts = t.openAttempts
  wait : s.current = .opened → s.waitDuration = t.waitDuration
  totalSuccesses : s.totalSuccesses = past.totalSuccesses + t.totalSuccesses
  totalFailures : s.totalFailures = past.totalFailures + t.totalFailures
  transitions : s.transitions = past.transitions + t.transitions

/-- The machine `t` with the totals of `past` added, and with a wait of its own. -/
def carry (past t : StateMachine) (wait : Duration) : StateMachine :=
  { t with
    totalSuccesses := past.totalSuccesses + t.totalSuccesses
    totalFailures := past.totalFailures + t.totalFailures
    transitions := past.transitions + t.transitions
    waitDuration := wait }

def Resumes (past s t : StateMachine) : Prop :=
  ∃ wait, s = carry past t wait ∧ (t.openAttempts ≠ 0 → wait = t.waitDuration)

variable {config : CircuitBreakerConfig arith ε} {past s t : StateMachine}

/-! ## Reads -/

theorem Resumes.current (h : Resumes past s t) : s.current = t.current := by
  obtain ⟨wait, rfl, -⟩ := h
  rfl

theorem Resumes.due (h : Resumes past s t) (hshape : t.Shape config) (now : Nat) :
    s.Due now ↔ t.Due now := by
  obtain ⟨wait, rfl, hwait⟩ := h
  by_cases hopen : t.current = .opened
  · have hattempts : t.openAttempts ≠ 0 := Nat.one_le_iff_ne_zero.mp (hshape.opened hopen).1
    rw [hwait hattempts]
    rfl
  · exact ⟨fun hdue => absurd hdue.1 hopen, fun hdue => absurd hdue.1 hopen⟩

theorem Resumes.maybeTransitionToHalfOpen (h : Resumes past s t) (hshape : t.Shape config)
    (now : Nat) :
    Resumes past (s.maybeTransitionToHalfOpen now) (t.maybeTransitionToHalfOpen now) := by
  have hdue := h.due hshape now
  by_cases hs : s.Due now
  · rw [maybeTransitionToHalfOpen_of_due hs, maybeTransitionToHalfOpen_of_due (hdue.mp hs)]
    obtain ⟨wait, rfl, hwait⟩ := h
    exact ⟨wait, by simp [upgraded, carry, Nat.add_assoc], hwait⟩
  · rw [maybeTransitionToHalfOpen_of_not_due hs,
      maybeTransitionToHalfOpen_of_not_due (mt hdue.mpr hs)]
    exact h

theorem Resumes.currentAt (h : Resumes past s t) (hshape : t.Shape config) (now : Nat) :
    s.currentAt now = t.currentAt now := by
  rw [currentAt_eq, currentAt_eq]
  exact (h.maybeTransitionToHalfOpen hshape now).current

theorem Resumes.cleanSlate (h : Resumes past s t) (hshape : t.Shape config) :
    CleanSlate past s t := by
  have hcurrent := h.currentAt hshape
  obtain ⟨wait, rfl, hwait⟩ := h
  exact {
    current := hcurrent
    windowFilled := rfl
    windowFailureRate := fun _ => rfl
    failureCount := rfl
    openAttempts := rfl
    wait := fun hopen => hwait (Nat.one_le_iff_ne_zero.mp (hshape.opened hopen).1)
    totalSuccesses := rfl
    totalFailures := rfl
    transitions := rfl }

/-! ## Transitions -/

section Step

variable {tick tick' : Tick}

theorem Resumes.recovered (h : Resumes past s t) : Resumes past s.recovered t.recovered := by
  obtain ⟨wait, rfl, -⟩ := h
  exact ⟨wait, by simp [StateMachine.recovered, carry, Nat.add_assoc], fun hne => absurd rfl hne⟩

theorem Resumes.tripped (h : Resumes past s t) (stamp : Nat) {wait wait' : Duration}
    (hwait : wait = wait') : Resumes past (s.tripped stamp wait) (t.tripped stamp wait') := by
  obtain ⟨old, rfl, -⟩ := h
  subst hwait
  exact ⟨wait, by simp [StateMachine.tripped, carry, Nat.add_assoc], fun _ => rfl⟩

theorem Resumes.nextWait (h : Resumes past s t) (hdet : config.backoff.Deterministic) :
    s.nextWait config tick = t.nextWait config tick' := by
  obtain ⟨wait, rfl, -⟩ := h
  exact hdet.waitFor _ tick.draw tick'.draw

theorem Resumes.settleSuccess (h : Resumes past s t) :
    (s.settleSuccess config tick).2 = (t.settleSuccess config tick').2 ∧
      Resumes past (s.settleSuccess config tick).1 (t.settleSuccess config tick').1 := by
  have hcurrent := h.current
  have hcount : s.successCount = t.successCount := by
    obtain ⟨wait, rfl, -⟩ := h
    rfl
  rcases t.settleSuccess_cases config tick' with
    ⟨hclosed, heq⟩ | ⟨hopened, heq⟩ | ⟨hhalf, hlt, heq⟩ | ⟨hhalf, hge, heq⟩
  · rw [heq, settleSuccess_closed (hcurrent.trans hclosed)]
    obtain ⟨wait, rfl, hwait⟩ := h
    exact ⟨rfl, wait, rfl, hwait⟩
  · rw [heq, settleSuccess_opened (hcurrent.trans hopened)]
    exact ⟨rfl, h⟩
  · rw [heq, settleSuccess_halfOpen_lt (hcurrent.trans hhalf) (hcount ▸ hlt)]
    obtain ⟨wait, rfl, hwait⟩ := h
    exact ⟨rfl, wait, rfl, hwait⟩
  · rw [heq, settleSuccess_halfOpen_ge (hcurrent.trans hhalf) (hcount ▸ hge)]
    exact ⟨rfl, h.recovered⟩

variable (hdet : config.backoff.Deterministic)
  (hfirst : ∀ draw, (config.backoff.waitFor binary64 1 draw).isSome)

include hdet hfirst

theorem Resumes.transition_opened (h : Resumes past s t) (hstamp : tick.stamp = tick'.stamp) :
    (s.transition .opened config tick).2 = (t.transition .opened config tick').2 ∧
      Resumes past (s.transition .opened config tick).1 (t.transition .opened config tick').1 := by
  have hsame : s.nextWait config tick = t.nextWait config tick' := h.nextWait hdet
  cases hnext : t.nextWait config tick' with
  | some wait =>
      rw [transition_opened_some config tick (hsame.trans hnext),
        transition_opened_some config tick' hnext, hstamp]
      exact ⟨rfl, h.tripped _ rfl⟩
  | none =>
      have hattempts : t.openAttempts ≠ 0 := by
        intro hzero
        have hsome := hfirst tick'.draw
        rw [StateMachine.nextWait, hzero] at hnext
        change config.backoff.waitFor binary64 1 tick'.draw = none at hnext
        rw [hnext] at hsome
        cases hsome
      have hwait : s.waitDuration = t.waitDuration := by
        obtain ⟨wait, rfl, hwait⟩ := h
        exact hwait hattempts
      rw [transition_opened_none config tick (hsame.trans hnext),
        transition_opened_none config tick' hnext, hstamp]
      exact ⟨rfl, h.tripped _ hwait⟩

theorem Resumes.transitionFrom_opened (h : Resumes past s t) (hstamp : tick.stamp = tick'.stamp)
    (prev : State) :
    (s.transitionFrom prev .opened config tick).2 =
        (t.transitionFrom prev .opened config tick').2 ∧
      Resumes past (s.transitionFrom prev .opened config tick).1
        (t.transitionFrom prev .opened config tick').1 := by
  obtain ⟨hresult, hresumes⟩ := h.transition_opened hdet hfirst hstamp
  refine ⟨?_, hresumes⟩
  unfold transitionFrom
  dsimp only
  rw [hresult]

theorem Resumes.settleFailure (h : Resumes past s t) (hstamp : tick.stamp = tick'.stamp) :
    (s.settleFailure config tick).2 = (t.settleFailure config tick').2 ∧
      Resumes past (s.settleFailure config tick).1 (t.settleFailure config tick').1 := by
  have hcurrent := h.current
  have hfailed : Resumes past s.failed t.failed := by
    obtain ⟨wait, rfl, hwait⟩ := h
    exact ⟨wait, rfl, hwait⟩
  have htrip : s.failed.shouldTrip config = t.failed.shouldTrip config := by
    obtain ⟨wait, rfl, -⟩ := h
    rfl
  cases hstate : t.current with
  | opened =>
      rw [settleFailure_opened hstate, settleFailure_opened (hcurrent.trans hstate)]
      exact ⟨rfl, h⟩
  | halfOpen =>
      rw [settleFailure_halfOpen hstate, settleFailure_halfOpen (hcurrent.trans hstate)]
      exact h.transitionFrom_opened hdet hfirst hstamp .halfOpen
  | closed =>
      cases hdecision : t.failed.shouldTrip config with
      | false =>
          rw [settleFailure_closed_stay hstate hdecision,
            settleFailure_closed_stay (hcurrent.trans hstate) (htrip.trans hdecision)]
          exact ⟨rfl, hfailed⟩
      | true =>
          rw [settleFailure_closed_trip hstate hdecision,
            settleFailure_closed_trip (hcurrent.trans hstate) (htrip.trans hdecision)]
          exact hfailed.transitionFrom_opened hdet hfirst hstamp .closed

theorem Resumes.apply (hshape : t.Shape config) (h : Resumes past s t)
    {input input' : Op × Tick} (hreadings : SameReadings input input') :
    (s.apply config input).2 = (t.apply config input').2 ∧
      Resumes past (s.apply config input).1 (t.apply config input').1 := by
  obtain ⟨op, tick⟩ := input
  obtain ⟨op', tick'⟩ := input'
  obtain ⟨rfl, hnow, hstamp⟩ := hreadings
  dsimp only at hnow hstamp
  have hcurrent : s.currentAt tick.now = t.currentAt tick'.now := by
    rw [hnow]
    exact h.currentAt hshape _
  cases op with
  | success =>
      have hcounted : Resumes past s.countSuccess t.countSuccess := by
        obtain ⟨wait, rfl, hwait⟩ := h
        exact ⟨wait, by simp [countSuccess, carry, Nat.add_assoc], hwait⟩
      have hready := hcounted.maybeTransitionToHalfOpen hshape.countSuccess tick.now
      simp only [StateMachine.apply, StateMachine.recordSuccess, ← hnow]
      exact hready.settleSuccess
  | failure =>
      have hcounted : Resumes past s.countFailure t.countFailure := by
        obtain ⟨wait, rfl, hwait⟩ := h
        exact ⟨wait, by simp [countFailure, carry, Nat.add_assoc], hwait⟩
      have hready := hcounted.maybeTransitionToHalfOpen hshape.countFailure tick.now
      simp only [StateMachine.apply, StateMachine.recordFailure, ← hnow]
      exact hready.settleFailure hdet hfirst hstamp
  | forceOpen =>
      obtain ⟨hresult, hresumes⟩ := h.transition_opened hdet hfirst hstamp
      refine ⟨?_, hresumes⟩
      simp only [StateMachine.apply, forced, StateMachine.forceOpen, hcurrent, hresult]
  | forceClosed =>
      refine ⟨?_, h.recovered⟩
      simp only [StateMachine.apply, forced, StateMachine.forceClosed, hcurrent,
        transition_closed]

end Step

/-! ## The two runs -/

theorem Shape.clear_eq_new (hconfig : config.WellFormed) (h : s.Shape config) :
    s.window.clear = Window.new config.slidingWindowSize := by
  simp [Window.clear, Window.new, h.capacity, Nat.max_eq_left hconfig.window_pos]

theorem Shape.recovered_resumes (hconfig : config.WellFormed) (h : s.Shape config)
    (wait : Duration) : Resumes s.recovered s.recovered (fresh config wait) := by
  refine ⟨s.waitDuration, ?_, fun hne => absurd rfl hne⟩
  simp [StateMachine.recovered, carry, fresh, h.clear_eq_new hconfig]

theorem EntersClosed.resumes (hconfig : config.WellFormed) (h : EntersClosed config s)
    (wait : Duration) : Resumes s s (fresh config wait) := by
  cases h with
  | constructed hnew =>
      obtain ⟨old, -, rfl⟩ := new_eq hnew
      exact ⟨old, rfl, fun hne => absurd rfl hne⟩
  | @recovery t _ tick hreach hrec =>
      rw [recordSuccess_recovery hrec]
      have hshape := (hreach.shape hconfig).countSuccess.maybeTransitionToHalfOpen hconfig tick.now
      exact hshape.recovered_resumes hconfig wait
  | reset hreach => exact (hreach.shape hconfig).recovered_resumes hconfig wait

theorem Resumes.run (hconfig : config.WellFormed) (hdet : config.backoff.Deterministic)
    (hfirst : ∀ draw, (config.backoff.waitFor binary64 1 draw).isSome) (hshape : t.Shape config)
    (h : Resumes past s t) {inputs inputs' : List (Op × Tick)}
    (hreadings : List.Forall₂ SameReadings inputs inputs') :
    List.Forall₂ (fun p q => p.2 = q.2 ∧ CleanSlate past p.1 q.1)
      (trace (StateMachine.apply config) s inputs)
      (trace (StateMachine.apply config) t inputs') := by
  have hstep : ∀ s t input input', t.Shape config ∧ Resumes past s t →
      SameReadings input input' →
      (s.apply config input).2 = (t.apply config input').2 ∧
        (t.apply config input').1.Shape config ∧
        Resumes past (s.apply config input).1 (t.apply config input').1 := by
    rintro s t input input' ⟨hshape, hresumes⟩ hinput
    have hnext := hresumes.apply hdet hfirst hshape hinput
    exact ⟨hnext.1, hshape.apply hconfig input', hnext.2⟩
  refine (forall₂_trace hstep ⟨hshape, h⟩ hreadings).imp fun p q hpq => ?_
  exact ⟨hpq.1, hpq.2.2.cleanSlate hpq.2.1⟩

/--
A machine that has just entered `Closed` and a new machine, driven by the same
operations at the same readings, return the same pairs and read the same, but
for the totals that the past has added.
-/
theorem recovery_clean_slate (b : CircuitBreakerConfigBuilder arith ε)
    (hdet : b.build.backoff.Deterministic) (h : EntersClosed b.build past) (draw : Draw) :
    ∃ start, new b.build draw = some start ∧ CleanSlate past past start ∧
      ∀ inputs inputs', List.Forall₂ SameReadings inputs inputs' →
        List.Forall₂ (fun p q => p.2 = q.2 ∧ CleanSlate past p.1 q.1)
          (trace (apply b.build) past inputs) (trace (apply b.build) start inputs') := by
  have hconfig := build_wellFormed b
  obtain ⟨old, first, hold, -⟩ := (h.watching hconfig).reachable
  obtain ⟨wait, hwait, -⟩ := new_eq hold
  have hfirst : ∀ draw, (b.build.backoff.waitFor binary64 1 draw).isSome := by
    rw [BackoffStrategy.initialWait] at hwait
    exact BackoffStrategy.waitFor_isSome (Option.isSome_of_eq_some hwait)
  obtain ⟨initial, hinitial⟩ := Option.isSome_iff_exists.mp (hfirst draw)
  have hnew : new b.build draw = some (fresh b.build initial) := by
    simp [new, BackoffStrategy.initialWait, hinitial]
  have hshape := shape_new hconfig hnew
  have hresumes := h.resumes hconfig initial
  exact ⟨_, hnew, hresumes.cleanSlate hshape,
    fun _ _ hreadings => Resumes.run hconfig hdet hfirst hshape hresumes hreadings⟩

def resetOutage : StateMachine :=
  let opened := ((fresh hairTrigger.build (.fromNanos 1)).forceOpen hairTrigger.build ⟨0, 0, 0⟩).1
  (opened.forceClosed hairTrigger.build ⟨0, 0, 0⟩).1

theorem recovery_clean_slate_resetOutage :
    resetOutage.transitions = 2 ∧
      ∃ start, new hairTrigger.build 1 = some start ∧ CleanSlate resetOutage resetOutage start ∧
        ∀ inputs inputs', List.Forall₂ SameReadings inputs inputs' →
          List.Forall₂ (fun p q => p.2 = q.2 ∧ CleanSlate resetOutage p.1 q.1)
            (trace (apply hairTrigger.build) resetOutage inputs)
            (trace (apply hairTrigger.build) start inputs') :=
  ⟨rfl, recovery_clean_slate hairTrigger trivial
    (.reset ⟨0, _, rfl, [(.forceOpen, ⟨0, 0, 0⟩)], .single rfl⟩) 1⟩

end StateMachine

end Breaker
