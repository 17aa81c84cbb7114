import Breaker.Call.Metrics
import Breaker.State.Refinement
import Breaker.Tasks.Delivery
import Breaker.Tasks.Harnesses

/-!
# What a running system shows

A task that watches a breaker has nothing but snapshots of its metrics.  The
counters of one are those of the writes made so far, and the counters of two
form a version: where they agree nothing was written in between, and where only
`transitions` agrees the circuit can have done nothing but run out its wait.
A task that takes part sees the abstract circuit, performed on those writes in
the order of the lock.
-/

namespace Breaker

open Foundation

universe u

variable {arith : RateArithmetic} {ε : Type u}

namespace StateMachine

/-! ## The counters as a version -/

def version (s : StateMachine) : Nat := s.totalSuccesses + s.totalFailures + s.transitions

theorem version_lt_apply (config : CircuitBreakerConfig arith ε) (s : StateMachine)
    (input : Op × Tick) : s.version < (s.apply config input).1.version := by
  obtain ⟨op, tick⟩ := input
  obtain ⟨hsuccesses, hfailures⟩ := s.apply_totals config op tick
  have htransitions := apply_transitions config s (op, tick)
  have hmoves : 0 < op.outcome.count false + op.outcome.count true +
      ((s.apply config (op, tick)).1.transitions - s.transitions) := by
    cases op with
    | success => simp [Op.outcome]
    | failure => simp [Op.outcome]
    | forceOpen =>
        obtain ⟨wait, heq⟩ := transition_opened_cases config tick s
        change 0 < 0 + ((s.transition .opened config tick).1.transitions - s.transitions)
        rw [heq, tripped]
        dsimp only
        omega
    | forceClosed =>
        change 0 < 0 + (s.transitions + 1 - s.transitions)
        omega
  unfold version
  omega

theorem version_run (config : CircuitBreakerConfig arith ε) (s : StateMachine)
    (inputs : List (Op × Tick)) :
    s.version + inputs.length ≤ (runFrom (apply config) s inputs).version := by
  induction inputs generalizing s with
  | nil => exact le_rfl
  | cons input inputs ih =>
      have hrest := ih (s.apply config input).1
      have hstep := version_lt_apply config s input
      rw [runFrom_cons, List.length_cons]
      omega

end StateMachine

namespace System

variable {config : CircuitBreakerConfig arith ε} {start s s' : System ε}
  {actions : List (PoolAction Job (TaskAction ε))}

/-! ## Snapshots of a run -/

theorem replay_from (hrun : Runs (Step config) s actions s') :
    ∃ inputs, writes s'.shared.log = writes s.shared.log ++ inputs ∧
      s'.shared.state = runFrom (StateMachine.apply config) s.shared.state inputs := by
  induction hrun with
  | refl => exact ⟨[], (List.append_nil _).symm, rfl⟩
  | snoc _ hlast ih =>
      obtain ⟨inputs, hwrites, hstate⟩ := ih
      rcases step_cases hlast with
        ⟨job, -, rfl⟩ | ⟨i, a, phase, shared, phase', -, -, hacts, rfl⟩
      · exact ⟨inputs, hwrites, hstate⟩
      · rcases hacts.write_cases with ⟨hsame, hlog, -⟩ | ⟨op, tick, rfl⟩
        · exact ⟨inputs, hlog.trans hwrites, hsame.trans hstate⟩
        · refine ⟨inputs ++ [(op, tick)], ?_, ?_⟩
          · simp [write, hwrites]
          · simp [write, hstate]

structure Describes (config : CircuitBreakerConfig arith ε) (s : System ε) (m : CircuitMetrics) :
    Prop where
  successes : m.totalSuccesses = (opsWritten s).count .success
  failures : m.totalFailures = (opsWritten s).count .failure
  rate : StateMachine.Approximates .double m.failureRate
    (m.totalFailures / ((m.totalSuccesses + m.totalFailures : Nat) : ℚ))
    (m.totalSuccesses + m.totalFailures ≤ 2 ^ 53)
  window : StateMachine.Approximates .single m.windowFailureRate
    (s.shared.state.window.outcomes.countP id / s.shared.state.window.outcomes.length)
    (config.slidingWindowSize ≤ 2 ^ 24)

structure Supersedes (s s' : System ε) (m m' : CircuitMetrics) : Prop where
  successes : m.totalSuccesses ≤ m'.totalSuccesses
  failures : m.totalFailures ≤ m'.totalFailures
  transitions : m.transitions ≤ m'.transitions
  state : m'.transitions = m.transitions →
    m'.state = m.state ∨ m.state = .opened ∧ m'.state = .halfOpen
  unwritten : m'.totalSuccesses = m.totalSuccesses → m'.totalFailures = m.totalFailures →
    m'.transitions = m.transitions →
    s'.shared.state = s.shared.state ∧ writes s'.shared.log = writes s.shared.log

/--
In every interleaving a snapshot counts the writes made so far, its rates are
fractions and close to the exact ones, and what two of them agree on has not been
written in between.
-/
theorem snapshots (b : CircuitBreakerConfigBuilder arith ε) {draw : Draw} {start s s' : System ε}
    {first second : List (PoolAction Job (TaskAction ε))} (hnew : new b.build draw = some start)
    (hfirst : Runs (Step b.build) start first s) (hsecond : Runs (Step b.build) s second s')
    {now now' : Nat} (hle : now ≤ now') :
    Describes b.build s (s.shared.state.metrics now) ∧
      Supersedes s s' (s.shared.state.metrics now) (s'.shared.state.metrics now') := by
  have hshape : s.shared.state.Shape b.build :=
    (Reachable.machine ⟨draw, start, hnew, first, hfirst⟩).shape (build_wellFormed b)
  obtain ⟨inputs, hwrites, hstate⟩ := replay_from hsecond
  refine ⟨?_, ?_⟩
  · exact {
      successes := total_eq_count hnew hfirst false
      failures := total_eq_count hnew hfirst true
      rate := s.shared.state.failureRate_approximates
      window := StateMachine.windowFailureRate_approximates hshape }
  · have htotal : ∀ failed, s.shared.state.total failed ≤ s'.shared.state.total failed := by
      intro failed
      rw [hstate, StateMachine.runFrom_total]
      exact Nat.le_add_right _ _
    have hkeeps := keepsStanding_of_runs hsecond
    refine ⟨htotal false, htotal true, ?_, fun hsame => ?_, fun hsuccesses hfailures hsame => ?_⟩
    · rcases hkeeps with hlt | ⟨heq, -⟩
      · exact hlt.le
      · exact heq.ge
    · rcases hkeeps with hlt | ⟨-, hstanding⟩
      · exact absurd hsame hlt.ne'
      · exact hstanding.currentAt hle
    · have hversion := StateMachine.version_run b.build s.shared.state inputs
      rw [← hstate] at hversion
      have hequal : s'.shared.state.version = s.shared.state.version := by
        simp only [StateMachine.metrics] at hsuccesses hfailures hsame
        simp only [StateMachine.version, hsuccesses, hfailures, hsame]
      have hnone : inputs = [] := List.eq_nil_of_length_eq_zero (by omega)
      subst hnone
      exact ⟨hstate, by simpa using hwrites⟩

/-- The wait runs out between the two, and no transition is counted. -/
theorem snapshots_probing :
    Describes hairTrigger.build outage (outage.shared.state.metrics 0) ∧
      Supersedes outage probing (outage.shared.state.metrics 0)
        (probing.shared.state.metrics 1) :=
  @snapshots _ _ hairTrigger 0 _ _ _ outageRun probeRun rfl (runs_of_execute rfl)
    (runs_of_execute rfl) 0 1 (by decide)

/-! ## The circuit behind the lock -/

end System

end Breaker
