import Breaker.Call.CircuitBreaker
import Breaker.State.Counters

/-!
# The failure histograms

With the `metrics` feature `record_failure` emits the failure rate and the
failure count after the machine has processed the failure.  A failure that trips
the circuit has reset the count by then, so that a zero is emitted where the
streak that has tripped it ends; every other failure in `Closed` emits its streak.
-/

namespace Breaker

open Foundation

universe u

variable {arith : RateArithmetic} {ε : Type u}

def StateMachine.failureRate (s : StateMachine) : FloatValue :=
  let total := s.totalSuccesses + s.totalFailures
  if total = 0 then .finite 0 else binary64 (nearest64 s.totalFailures / nearest64 total)

/-- What `emit_failure_metrics` writes: a counter, and the records of two histograms. -/
structure Recorder where
  failuresTotal : Nat
  failureRate : List FloatValue
  failureCount : List FloatValue

/-- The read-locked section; a `u32` is a double as it is. -/
def Recorder.emitFailureMetrics (r : Recorder) (s : StateMachine) : Recorder where
  failuresTotal := r.failuresTotal + 1
  failureRate := r.failureRate ++ [s.failureRate]
  failureCount := r.failureCount ++ [.finite s.failureCount]

structure MeteredBreaker where
  breaker : CircuitBreaker
  recorder : Recorder

namespace MeteredBreaker

variable (config : CircuitBreakerConfig arith ε)

def new (b : CircuitBreaker) : MeteredBreaker := ⟨b, ⟨0, [], []⟩⟩

/-- `record_failure`; nothing is emitted when the write-locked section unwinds. -/
def recordFailure (m : MeteredBreaker) (tick : Tick) : MeteredBreaker × Except Panic Unit :=
  match m.breaker.recordFailure config tick with
  | (b, .ok _) => (⟨b, m.recorder.emitFailureMetrics b.state⟩, .ok ())
  | (b, .error panic) => (⟨b, m.recorder⟩, .error panic)

def apply (m : MeteredBreaker) (input : Op × Tick) : MeteredBreaker × Except Panic Unit :=
  match input.1 with
  | .failure => m.recordFailure config input.2
  | .success | .forceOpen | .forceClosed =>
      let (b, result) := m.breaker.apply config input
      ({ m with breaker := b }, result)

def streak (history : List Bool) : Nat := (history.rtakeWhile id).length

/-- The next failure emits the streak that it ends, within the outcomes of the episode. -/
def EmitsStreak (m : MeteredBreaker) (episode : List Bool) (tick : Tick) : Prop :=
  (m.recordFailure config tick).1.recorder.failureCount =
    m.recorder.failureCount ++ [.finite (streak (episode ++ [true]))]

variable {config}

/-! ## The machine under the recorder -/

theorem apply_state (m : MeteredBreaker) (input : Op × Tick) :
    (m.apply config input).1.breaker.state = (m.breaker.state.apply config input).1 := by
  have hbreaker : (m.apply config input).1.breaker = (m.breaker.apply config input).1 := by
    obtain ⟨op, tick⟩ := input
    cases op with
    | failure =>
        change (m.recordFailure config tick).1.breaker = (m.breaker.recordFailure config tick).1
        unfold recordFailure
        split <;> simp [*]
    | success => rfl
    | forceOpen => rfl
    | forceClosed => rfl
  rw [hbreaker, CircuitBreaker.apply_state]

theorem runFrom_state (m : MeteredBreaker) (inputs : List (Op × Tick)) :
    (runFrom (apply config) m inputs).breaker.state =
      runFrom (StateMachine.apply config) m.breaker.state inputs := by
  induction inputs generalizing m with
  | nil => rfl
  | cons input inputs ih => rw [runFrom_cons, ih, apply_state, runFrom_cons]

theorem recordFailure_emits (m : MeteredBreaker) {tick : Tick}
    {pair : Option (State × State)}
    (h : (m.breaker.state.recordFailure config tick).2 = .ok pair) :
    (m.recordFailure config tick).1.recorder.failureCount =
      m.recorder.failureCount ++
        [.finite (m.breaker.state.recordFailure config tick).1.failureCount] := by
  have hresult : (m.breaker.recordFailure config tick).2 = .ok () := by
    rw [CircuitBreaker.recordFailure, CircuitBreaker.announce_result, h]
    rfl
  have hstate : (m.breaker.recordFailure config tick).1.state =
      (m.breaker.state.recordFailure config tick).1 := CircuitBreaker.announce_state _ _
  unfold recordFailure
  split
  · rename_i b _ heq
    rw [heq] at hstate
    simp [Recorder.emitFailureMetrics, ← hstate]
  · rename_i heq
    simp [heq] at hresult

/-! ## The streak -/

theorem emitsStreak_iff (hconfig : config.WellFormed) {m : MeteredBreaker} {episode : List Bool}
    (h : StateMachine.Watching config episode m.breaker.state) (tick : Tick) :
    EmitsStreak config m episode tick ↔ ¬ TripsAt config (episode ++ [true]) := by
  by_cases htrip : TripsAt config (episode ++ [true])
  · obtain ⟨hresult, hopened⟩ := h.recordFailure_trip hconfig htrip tick
    have hreset : (m.breaker.state.recordFailure config tick).1.failureCount = 0 :=
      (((h.reachable.recordFailure tick).shape hconfig).opened hopened).2.2
    have hlong : (streak (episode ++ [true]) : ℚ) ≠ 0 := by
      rw [Nat.cast_ne_zero]
      simp [streak]
    simp [EmitsStreak, recordFailure_emits m hresult, hreset, htrip, hlong.symm]
  · obtain ⟨hresult, hwatching⟩ := h.recordFailure_stay hconfig htrip tick
    simp [EmitsStreak, recordFailure_emits m hresult, hwatching.streak, streak, htrip]

/--
A failure that finds the circuit `Closed` emits the streak of the episode that
it ends, if and only if it does not trip the circuit.
-/
theorem failure_count_histogram (b : CircuitBreakerConfigBuilder arith ε) {draw : Draw}
    {start : CircuitBreaker} (hnew : CircuitBreaker.new b.build draw = some start)
    (inputs : List (Op × Tick)) {m : MeteredBreaker}
    (hm : runFrom (apply b.build) (new start) inputs = m) {tick : Tick}
    (hclosed : m.breaker.state.currentAt tick.now = .closed) :
    EmitsStreak b.build m (StateMachine.history b.build start.state inputs).sinceClosed tick ↔
      ¬ TripsAt b.build
        ((StateMachine.history b.build start.state inputs).sinceClosed ++ [true]) := by
  have hconfig := build_wellFormed b
  obtain ⟨state, hstate, rfl⟩ := Option.map_eq_some_iff.mp hnew
  subst hm
  rw [StateMachine.currentAt_closed_iff, runFrom_state] at hclosed
  have hwatching := StateMachine.watching_run hconfig hstate inputs hclosed
  exact emitsStreak_iff hconfig (by rw [runFrom_state]; exact hwatching) tick

def secondEpisode : List (Op × Tick) :=
  [(.failure, ⟨0, 0, 0⟩), (.failure, ⟨0, 0, 0⟩), (.success, ⟨1, 1, 0⟩), (.success, ⟨2, 2, 0⟩),
    (.failure, ⟨3, 3, 0⟩)]

theorem failure_count_histogram_secondEpisode :
    ∃ start m, CircuitBreaker.new doubleTrigger.build 0 = some start ∧
      runFrom (apply doubleTrigger.build) (new start) secondEpisode = m ∧
      (EmitsStreak doubleTrigger.build m (StateMachine.history doubleTrigger.build start.state
          secondEpisode).sinceClosed ⟨4, 4, 0⟩ ↔
        ¬ TripsAt doubleTrigger.build ((StateMachine.history doubleTrigger.build start.state
          secondEpisode).sinceClosed ++ [true])) :=
  ⟨_, _, rfl, rfl, @failure_count_histogram _ _ doubleTrigger 0 _ rfl secondEpisode _ rfl
    ⟨4, 4, 0⟩ (by decide +kernel)⟩

/-- The second failure trips the circuit and emits zero. -/
theorem failure_count_histogram_trip :
    ¬ ∀ (b : CircuitBreakerConfigBuilder .single Unit) (draw : Draw) (start : CircuitBreaker)
      (inputs : List (Op × Tick)) (m : MeteredBreaker) (tick : Tick),
      CircuitBreaker.new b.build draw = some start →
      runFrom (apply b.build) (new start) inputs = m →
      m.breaker.state.currentAt tick.now = .closed →
      EmitsStreak b.build m (StateMachine.history b.build start.state inputs).sinceClosed tick := by
  intro hlaw
  have hemits := hlaw doubleTrigger 0 _ [(.failure, ⟨0, 0, 0⟩)] _ ⟨0, 0, 0⟩ rfl rfl
    (by decide +kernel)
  revert hemits
  unfold EmitsStreak
  decide +kernel

end MeteredBreaker

end Breaker
