import Breaker.State.Counters

/-!
# The arithmetic of the counters

The machine of the rest of the development counts in natural numbers.  The
`checked` operations of this module are the same operations on `u32` and `u64`
counters, undefined where an increment overflows or a decrement goes below zero.
No run of fewer than `2 ^ 63` operations sees the difference: the lifetime
counters are too wide for it, and the others are bounded by the thresholds and
the window size, strictly enough to leave room for one more.
-/

namespace Breaker

open Foundation

universe u

variable {arith : RateArithmetic} {ε : Type u}

/-- `+= 1` on a counter of `width` bits. -/
def increment (width n : Nat) : Option Nat := if n + 1 < 2 ^ width then some (n + 1) else none

/-- `-= amount` on an unsigned counter. -/
def decrement (n amount : Nat) : Option Nat := if amount ≤ n then some (n - amount) else none

theorem increment_eq {width n : Nat} (h : n + 1 < 2 ^ width) :
    increment width n = some (n + 1) := by
  simp [increment, h]

theorem decrement_eq {n amount : Nat} (h : amount ≤ n) :
    decrement n amount = some (n - amount) := by
  simp [decrement, h]

namespace Window

def checkedPopFront (w : Window) : Option Window :=
  match w.outcomes with
  | [] => some w
  | evicted :: rest => do
      let failures ← decrement w.failures evicted.toNat
      return { w with outcomes := rest, failures := failures }

def checkedRecord (w : Window) (failed : Bool) : Option Window := do
  let w ← (if w.capacity ≤ asU32 w.outcomes.length then w.checkedPopFront else some w)
  let failures ← (if failed then increment 32 w.failures else some w.failures)
  return { w with outcomes := w.outcomes ++ [failed], failures := failures }

variable {w : Window} {history : List Bool}

theorem checkedPopFront_eq (h : w.failures = w.outcomes.countP id) :
    w.checkedPopFront = some w.popFront := by
  unfold checkedPopFront popFront
  cases hout : w.outcomes with
  | nil => rfl
  | cons evicted rest =>
      have hle : evicted.toNat ≤ w.failures := by
        rw [h, hout]
        cases evicted <;> simp
      simp [decrement_eq hle]

theorem Tracks.checkedRecord_eq (h : w.Tracks history) (failed : Bool) :
    w.checkedRecord failed = some (w.record failed) := by
  have hlimit := h.capacity_lt
  have hfilled : asU32 w.outcomes.length = min w.capacity history.length := h.filled_eq
  have hroom : (if w.capacity ≤ asU32 w.outcomes.length then w.popFront else w).failures + 1 <
      2 ^ 32 := by
    have hlength := h.length
    have hpos := h.capacity_pos
    split_ifs with hfull
    · have hpop : w.popFront.failures ≤ w.outcomes.tail.length := by
        unfold popFront
        have hcount := h.failures_eq
        cases hout : w.outcomes with
        | nil => simp [hcount, hout]
        | cons evicted rest =>
            have hle := List.countP_le_length (p := id) (l := rest)
            cases evicted <;> simp [hcount, hout] <;> omega
      rw [List.length_tail] at hpop
      omega
    · have hle := List.countP_le_length (p := id) (l := w.outcomes)
      rw [← h.failures_eq] at hle
      omega
  have hpopped : (if w.capacity ≤ asU32 w.outcomes.length then w.checkedPopFront else some w) =
      some (if w.capacity ≤ asU32 w.outcomes.length then w.popFront else w) := by
    split_ifs
    · exact checkedPopFront_eq h.failures_eq
    · rfl
  unfold checkedRecord Window.record
  rw [hpopped]
  cases failed with
  | false => rfl
  | true => simp [increment_eq hroom]

end Window

namespace StateMachine

variable (config : CircuitBreakerConfig arith ε)

/-! ## Checked operations -/

def checkedCountSuccess (s : StateMachine) : Option StateMachine := do
  let total ← increment 64 s.totalSuccesses
  return { s with totalSuccesses := total }

def checkedCountFailure (s : StateMachine) : Option StateMachine := do
  let total ← increment 64 s.totalFailures
  return { s with totalFailures := total }

def checkedMaybeTransition (s : StateMachine) (now : Nat) : Option StateMachine :=
  if s.Due now then do
    let transitions ← increment 64 s.transitions
    return { s.upgraded with transitions := transitions }
  else some s

/-- Of the arithmetic of `transition`, the attempt counter saturates. -/
def checkedTransition (s : StateMachine) (next : State) (tick : Tick) :
    Option (StateMachine × Except Panic Unit) := do
  let _ ← increment 64 s.transitions
  return s.transition next config tick

def checkedTransitionFrom (s : StateMachine) (prev next : State) (tick : Tick) :
    Option (StateMachine × Except Panic (Option (State × State))) := do
  let (s, result) ← s.checkedTransition config next tick
  return (s, result.map fun _ => some (prev, next))

def checkedSucceeded (s : StateMachine) : Option StateMachine := do
  let window ← s.window.checkedRecord false
  return { s with failureCount := 0, window := window }

def checkedProbed (s : StateMachine) : Option StateMachine := do
  let count ← increment 32 s.successCount
  return { s with successCount := count }

def checkedFailed (s : StateMachine) : Option StateMachine := do
  let count ← increment 32 s.failureCount
  let window ← s.window.checkedRecord true
  return { s with failureCount := count, window := window }

def checkedSettleSuccess (s : StateMachine) (tick : Tick) :
    Option (StateMachine × Except Panic (Option (State × State))) :=
  match s.current with
  | .closed => do
      let s ← s.checkedSucceeded
      return (s, .ok none)
  | .halfOpen => do
      let s ← s.checkedProbed
      if config.successThreshold ≤ s.successCount then
        s.checkedTransitionFrom config .halfOpen .closed tick
      else return (s, .ok none)
  | .opened => return (s, .ok none)

def checkedSettleFailure (s : StateMachine) (tick : Tick) :
    Option (StateMachine × Except Panic (Option (State × State))) :=
  match s.current with
  | .closed => do
      let s ← s.checkedFailed
      if s.shouldTrip config then s.checkedTransitionFrom config .closed .opened tick
      else return (s, .ok none)
  | .halfOpen => s.checkedTransitionFrom config .halfOpen .opened tick
  | .opened => return (s, .ok none)

def checkedApply (s : StateMachine) (input : Op × Tick) :
    Option (StateMachine × Except Panic (Option (State × State))) :=
  match input.1 with
  | .success => do
      let s ← s.checkedCountSuccess
      let s ← s.checkedMaybeTransition input.2.now
      s.checkedSettleSuccess config input.2
  | .failure => do
      let s ← s.checkedCountFailure
      let s ← s.checkedMaybeTransition input.2.now
      s.checkedSettleFailure config input.2
  | .forceOpen => do
      let step ← s.checkedTransition config .opened input.2
      return forced (s.currentAt input.2.now) .opened step
  | .forceClosed => do
      let step ← s.checkedTransition config .closed input.2
      return forced (s.currentAt input.2.now) .closed step

def checkedStep (s : StateMachine) (input : Op × Tick) : Option StateMachine :=
  (s.checkedApply config input).map Prod.fst

/-! ## Room for one more -/

structure CountedBy (n : Nat) (s : StateMachine) : Prop where
  totalSuccesses : s.totalSuccesses ≤ n
  totalFailures : s.totalFailures ≤ n
  transitions : s.transitions ≤ 2 * n

variable {config} {s : StateMachine} {tick : Tick}

theorem checkedCountSuccess_eq (h : s.totalSuccesses + 1 < 2 ^ 64) :
    s.checkedCountSuccess = some s.countSuccess := by
  rw [checkedCountSuccess, increment_eq h]
  rfl

theorem checkedCountFailure_eq (h : s.totalFailures + 1 < 2 ^ 64) :
    s.checkedCountFailure = some s.countFailure := by
  rw [checkedCountFailure, increment_eq h]
  rfl

theorem checkedMaybeTransition_eq {now : Nat} (h : s.transitions + 1 < 2 ^ 64) :
    s.checkedMaybeTransition now = some (s.maybeTransitionToHalfOpen now) := by
  unfold checkedMaybeTransition
  split_ifs with hdue
  · rw [increment_eq h, maybeTransitionToHalfOpen_of_due hdue]
    rfl
  · rw [maybeTransitionToHalfOpen_of_not_due hdue]

theorem maybeTransition_room (h : s.transitions + 2 < 2 ^ 64) (now : Nat) :
    (s.maybeTransitionToHalfOpen now).transitions + 1 < 2 ^ 64 := by
  by_cases hdue : s.Due now
  · rw [maybeTransitionToHalfOpen_of_due hdue]
    exact h
  · rw [maybeTransitionToHalfOpen_of_not_due hdue]
    omega

theorem checkedTransition_eq (h : s.transitions + 1 < 2 ^ 64) (next : State) (tick : Tick) :
    s.checkedTransition config next tick = some (s.transition next config tick) := by
  rw [checkedTransition, increment_eq h]
  rfl

theorem checkedTransitionFrom_eq (h : s.transitions + 1 < 2 ^ 64) (prev next : State)
    (tick : Tick) :
    s.checkedTransitionFrom config prev next tick =
      some (s.transitionFrom prev next config tick) := by
  rw [checkedTransitionFrom, checkedTransition_eq h]
  rfl

theorem Shape.checkedSucceeded_eq (h : s.Shape config) :
    s.checkedSucceeded = some s.succeeded := by
  obtain ⟨history, hhistory⟩ := h.window
  rw [checkedSucceeded, hhistory.checkedRecord_eq]
  rfl

theorem Shape.checkedProbed_eq (hconfig : config.WellFormed) (h : s.Shape config)
    (hcurrent : s.current = .halfOpen) : s.checkedProbed = some s.probed := by
  have hcount : s.successCount + 1 < 2 ^ 32 :=
    lt_of_le_of_lt (h.halfOpen hcurrent).2.1 hconfig.success_lt
  rw [checkedProbed, increment_eq hcount]
  rfl

theorem Shape.checkedFailed_eq (hconfig : config.WellFormed) (h : s.Shape config)
    (hcurrent : s.current = .closed) : s.checkedFailed = some s.failed := by
  have hcount : s.failureCount + 1 < 2 ^ 32 :=
    lt_of_le_of_lt (h.closed hcurrent).2.2 hconfig.consecutive_lt
  obtain ⟨history, hhistory⟩ := h.window
  rw [checkedFailed, increment_eq hcount, hhistory.checkedRecord_eq]
  rfl

theorem Shape.checkedSettleSuccess_eq (hconfig : config.WellFormed) (h : s.Shape config)
    (hroom : s.transitions + 1 < 2 ^ 64) :
    s.checkedSettleSuccess config tick = some (s.settleSuccess config tick) := by
  unfold checkedSettleSuccess
  cases hcurrent : s.current with
  | closed =>
      rw [settleSuccess_closed hcurrent]
      simp [h.checkedSucceeded_eq]
  | opened =>
      rw [settleSuccess_opened hcurrent]
      rfl
  | halfOpen =>
      have hprobed : s.probed.transitions + 1 < 2 ^ 64 := hroom
      simp only [h.checkedProbed_eq hconfig hcurrent, StateMachine.settleSuccess, hcurrent,
        Option.bind_eq_bind, Option.bind_some]
      split_ifs
      · exact checkedTransitionFrom_eq hprobed _ _ tick
      · rfl

theorem Shape.checkedSettleFailure_eq (hconfig : config.WellFormed) (h : s.Shape config)
    (hroom : s.transitions + 1 < 2 ^ 64) :
    s.checkedSettleFailure config tick = some (s.settleFailure config tick) := by
  unfold checkedSettleFailure
  cases hcurrent : s.current with
  | opened =>
      rw [settleFailure_opened hcurrent]
      rfl
  | halfOpen =>
      rw [settleFailure_halfOpen hcurrent]
      exact checkedTransitionFrom_eq hroom _ _ tick
  | closed =>
      have hfailed : s.failed.transitions + 1 < 2 ^ 64 := hroom
      simp only [h.checkedFailed_eq hconfig hcurrent, StateMachine.settleFailure, hcurrent,
        Option.bind_eq_bind, Option.bind_some]
      split_ifs
      · exact checkedTransitionFrom_eq hfailed _ _ tick
      · rfl

theorem Shape.checkedApply_eq (hconfig : config.WellFormed) (h : s.Shape config) {n : Nat}
    (hcounted : CountedBy n s) (hlt : n < 2 ^ 63 - 1) (input : Op × Tick) :
    s.checkedApply config input = some (s.apply config input) := by
  obtain ⟨hsuccesses, hfailures, htransitions⟩ := hcounted
  obtain ⟨op, tick⟩ := input
  have hroom : s.transitions + 2 < 2 ^ 64 := by omega
  have hone : s.transitions + 1 < 2 ^ 64 := by omega
  cases op with
  | success =>
      have hshape := h.countSuccess.maybeTransitionToHalfOpen hconfig tick.now
      have htotal : s.totalSuccesses + 1 < 2 ^ 64 := by omega
      simp only [checkedApply, checkedCountSuccess_eq htotal,
        checkedMaybeTransition_eq (s := s.countSuccess) hone, Option.bind_eq_bind,
        Option.bind_some]
      exact hshape.checkedSettleSuccess_eq hconfig
        (maybeTransition_room (s := s.countSuccess) hroom tick.now)
  | failure =>
      have hshape := h.countFailure.maybeTransitionToHalfOpen hconfig tick.now
      have htotal : s.totalFailures + 1 < 2 ^ 64 := by omega
      simp only [checkedApply, checkedCountFailure_eq htotal,
        checkedMaybeTransition_eq (s := s.countFailure) hone, Option.bind_eq_bind,
        Option.bind_some]
      exact hshape.checkedSettleFailure_eq hconfig
        (maybeTransition_room (s := s.countFailure) hroom tick.now)
  | forceOpen =>
      simp only [checkedApply, checkedTransition_eq hone, Option.bind_eq_bind, Option.bind_some]
      rfl
  | forceClosed =>
      simp only [checkedApply, checkedTransition_eq hone, Option.bind_eq_bind, Option.bind_some]
      rfl

/-! ## Runs -/

variable (config) in
theorem settleSuccess_transitions_le (s : StateMachine) (tick : Tick) :
    (s.settleSuccess config tick).1.transitions ≤ s.transitions + 1 := by
  rcases s.settleSuccess_cases config tick with ⟨-, heq⟩ | ⟨-, heq⟩ | ⟨-, -, heq⟩ | ⟨-, -, heq⟩
  all_goals
    rw [heq]
    simp [succeeded, probed, recovered]

variable (config) in
theorem settleFailure_transitions_le (s : StateMachine) (tick : Tick) :
    (s.settleFailure config tick).1.transitions ≤ s.transitions + 1 := by
  rcases s.settleFailure_cases config tick with
    ⟨-, heq⟩ | ⟨-, -, heq⟩ | ⟨-, -, wait, heq⟩ | ⟨-, wait, heq⟩
  all_goals
    rw [heq]
    simp [failed, tripped]

theorem maybeTransition_transitions_le (s : StateMachine) (now : Nat) :
    (s.maybeTransitionToHalfOpen now).transitions ≤ s.transitions + 1 := by
  by_cases hdue : s.Due now
  · rw [maybeTransitionToHalfOpen_of_due hdue, StateMachine.upgraded]
  · rw [maybeTransitionToHalfOpen_of_not_due hdue]
    exact Nat.le_succ _

variable (config) in
theorem apply_transitions_le (s : StateMachine) (op : Op) (tick : Tick) :
    (s.apply config (op, tick)).1.transitions ≤ s.transitions + 2 := by
  cases op with
  | success =>
      have hupgrade := s.countSuccess.maybeTransition_transitions_le tick.now
      have hsettle := settleSuccess_transitions_le config
        (s.countSuccess.maybeTransitionToHalfOpen tick.now) tick
      exact hsettle.trans (Nat.succ_le_succ hupgrade)
  | failure =>
      have hupgrade := s.countFailure.maybeTransition_transitions_le tick.now
      have hsettle := settleFailure_transitions_le config
        (s.countFailure.maybeTransitionToHalfOpen tick.now) tick
      exact hsettle.trans (Nat.succ_le_succ hupgrade)
  | forceOpen =>
      obtain ⟨wait, heq⟩ := transition_opened_cases config tick s
      change (s.transition .opened config tick).1.transitions ≤ _
      rw [heq, StateMachine.tripped]
      exact Nat.le_succ _
  | forceClosed => exact Nat.le_succ _

theorem CountedBy.apply {n : Nat} (h : CountedBy n s) (input : Op × Tick) :
    CountedBy (n + 1) (s.apply config input).1 := by
  obtain ⟨op, tick⟩ := input
  obtain ⟨hsuccesses, hfailures⟩ := s.apply_totals config op tick
  have htransitions := s.apply_transitions_le config op tick
  have hone : op.outcome.count false ≤ 1 ∧ op.outcome.count true ≤ 1 := by cases op <;> decide
  obtain ⟨hs, hf, ht⟩ := h
  exact ⟨by omega, by omega, by omega⟩

theorem countedBy_new {draw : Draw} (h : new config draw = some s) : CountedBy 0 s := by
  obtain ⟨wait, -, rfl⟩ := new_eq h
  exact ⟨le_rfl, le_rfl, le_rfl⟩

theorem checkedRun_eq (hconfig : config.WellFormed) {draw : Draw} (hnew : new config draw = some s)
    {inputs : List (Op × Tick)} (hlength : inputs.length < 2 ^ 63) :
    execute (checkedStep config) s inputs =
      some (runFrom (StateMachine.apply config) s inputs) := by
  have hstep : ∀ n s input, n < 2 ^ 63 - 1 → (s.Shape config ∧ CountedBy n s) →
      checkedStep config s input = some (s.apply config input).1 ∧
        (s.apply config input).1.Shape config ∧ CountedBy (n + 1) (s.apply config input).1 := by
    rintro n s input hlt ⟨hshape, hcounted⟩
    refine ⟨?_, hshape.apply hconfig input, hcounted.apply input⟩
    rw [checkedStep, hshape.checkedApply_eq hconfig hcounted hlt input]
    rfl
  exact execute_eq_runFrom hstep ⟨shape_new hconfig hnew, countedBy_new hnew⟩ (by omega)

/--
The representation invariant of every machine that a run makes of a new one, and
the absence of overflow that follows from it.
-/
theorem representation (b : CircuitBreakerConfigBuilder arith ε) {draw : Draw}
    (hnew : new b.build draw = some s) (inputs : List (Op × Tick)) :
    Represents b.build (runFrom (StateMachine.apply b.build) s inputs)
        (history b.build s inputs) ∧
      (inputs.length < 2 ^ 63 →
        execute (checkedStep b.build) s inputs =
          some (runFrom (StateMachine.apply b.build) s inputs)) :=
  ⟨represents_run (build_wellFormed b) hnew inputs, checkedRun_eq (build_wellFormed b) hnew⟩

def forcedOutage : List (Op × Tick) :=
  [(.failure, ⟨0, 0, 0⟩), (.failure, ⟨1, 1, 0⟩), (.success, ⟨2, 2, 0⟩), (.failure, ⟨3, 3, 0⟩),
    (.forceOpen, ⟨4, 4, 0⟩), (.forceClosed, ⟨5, 5, 0⟩), (.success, ⟨6, 6, 0⟩)]

theorem representation_forcedOutage :
    ∃ start, new doubleTrigger.build 0 = some start ∧
      Represents doubleTrigger.build
        (runFrom (StateMachine.apply doubleTrigger.build) start forcedOutage)
        (history doubleTrigger.build start forcedOutage) ∧
      execute (checkedStep doubleTrigger.build) start forcedOutage =
        some (runFrom (StateMachine.apply doubleTrigger.build) start forcedOutage) := by
  obtain ⟨hrepresents, hchecked⟩ := @representation _ _ _ doubleTrigger 0 rfl forcedOutage
  exact ⟨_, rfl, hrepresents, hchecked (by decide)⟩

end StateMachine

end Breaker
