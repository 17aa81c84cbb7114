import Breaker.Call.CircuitBreaker

/-!
# Transitions and their announcements

`Announced` is the law of the callback: one invocation for each transition, and
the announced pairs chain from `Closed` to the stored state.  An operation breaks
it for good in two ways.  One that finds the wait of an `Open` circuit elapsed
replaces a state that has never been announced; and one whose wait panics
unwinds between its transition and its announcement.  `Prompt` excludes both.
-/

namespace Breaker

open Foundation

universe u

variable {arith : RateArithmetic} {ε : Type u}

/-- The pairs lead from `start` to `last`. -/
def Chained : State → List (State × State) → State → Prop
  | start, [], last => start = last
  | start, (prev, next) :: pairs, last => prev = start ∧ Chained next pairs last

theorem chained_concat {start last : State} {pairs : List (State × State)}
    {pair : State × State} :
    Chained start (pairs ++ [pair]) last ↔ Chained start pairs pair.1 ∧ pair.2 = last := by
  induction pairs generalizing start with
  | nil => simp [Chained, eq_comm]
  | cons first pairs ih => simp [Chained, ih, and_assoc]

theorem Chained.unique {start last last' : State} {pairs : List (State × State)}
    (h : Chained start pairs last) (h' : Chained start pairs last') : last = last' := by
  induction pairs generalizing start with
  | nil => exact h.symm.trans h'
  | cons first pairs ih => exact ih h.2 h'.2

/-! ## What one operation announces -/

namespace StateMachine

def announcements : Except Panic (Option (State × State)) → List (State × State)
  | .ok (some pair) => [pair]
  | .ok none => []
  | .error _ => []

/-- The step makes no transition and announces nothing, or it makes and announces one. -/
def Reports (s : StateMachine)
    (step : StateMachine × Except Panic (Option (State × State))) : Prop :=
  (announcements step.2 = [] ∧ step.1.transitions = s.transitions ∧
      step.1.current = s.current) ∨
    (announcements step.2 = [(s.current, step.1.current)] ∧
      step.1.transitions = s.transitions + 1)

/-- The step makes more transitions than it announces. -/
def Silent (s : StateMachine)
    (step : StateMachine × Except Panic (Option (State × State))) : Prop :=
  s.transitions + (announcements step.2).length < step.1.transitions

variable {config : CircuitBreakerConfig arith ε} {s : StateMachine}

theorem Reports.length {step : StateMachine × Except Panic (Option (State × State))}
    (h : Reports s step) :
    s.transitions + (announcements step.2).length = step.1.transitions := by
  rcases h with ⟨hnone, hcount, -⟩ | ⟨hone, hcount⟩
  · simp [hnone, hcount]
  · simp [hone, hcount]

theorem silent_of_upgraded {step : StateMachine × Except Panic (Option (State × State))}
    (h : Reports s.upgraded step ∨ Silent s.upgraded step) : Silent s step := by
  have hupgraded : s.upgraded.transitions = s.transitions + 1 := rfl
  rcases h with h | h
  · have := h.length
    unfold Silent
    omega
  · unfold Silent at h ⊢
    omega

theorem reports_tripped {tick : Tick} (h : (s.nextWait config tick).isSome) (wait : Duration) :
    Reports s (s.tripped tick.stamp wait, s.tripReport config tick s.current) := by
  obtain ⟨next, hnext⟩ := Option.isSome_iff_exists.mp h
  right
  simp [tripReport, hnext, announcements, tripped]

theorem silent_tripped {tick : Tick} (h : s.nextWait config tick = none) (prev : State)
    (wait : Duration) : Silent s (s.tripped tick.stamp wait, s.tripReport config tick prev) := by
  simp [Silent, tripReport, h, announcements, tripped]

theorem reports_settleSuccess (s : StateMachine) (tick : Tick) :
    Reports s (s.settleSuccess config tick) := by
  rcases s.settleSuccess_cases config tick with
    ⟨-, heq⟩ | ⟨-, heq⟩ | ⟨-, -, heq⟩ | ⟨hcurrent, -, heq⟩
  · rw [heq]
    exact .inl ⟨rfl, rfl, rfl⟩
  · rw [heq]
    exact .inl ⟨rfl, rfl, rfl⟩
  · rw [heq]
    exact .inl ⟨rfl, rfl, rfl⟩
  · rw [heq]
    exact .inr ⟨by simp [announcements, hcurrent], rfl⟩

theorem reports_settleFailure {tick : Tick}
    (h : s.current ≠ .opened → (s.nextWait config tick).isSome) :
    Reports s (s.settleFailure config tick) := by
  rcases s.settleFailure_cases config tick with
    ⟨-, heq⟩ | ⟨-, -, heq⟩ | ⟨hcurrent, -, wait, heq⟩ | ⟨hcurrent, wait, heq⟩
  · rw [heq]
    exact .inl ⟨rfl, rfl, rfl⟩
  · rw [heq]
    exact .inl ⟨rfl, rfl, rfl⟩
  · rw [heq, ← hcurrent]
    exact reports_tripped (s := s.failed) (h (by simp [hcurrent])) wait
  · rw [heq, ← hcurrent]
    exact reports_tripped (h (by simp [hcurrent])) wait

theorem silent_settleFailure {tick : Tick} (hcurrent : s.current = .halfOpen)
    (h : s.nextWait config tick = none) : Silent s (s.settleFailure config tick) := by
  rw [settleFailure_halfOpen hcurrent]
  obtain ⟨wait, heq⟩ := transitionFrom_opened config tick s .halfOpen
  rw [heq]
  exact silent_tripped h .halfOpen wait

/-! ## Prompt operations -/

def ComputesWait (s : StateMachine) (op : Op) : Prop :=
  op = .forceOpen ∨ op = .failure ∧ s.current = .halfOpen

/--
The operation finds the circuit in a state that has been announced, and the
wait that it may have to compute does not panic.
-/
structure Prompt (config : CircuitBreakerConfig arith ε) (s : StateMachine) (input : Op × Tick) :
    Prop where
  not_due : ¬ s.Due input.2.now
  computed : s.ComputesWait input.1 → (s.nextWait config input.2).isSome

instance (s : StateMachine) (op : Op) : Decidable (s.ComputesWait op) :=
  inferInstanceAs (Decidable (_ ∨ _))

instance (config : CircuitBreakerConfig arith ε) (s : StateMachine) (input : Op × Tick) :
    Decidable (Prompt config s input) :=
  decidable_of_iff
    (¬ s.Due input.2.now ∧ (s.ComputesWait input.1 → (s.nextWait config input.2).isSome))
    ⟨fun ⟨hdue, hwait⟩ => ⟨hdue, hwait⟩, fun ⟨hdue, hwait⟩ => ⟨hdue, hwait⟩⟩

theorem Prompt.reports (hconfig : config.WellFormed) (hreach : Reachable config s)
    {input : Op × Tick} (h : Prompt config s input) : Reports s (s.apply config input) := by
  obtain ⟨op, tick⟩ := input
  cases op with
  | success =>
      have hstep : s.apply config (.success, tick) = s.countSuccess.settleSuccess config tick := by
        rw [apply, recordSuccess,
          maybeTransitionToHalfOpen_of_not_due (mt countSuccess_due.mp h.not_due)]
      rw [hstep]
      exact reports_settleSuccess s.countSuccess tick
  | failure =>
      have hstep : s.apply config (.failure, tick) = s.countFailure.settleFailure config tick := by
        rw [apply, recordFailure,
          maybeTransitionToHalfOpen_of_not_due (mt countFailure_due.mp h.not_due)]
      rw [hstep]
      refine reports_settleFailure (s := s.countFailure) fun hne => ?_
      cases hcurrent : s.current with
      | closed => exact hreach.nextWait_isSome ((hreach.shape hconfig).closed hcurrent).1 tick
      | opened => exact absurd hcurrent hne
      | halfOpen => exact h.computed (.inr ⟨rfl, hcurrent⟩)
  | forceOpen =>
      obtain ⟨wait, hwait⟩ := Option.isSome_iff_exists.mp (h.computed (.inl rfl))
      right
      simp [apply, forceOpen, forced, transition_opened_some config tick hwait, Except.map,
        announcements, currentAt_of_not_due h.not_due, tripped]
  | forceClosed =>
      right
      simp [apply, forceClosed, forced, transition_closed, Except.map, announcements,
        currentAt_of_not_due h.not_due, recovered]

def Breaks (s : StateMachine)
    (step : StateMachine × Except Panic (Option (State × State))) : Prop :=
  s.current = .opened ∧ step.1.transitions = s.transitions + 1 ∧
    ∃ next, announcements step.2 = [(.halfOpen, next)]

theorem lost_of_due {input : Op × Tick} (h : s.Due input.2.now) :
    Silent s (s.apply config input) ∨ Breaks s (s.apply config input) := by
  obtain ⟨op, tick⟩ := input
  cases op with
  | success =>
      left
      rw [apply, recordSuccess, maybeTransitionToHalfOpen_of_due (countSuccess_due.mpr h)]
      exact silent_of_upgraded (s := s.countSuccess)
        (.inl (reports_settleSuccess s.countSuccess.upgraded tick))
  | failure =>
      left
      rw [apply, recordFailure, maybeTransitionToHalfOpen_of_due (countFailure_due.mpr h)]
      apply silent_of_upgraded (s := s.countFailure)
      cases hwait : s.nextWait config tick with
      | none => exact .inr (silent_settleFailure rfl hwait)
      | some wait =>
          refine .inl (reports_settleFailure fun _ => ?_)
          exact Option.isSome_iff_exists.mpr ⟨wait, hwait⟩
  | forceOpen =>
      cases hwait : s.nextWait config tick with
      | none =>
          left
          simp [Silent, apply, forceOpen, forced, transition_opened_none config tick hwait,
            Except.map, announcements, tripped]
      | some wait =>
          right
          simp [Breaks, apply, forceOpen, forced, transition_opened_some config tick hwait,
            Except.map, announcements, currentAt_of_due h, tripped, h.1]
  | forceClosed =>
      right
      simp [Breaks, apply, forceClosed, forced, transition_closed, Except.map, announcements,
        currentAt_of_due h, recovered, h.1]

theorem lost_of_not_prompt {input : Op × Tick} (h : ¬ Prompt config s input) :
    Silent s (s.apply config input) ∨ Breaks s (s.apply config input) := by
  by_cases hdue : s.Due input.2.now
  · exact lost_of_due hdue
  · left
    have hwait : s.ComputesWait input.1 ∧ s.nextWait config input.2 = none := by
      by_contra hcomputed
      refine h ⟨hdue, fun hneeds => ?_⟩
      rw [Option.isSome_iff_ne_none]
      exact fun hnone => hcomputed ⟨hneeds, hnone⟩
    obtain ⟨op, tick⟩ := input
    rcases hwait with ⟨hop | ⟨hop, hcurrent⟩, hnone⟩
    · dsimp only at hop
      subst hop
      simp [Silent, apply, forceOpen, forced, transition_opened_none config tick hnone,
        Except.map, announcements, tripped]
    · dsimp only at hop
      subst hop
      rw [apply, recordFailure,
        maybeTransitionToHalfOpen_of_not_due (mt countFailure_due.mp hdue)]
      exact silent_settleFailure (s := s.countFailure) hcurrent hnone

end StateMachine

/-! ## The callback along a run -/

namespace CircuitBreaker

open StateMachine

/-- One invocation for each transition, chained from `Closed` to the stored state. -/
def Announced (b : CircuitBreaker) : Prop :=
  b.callbacks.length = b.state.transitions ∧ Chained .closed b.callbacks b.state.current

def Lost (b : CircuitBreaker) : Prop :=
  b.callbacks.length < b.state.transitions ∨ ∀ last, ¬ Chained .closed b.callbacks last

variable (config : CircuitBreakerConfig arith ε)

def AlwaysPrompt : CircuitBreaker → List (Op × Tick) → Prop
  | _, [] => True
  | b, input :: inputs =>
      Prompt config b.state input ∧ AlwaysPrompt (b.apply config input).1 inputs

instance decidableAlwaysPrompt (config : CircuitBreakerConfig arith ε) :
    ∀ (b : CircuitBreaker) (inputs : List (Op × Tick)), Decidable (AlwaysPrompt config b inputs)
  | _, [] => isTrue trivial
  | b, input :: inputs =>
      have := decidableAlwaysPrompt config (b.apply config input).1 inputs
      inferInstanceAs (Decidable (_ ∧ _))

variable {config} {b : CircuitBreaker}

theorem Lost.not_announced (h : Lost b) : ¬ Announced b := by
  rintro ⟨hlength, hchain⟩
  rcases h with hlt | hbroken
  · omega
  · exact hbroken _ hchain

theorem apply_callbacks (b : CircuitBreaker) (input : Op × Tick) :
    (b.apply config input).1.callbacks =
      b.callbacks ++ announcements (b.state.apply config input).2 := by
  rw [apply_eq_announce, announce]
  split <;> simp_all [announcements, fireCallback]

theorem transitions_le (hconfig : config.WellFormed) (hreach : Reachable config b.state)
    (input : Op × Tick) :
    b.state.transitions + (announcements (b.state.apply config input).2).length ≤
      (b.state.apply config input).1.transitions := by
  by_cases hprompt : Prompt config b.state input
  · exact (hprompt.reports hconfig hreach).length.le
  · rcases lost_of_not_prompt hprompt with hsilent | ⟨-, hcount, next, hone⟩
    · exact hsilent.le
    · simp [hone, hcount]

theorem Lost.apply (hconfig : config.WellFormed) (hreach : Reachable config b.state)
    (h : Lost b) (input : Op × Tick) : Lost (b.apply config input).1 := by
  rw [Lost, apply_state, apply_callbacks]
  rcases h with hlt | hbroken
  · left
    have := transitions_le hconfig hreach input
    rw [List.length_append]
    omega
  · right
    intro last hchain
    rcases hresult : (b.state.apply config input).2 with panic | (_ | pair)
    · exact hbroken last (by simpa [hresult, announcements] using hchain)
    · exact hbroken last (by simpa [hresult, announcements] using hchain)
    · rw [hresult, announcements, chained_concat] at hchain
      exact hbroken _ hchain.1

theorem Announced.apply_prompt (hconfig : config.WellFormed)
    (hreach : Reachable config b.state) (h : Announced b) {input : Op × Tick}
    (hprompt : Prompt config b.state input) : Announced (b.apply config input).1 := by
  rw [Announced, apply_state, apply_callbacks]
  rcases hprompt.reports hconfig hreach with ⟨hnone, hcount, hcurrent⟩ | ⟨hone, hcount⟩
  · rw [hnone, hcount, hcurrent, List.append_nil]
    exact h
  · rw [hone, hcount, chained_concat, List.length_append, List.length_singleton]
    exact ⟨by rw [h.1], h.2, rfl⟩

theorem Announced.apply_not_prompt (h : Announced b) {input : Op × Tick}
    (hprompt : ¬ Prompt config b.state input) : Lost (b.apply config input).1 := by
  rw [Lost, apply_state, apply_callbacks]
  rcases lost_of_not_prompt hprompt with hsilent | ⟨hcurrent, -, next, hone⟩
  · left
    rw [List.length_append, h.1]
    exact hsilent
  · right
    intro last hchain
    rw [hone, chained_concat] at hchain
    have heq := h.2.unique hchain.1
    rw [hcurrent] at heq
    cases heq

theorem Lost.run (hconfig : config.WellFormed) (hreach : Reachable config b.state)
    (h : Lost b) (inputs : List (Op × Tick)) :
    Lost (runFrom (CircuitBreaker.apply config) b inputs) := by
  induction inputs generalizing b with
  | nil => exact h
  | cons input inputs ih =>
      refine ih ?_ (h.apply hconfig hreach input)
      rw [apply_state]
      exact hreach.apply input

theorem Announced.run_iff (hconfig : config.WellFormed) (hreach : Reachable config b.state)
    (h : Announced b) (inputs : List (Op × Tick)) :
    Announced (runFrom (CircuitBreaker.apply config) b inputs) ↔
      AlwaysPrompt config b inputs := by
  induction inputs generalizing b with
  | nil => simpa [AlwaysPrompt] using h
  | cons input inputs ih =>
      have hreach' : Reachable config (b.apply config input).1.state := by
        rw [apply_state]
        exact hreach.apply input
      rw [runFrom_cons, AlwaysPrompt]
      by_cases hprompt : Prompt config b.state input
      · simp only [hprompt, true_and]
        exact ih hreach' (h.apply_prompt hconfig hreach hprompt)
      · -- What is lost stays lost, however prompt the rest of the run is.
        simp only [hprompt, false_and, iff_false]
        have hlost : Lost (b.apply config input).1 := h.apply_not_prompt hprompt
        exact (hlost.run hconfig hreach' inputs).not_announced

theorem new_state {draw : Draw} (h : new config draw = some b) :
    StateMachine.new config draw = some b.state ∧ b.callbacks = [] ∧ b.halfOpenPermits = 0 := by
  obtain ⟨s, hnew, rfl⟩ := Option.map_eq_some_iff.mp h
  exact ⟨hnew, rfl, rfl⟩

theorem announced_new {draw : Draw} (h : new config draw = some b) : Announced b := by
  obtain ⟨hnew, hcallbacks, -⟩ := new_state h
  obtain ⟨wait, -, hstate⟩ := new_eq hnew
  rw [Announced, hcallbacks, ← hstate]
  exact ⟨rfl, rfl⟩

theorem reachable_new {draw : Draw} (h : new config draw = some b) :
    Reachable config b.state :=
  ⟨draw, b.state, (new_state h).1, .refl _⟩

/--
The callback of a new breaker keeps up with its transitions over a run, at any
readings of the clock, if and only if every operation of the run is prompt.
-/
theorem announced_iff_prompt (builder : CircuitBreakerConfigBuilder arith ε) {draw : Draw}
    (hnew : new builder.build draw = some b) (inputs : List (Op × Tick)) :
    Announced (runFrom (apply builder.build) b inputs) ↔
      AlwaysPrompt builder.build b inputs :=
  (announced_new hnew).run_iff (build_wellFormed builder) (reachable_new hnew) inputs

def hairTriggerBreaker : CircuitBreaker where
  state := fresh hairTrigger.build (.fromNanos 1)
  halfOpenPermits := 0
  callbacks := []

def promptRun : List (Op × Tick) :=
  [(.failure, ⟨0, 0, 0⟩), (.success, ⟨0, 0, 0⟩), (.forceClosed, ⟨0, 0, 0⟩),
    (.success, ⟨1, 1, 0⟩), (.forceOpen, ⟨2, 2, 0⟩), (.forceOpen, ⟨2, 2, 0⟩),
    (.forceClosed, ⟨2, 2, 0⟩)]

theorem announced_iff_prompt_promptRun :
    Announced (runFrom (apply hairTrigger.build) hairTriggerBreaker promptRun) := by
  have hnew : new hairTrigger.build 0 = some hairTriggerBreaker := rfl
  exact (announced_iff_prompt hairTrigger hnew promptRun).mpr (by decide)

/-- A failure trips the circuit; the success after the wait makes two transitions. -/
theorem announced_lateSuccess :
    ¬ ∀ (builder : CircuitBreakerConfigBuilder .single Unit) (draw : Draw) (b : CircuitBreaker)
      (inputs : List (Op × Tick)), new builder.build draw = some b →
      Tick.OrderedFrom 0 (inputs.map Prod.snd) →
      Announced (runFrom (apply builder.build) b inputs) := by
  intro hlaw
  have hannounced := hlaw hairTrigger 0 hairTriggerBreaker
    [(.failure, ⟨0, 0, 0⟩), (.success, ⟨1, 1, 0⟩)] rfl (by simp [Tick.OrderedFrom])
  have hlength := hannounced.1
  revert hlength
  decide

end CircuitBreaker

end Breaker
