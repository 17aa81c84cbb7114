import Breaker.Config.Builder
import Breaker.State.Window

/-!
# The Closed/Open/HalfOpen state machine

A translation of `StateMachine`, operation by operation.  Two things that the
operations take from their surroundings are explicit in a `Tick`: the clock
readings in nanoseconds, of which a transition makes a second one, and the draw
of the jitter generator.  An operation returns the machine it leaves behind together with its
result, which is an error when the computation of a wait panics: the panic
unwinds out of `transition` after the state has been set and before the new wait
is stored.
-/

namespace Breaker

open Foundation

universe u

variable {arith : RateArithmetic} {ε : Type u}

/-- `opened` is `State::Open`; the source's word is a keyword. -/
inductive State where
  | closed
  | opened
  | halfOpen
  deriving DecidableEq, Repr

inductive Panic where
  | durationConversion
  deriving DecidableEq, Repr

/-- What one operation reads: `now` in `elapsed()`, `stamp` in `Instant::now()`. -/
structure Tick where
  now : Nat
  stamp : Nat
  draw : Draw
  deriving DecidableEq, Repr

/--
Readings of a monotonic clock: no operation reads the clock before `start` or
before the operations that precede it.
-/
def Tick.OrderedFrom : Nat → List Tick → Prop
  | _, [] => True
  | start, tick :: ticks =>
      start ≤ tick.now ∧ tick.now ≤ tick.stamp ∧ Tick.OrderedFrom tick.stamp ticks

structure StateMachine where
  current : State
  failureCount : Nat
  successCount : Nat
  totalSuccesses : Nat
  totalFailures : Nat
  transitions : Nat
  openSince : Option Nat
  waitDuration : Duration
  openAttempts : Nat
  window : Window
  deriving DecidableEq, Repr

/-- `saturating_add(1)` on `u32`. -/
def saturatingSucc (n : Nat) : Nat := min (n + 1) (2 ^ 32 - 1)

namespace Tick

theorem OrderedFrom.le_now {start : Nat} {ticks : List Tick} (h : OrderedFrom start ticks) :
    ∀ tick ∈ ticks, start ≤ tick.now := by
  induction ticks generalizing start with
  | nil => simp
  | cons first ticks ih =>
      obtain ⟨hstart, hstamp, hrest⟩ := h
      intro tick htick
      rcases List.mem_cons.mp htick with rfl | htick
      · exact hstart
      · exact (hstart.trans hstamp).trans (ih hrest tick htick)

theorem OrderedFrom.pairwise {start : Nat} {ticks : List Tick} (h : OrderedFrom start ticks) :
    ticks.Pairwise fun a b => a.now ≤ b.now := by
  induction ticks generalizing start with
  | nil => exact .nil
  | cons first ticks ih =>
      obtain ⟨-, hstamp, hrest⟩ := h
      exact .cons (fun tick htick => hstamp.trans (hrest.le_now tick htick)) (ih hrest)

end Tick

namespace StateMachine

/-! ## Operations -/

def fresh (config : CircuitBreakerConfig arith ε) (wait : Duration) : StateMachine where
  current := .closed
  failureCount := 0
  successCount := 0
  totalSuccesses := 0
  totalFailures := 0
  transitions := 0
  openSince := none
  waitDuration := wait
  openAttempts := 0
  window := .new config.slidingWindowSize

/-- The constructor; it panics with the wait of the first attempt. -/
def new (config : CircuitBreakerConfig arith ε) (draw : Draw) : Option StateMachine :=
  (config.backoff.initialWait binary64 draw).map (fresh config)

/--
`current()`, read at `now`.  An `Open` circuit whose wait has elapsed reads as
`HalfOpen`; `elapsed` is zero for a clock before `open_since`.
-/
def currentAt (s : StateMachine) (now : Nat) : State :=
  if s.current = .opened then
    match s.openSince with
    | some openSince =>
        if s.waitDuration.nanos ≤ now - openSince then .halfOpen else s.current
    | none => s.current
  else s.current

def maybeTransitionToHalfOpen (s : StateMachine) (now : Nat) : StateMachine :=
  if s.current = .opened then
    match s.openSince with
    | some openSince =>
        if s.waitDuration.nanos ≤ now - openSince then
          { s with
            current := .halfOpen
            transitions := s.transitions + 1
            failureCount := 0
            successCount := 0
            openSince := none }
        else s
    | none => s
  else s

def transition (s : StateMachine) (next : State) (config : CircuitBreakerConfig arith ε)
    (tick : Tick) : StateMachine × Except Panic Unit :=
  let s := {
    s with
    current := next
    transitions := s.transitions + 1
    failureCount := 0
    successCount := 0 }
  match next with
  | .opened =>
      let s := {
        s with
        openAttempts := saturatingSucc s.openAttempts
        openSince := some tick.stamp }
      match config.backoff.waitFor binary64 s.openAttempts tick.draw with
      | some wait => ({ s with waitDuration := wait }, .ok ())
      -- The panic leaves the wait of the episode before.
      | none => (s, .error .durationConversion)
  | .closed => ({ s with openAttempts := 0, openSince := none, window := s.window.clear }, .ok ())
  | .halfOpen => ({ s with openSince := none }, .ok ())

def shouldTrip (s : StateMachine) (config : CircuitBreakerConfig arith ε) : Bool :=
  if config.consecutiveFailures ≤ s.failureCount then true
  else
    FloatValue.lt (.finite 0) config.failureRateThreshold
      && decide (config.minimumCalls ≤ s.window.filled)
      && FloatValue.le config.failureRateThreshold (s.window.failureRate arith)

def transitionFrom (s : StateMachine) (prev next : State) (config : CircuitBreakerConfig arith ε)
    (tick : Tick) : StateMachine × Except Panic (Option (State × State)) :=
  let (s, result) := s.transition next config tick
  (s, result.map fun _ => some (prev, next))

def succeeded (s : StateMachine) : StateMachine :=
  { s with failureCount := 0, window := s.window.record false }

def probed (s : StateMachine) : StateMachine :=
  { s with successCount := s.successCount + 1 }

/-- `record_success` once the total is counted and a due upgrade applied. -/
def settleSuccess (s : StateMachine) (config : CircuitBreakerConfig arith ε) (tick : Tick) :
    StateMachine × Except Panic (Option (State × State)) :=
  match s.current with
  | .closed => (s.succeeded, .ok none)
  | .halfOpen =>
      if config.successThreshold ≤ s.probed.successCount then
        s.probed.transitionFrom .halfOpen .closed config tick
      else (s.probed, .ok none)
  | .opened => (s, .ok none)

def failed (s : StateMachine) : StateMachine :=
  { s with failureCount := s.failureCount + 1, window := s.window.record true }

def settleFailure (s : StateMachine) (config : CircuitBreakerConfig arith ε) (tick : Tick) :
    StateMachine × Except Panic (Option (State × State)) :=
  match s.current with
  | .closed =>
      if s.failed.shouldTrip config then s.failed.transitionFrom .closed .opened config tick
      else (s.failed, .ok none)
  | .halfOpen => s.transitionFrom .halfOpen .opened config tick
  | .opened => (s, .ok none)

def countSuccess (s : StateMachine) : StateMachine :=
  { s with totalSuccesses := s.totalSuccesses + 1 }

def countFailure (s : StateMachine) : StateMachine :=
  { s with totalFailures := s.totalFailures + 1 }

def recordSuccess (s : StateMachine) (config : CircuitBreakerConfig arith ε) (tick : Tick) :
    StateMachine × Except Panic (Option (State × State)) :=
  (s.countSuccess.maybeTransitionToHalfOpen tick.now).settleSuccess config tick

def recordFailure (s : StateMachine) (config : CircuitBreakerConfig arith ε) (tick : Tick) :
    StateMachine × Except Panic (Option (State × State)) :=
  (s.countFailure.maybeTransitionToHalfOpen tick.now).settleFailure config tick

def forceOpen (s : StateMachine) (config : CircuitBreakerConfig arith ε) (tick : Tick) :
    StateMachine × Except Panic Unit :=
  s.transition .opened config tick

def forceClosed (s : StateMachine) (config : CircuitBreakerConfig arith ε) (tick : Tick) :
    StateMachine × Except Panic Unit :=
  s.transition .closed config tick

/-! ## The lazy upgrade -/

/-- The elapsed test, as both `currentAt` and `maybeTransitionToHalfOpen` make it. -/
def Due (s : StateMachine) (now : Nat) : Prop :=
  s.current = .opened ∧ ∃ since ∈ s.openSince, s.waitDuration.nanos ≤ now - since

instance (s : StateMachine) (now : Nat) : Decidable (s.Due now) := by
  unfold Due
  cases s.openSince with
  | none => exact isFalse (by simp)
  | some since =>
      exact decidable_of_iff (s.current = .opened ∧ s.waitDuration.nanos ≤ now - since) (by simp)

def upgraded (s : StateMachine) : StateMachine :=
  { s with
    current := .halfOpen
    transitions := s.transitions + 1
    failureCount := 0
    successCount := 0
    openSince := none }

variable {s : StateMachine} {now now' : Nat}

theorem maybeTransitionToHalfOpen_of_due (h : s.Due now) :
    s.maybeTransitionToHalfOpen now = s.upgraded := by
  obtain ⟨hopen, since, hsince, hwait⟩ := h
  simp only [Option.mem_def] at hsince
  simp [maybeTransitionToHalfOpen, upgraded, hopen, hsince, hwait]

theorem maybeTransitionToHalfOpen_of_not_due (h : ¬ s.Due now) :
    s.maybeTransitionToHalfOpen now = s := by
  unfold maybeTransitionToHalfOpen
  split_ifs with hopen
  · cases hsince : s.openSince with
    | none => rfl
    | some since =>
        have hwait : ¬ s.waitDuration.nanos ≤ now - since :=
          fun hwait => h ⟨hopen, since, hsince, hwait⟩
        simp [hwait]
  · rfl

/-- The read-only and the mutating elapsed test agree at every instant. -/
theorem currentAt_eq (s : StateMachine) (now : Nat) :
    s.currentAt now = (s.maybeTransitionToHalfOpen now).current := by
  unfold currentAt maybeTransitionToHalfOpen
  split_ifs with hopen
  · cases s.openSince with
    | none => rfl
    | some since =>
        dsimp only
        split_ifs <;> rfl
  · rfl

theorem currentAt_of_due (h : s.Due now) : s.currentAt now = .halfOpen := by
  rw [currentAt_eq, maybeTransitionToHalfOpen_of_due h, upgraded]

theorem currentAt_of_not_due (h : ¬ s.Due now) : s.currentAt now = s.current := by
  rw [currentAt_eq, maybeTransitionToHalfOpen_of_not_due h]

theorem currentAt_of_ne_opened (h : s.current ≠ .opened) (now : Nat) :
    s.currentAt now = s.current :=
  currentAt_of_not_due fun hdue => h hdue.1

theorem Due.mono (h : s.Due now) (hle : now ≤ now') : s.Due now' := by
  obtain ⟨hopen, since, hsince, hwait⟩ := h
  exact ⟨hopen, since, hsince, by omega⟩

theorem currentAt_halfOpen_iff :
    s.currentAt now = .halfOpen ↔ s.current = .halfOpen ∨ s.Due now := by
  by_cases hdue : s.Due now
  · simp [currentAt_of_due hdue, hdue]
  · simp [currentAt_of_not_due hdue, hdue]

theorem currentAt_halfOpen_mono (h : s.currentAt now = .halfOpen) (hle : now ≤ now') :
    s.currentAt now' = .halfOpen := by
  rw [currentAt_halfOpen_iff] at h ⊢
  exact h.imp_right fun hdue => hdue.mono hle

theorem currentAt_closed_iff : s.currentAt now = .closed ↔ s.current = .closed := by
  by_cases hdue : s.Due now
  · simp [currentAt_of_due hdue, hdue.1]
  · simp [currentAt_of_not_due hdue]

theorem currentAt_opened_iff :
    s.currentAt now = .opened ↔ s.current = .opened ∧ ¬ s.Due now := by
  by_cases hdue : s.Due now
  · simp [currentAt_of_due hdue, hdue]
  · simp [currentAt_of_not_due hdue, hdue]

theorem due_iff {since : Nat} (hopen : s.current = .opened) (hsince : s.openSince = some since)
    (hnow : since ≤ now) : s.Due now ↔ since + s.waitDuration.nanos ≤ now := by
  simp only [Due, hopen, hsince, Option.mem_def, Option.some.injEq, exists_eq_left', true_and]
  omega

theorem not_due_of_closed (h : s.current = .closed) (now : Nat) : ¬ s.Due now :=
  fun hdue => by simp [hdue.1] at h

@[simp] theorem countSuccess_due : s.countSuccess.Due now ↔ s.Due now := Iff.rfl

@[simp] theorem countFailure_due : s.countFailure.Due now ↔ s.Due now := Iff.rfl

theorem countSuccess_maybeTransition (s : StateMachine) (now : Nat) :
    s.countSuccess.maybeTransitionToHalfOpen now =
      (s.maybeTransitionToHalfOpen now).countSuccess := by
  by_cases hdue : s.Due now
  · rw [maybeTransitionToHalfOpen_of_due hdue,
      maybeTransitionToHalfOpen_of_due (countSuccess_due.mpr hdue)]
    rfl
  · rw [maybeTransitionToHalfOpen_of_not_due hdue,
      maybeTransitionToHalfOpen_of_not_due (mt countSuccess_due.mp hdue)]

theorem countFailure_maybeTransition (s : StateMachine) (now : Nat) :
    s.countFailure.maybeTransitionToHalfOpen now =
      (s.maybeTransitionToHalfOpen now).countFailure := by
  by_cases hdue : s.Due now
  · rw [maybeTransitionToHalfOpen_of_due hdue,
      maybeTransitionToHalfOpen_of_due (countFailure_due.mpr hdue)]
    rfl
  · rw [maybeTransitionToHalfOpen_of_not_due hdue,
      maybeTransitionToHalfOpen_of_not_due (mt countFailure_due.mp hdue)]

/-! ## Transitions -/

def tripped (s : StateMachine) (stamp : Nat) (wait : Duration) : StateMachine :=
  { s with
    current := .opened
    transitions := s.transitions + 1
    failureCount := 0
    successCount := 0
    openAttempts := saturatingSucc s.openAttempts
    openSince := some stamp
    waitDuration := wait }

def recovered (s : StateMachine) : StateMachine :=
  { s with
    current := .closed
    transitions := s.transitions + 1
    failureCount := 0
    successCount := 0
    openAttempts := 0
    openSince := none
    window := s.window.clear }

variable (config : CircuitBreakerConfig arith ε) (tick : Tick)

/-- The wait of the next trip; `none` when its computation panics. -/
def nextWait (s : StateMachine) : Option Duration :=
  config.backoff.waitFor binary64 (saturatingSucc s.openAttempts) tick.draw

theorem transition_closed (s : StateMachine) :
    s.transition .closed config tick = (s.recovered, .ok ()) := rfl

theorem transition_opened_some {wait : Duration} (h : s.nextWait config tick = some wait) :
    s.transition .opened config tick = (s.tripped tick.stamp wait, .ok ()) := by
  simp only [nextWait] at h
  simp [transition, tripped, h]

theorem transition_opened_none (h : s.nextWait config tick = none) :
    s.transition .opened config tick =
      (s.tripped tick.stamp s.waitDuration, .error .durationConversion) := by
  simp only [nextWait] at h
  simp [transition, tripped, h]

theorem transition_opened_cases (s : StateMachine) :
    ∃ wait, (s.transition .opened config tick).1 = s.tripped tick.stamp wait := by
  cases h : s.nextWait config tick with
  | none => exact ⟨s.waitDuration, by rw [transition_opened_none config tick h]⟩
  | some wait => exact ⟨wait, by rw [transition_opened_some config tick h]⟩

def tripReport (s : StateMachine) (prev : State) : Except Panic (Option (State × State)) :=
  match s.nextWait config tick with
  | some _ => .ok (some (prev, .opened))
  | none => .error .durationConversion

theorem transitionFrom_closed (s : StateMachine) (prev : State) :
    s.transitionFrom prev .closed config tick = (s.recovered, .ok (some (prev, .closed))) := rfl

theorem transitionFrom_opened (s : StateMachine) (prev : State) :
    ∃ wait, s.transitionFrom prev .opened config tick =
      (s.tripped tick.stamp wait, s.tripReport config tick prev) := by
  cases h : s.nextWait config tick with
  | none =>
      exact ⟨s.waitDuration, by
        simp [transitionFrom, transition_opened_none config tick h, tripReport, h, Except.map]⟩
  | some wait =>
      exact ⟨wait, by
        simp [transitionFrom, transition_opened_some config tick h, tripReport, h, Except.map]⟩

/-! ### The stored state after each update -/

@[simp] theorem succeeded_current (s : StateMachine) : s.succeeded.current = s.current := rfl

@[simp] theorem probed_current (s : StateMachine) : s.probed.current = s.current := rfl

@[simp] theorem failed_current (s : StateMachine) : s.failed.current = s.current := rfl

@[simp] theorem upgraded_current (s : StateMachine) : s.upgraded.current = .halfOpen := rfl

@[simp] theorem recovered_current (s : StateMachine) : s.recovered.current = .closed := rfl

@[simp] theorem tripped_current (s : StateMachine) (stamp : Nat) (wait : Duration) :
    (s.tripped stamp wait).current = .opened := rfl

/-! ## Recording, by the state that it finds -/

variable {config tick}

theorem settleSuccess_closed (h : s.current = .closed) :
    s.settleSuccess config tick = (s.succeeded, .ok none) := by
  simp [settleSuccess, h]

theorem settleSuccess_opened (h : s.current = .opened) :
    s.settleSuccess config tick = (s, .ok none) := by
  simp [settleSuccess, h]

theorem settleSuccess_halfOpen_lt (h : s.current = .halfOpen)
    (hlt : s.successCount + 1 < config.successThreshold) :
    s.settleSuccess config tick = (s.probed, .ok none) := by
  simp [settleSuccess, h, probed, not_le.mpr hlt]

theorem settleSuccess_halfOpen_ge (h : s.current = .halfOpen)
    (hge : config.successThreshold ≤ s.successCount + 1) :
    s.settleSuccess config tick = (s.recovered, .ok (some (.halfOpen, .closed))) := by
  simp [settleSuccess, h, probed, hge, transitionFrom_closed, recovered]

theorem settleFailure_opened (h : s.current = .opened) :
    s.settleFailure config tick = (s, .ok none) := by
  simp [settleFailure, h]

theorem settleFailure_halfOpen (h : s.current = .halfOpen) :
    s.settleFailure config tick = s.transitionFrom .halfOpen .opened config tick := by
  simp [settleFailure, h]

theorem settleFailure_closed_stay (h : s.current = .closed)
    (hstay : s.failed.shouldTrip config = false) :
    s.settleFailure config tick = (s.failed, .ok none) := by
  simp [settleFailure, h, hstay]

theorem settleFailure_closed_trip (h : s.current = .closed)
    (htrip : s.failed.shouldTrip config = true) :
    s.settleFailure config tick = s.failed.transitionFrom .closed .opened config tick := by
  simp [settleFailure, h, htrip]

theorem recordSuccess_closed (h : s.current = .closed) (tick : Tick) :
    s.recordSuccess config tick = (s.countSuccess.succeeded, .ok none) := by
  have hclosed : s.countSuccess.current = .closed := h
  rw [recordSuccess, maybeTransitionToHalfOpen_of_not_due (not_due_of_closed hclosed tick.now),
    settleSuccess_closed hclosed]

theorem recordFailure_closed (h : s.current = .closed) (tick : Tick) :
    s.recordFailure config tick = s.countFailure.settleFailure config tick := by
  have hclosed : s.countFailure.current = .closed := h
  rw [recordFailure, maybeTransitionToHalfOpen_of_not_due (not_due_of_closed hclosed tick.now)]

theorem recordFailure_closed_stay (h : s.current = .closed)
    (hstay : s.countFailure.failed.shouldTrip config = false) (tick : Tick) :
    s.recordFailure config tick = (s.countFailure.failed, .ok none) := by
  have hclosed : s.countFailure.current = .closed := h
  rw [recordFailure_closed h, settleFailure_closed_stay hclosed hstay]

theorem recordFailure_closed_trip (h : s.current = .closed)
    (htrip : s.countFailure.failed.shouldTrip config = true) (tick : Tick) :
    s.recordFailure config tick =
      s.countFailure.failed.transitionFrom .closed .opened config tick := by
  have hclosed : s.countFailure.current = .closed := h
  rw [recordFailure_closed h, settleFailure_closed_trip hclosed htrip]

variable (config tick)

theorem settleSuccess_cases (s : StateMachine) :
    (s.current = .closed ∧ s.settleSuccess config tick = (s.succeeded, .ok none)) ∨
    (s.current = .opened ∧ s.settleSuccess config tick = (s, .ok none)) ∨
    (s.current = .halfOpen ∧ s.successCount + 1 < config.successThreshold ∧
      s.settleSuccess config tick = (s.probed, .ok none)) ∨
    (s.current = .halfOpen ∧ config.successThreshold ≤ s.successCount + 1 ∧
      s.settleSuccess config tick = (s.recovered, .ok (some (.halfOpen, .closed)))) := by
  cases h : s.current with
  | closed => exact .inl ⟨rfl, settleSuccess_closed h⟩
  | opened => exact .inr (.inl ⟨rfl, settleSuccess_opened h⟩)
  | halfOpen =>
      by_cases hlt : s.successCount + 1 < config.successThreshold
      · exact .inr (.inr (.inl ⟨rfl, hlt, settleSuccess_halfOpen_lt h hlt⟩))
      · exact .inr (.inr (.inr ⟨rfl, not_lt.mp hlt, settleSuccess_halfOpen_ge h (not_lt.mp hlt)⟩))

theorem settleFailure_cases (s : StateMachine) :
    (s.current = .opened ∧ s.settleFailure config tick = (s, .ok none)) ∨
    (s.current = .closed ∧ s.failed.shouldTrip config = false ∧
      s.settleFailure config tick = (s.failed, .ok none)) ∨
    (s.current = .closed ∧ s.failed.shouldTrip config = true ∧
      ∃ wait, s.settleFailure config tick =
        (s.failed.tripped tick.stamp wait, s.failed.tripReport config tick .closed)) ∨
    (s.current = .halfOpen ∧
      ∃ wait, s.settleFailure config tick =
        (s.tripped tick.stamp wait, s.tripReport config tick .halfOpen)) := by
  cases h : s.current with
  | opened => exact .inl ⟨rfl, settleFailure_opened h⟩
  | halfOpen =>
      rw [settleFailure_halfOpen h]
      exact .inr (.inr (.inr ⟨rfl, transitionFrom_opened config tick s .halfOpen⟩))
  | closed =>
      cases htrip : s.failed.shouldTrip config with
      | false => exact .inr (.inl ⟨rfl, rfl, settleFailure_closed_stay h htrip⟩)
      | true =>
          rw [settleFailure_closed_trip h htrip]
          exact .inr (.inr (.inl ⟨rfl, rfl, transitionFrom_opened config tick s.failed .closed⟩))

end StateMachine

end Breaker
