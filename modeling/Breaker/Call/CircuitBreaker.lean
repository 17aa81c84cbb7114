import Breaker.State.Reachable

/-!
# The circuit breaker, used by one client

`CircuitBreaker` is the shared part of a breaker: its machine, its permit
counter and the invocations of its callback so far.  The operations of this
module run from start to end without interference.  `call` is the code's async
function driven to completion; what the operation does to the world is a
function of the state of that world, once when it is called and once when its
future is awaited.  When a configured timeout drops the future is up to a rule
that is a parameter.
-/

namespace Breaker

open Foundation

universe u

variable {arith : RateArithmetic} {ε : Type u}

structure CircuitBreaker where
  state : StateMachine
  halfOpenPermits : Nat
  callbacks : List (State × State)
  deriving DecidableEq, Repr

namespace CircuitBreaker

variable (config : CircuitBreakerConfig arith ε)

def new (draw : Draw) : Option CircuitBreaker :=
  (StateMachine.new config draw).map fun state =>
    { state := state, halfOpenPermits := 0, callbacks := [] }

/-! ## Recording and forcing -/

def fireCallback (b : CircuitBreaker) (prev next : State) : CircuitBreaker :=
  { b with callbacks := b.callbacks ++ [(prev, next)] }

/-- Store the machine that an operation left behind and announce its pair, if it returned one. -/
def announce (b : CircuitBreaker)
    (step : StateMachine × Except Panic (Option (State × State))) :
    CircuitBreaker × Except Panic Unit :=
  let b := { b with state := step.1 }
  match step.2 with
  | .ok (some (prev, next)) => (b.fireCallback prev next, .ok ())
  | .ok none => (b, .ok ())
  | .error panic => (b, .error panic)

def recordSuccess (b : CircuitBreaker) (tick : Tick) : CircuitBreaker × Except Panic Unit :=
  b.announce (b.state.recordSuccess config tick)

def recordFailure (b : CircuitBreaker) (tick : Tick) : CircuitBreaker × Except Panic Unit :=
  b.announce (b.state.recordFailure config tick)

def trip (b : CircuitBreaker) (tick : Tick) : CircuitBreaker × Except Panic Unit :=
  let prev := b.state.currentAt tick.now
  b.announce (StateMachine.forced prev .opened (b.state.forceOpen config tick))

def reset (b : CircuitBreaker) (tick : Tick) : CircuitBreaker × Except Panic Unit :=
  let prev := b.state.currentAt tick.now
  b.announce (StateMachine.forced prev .closed (b.state.forceClosed config tick))

def apply (b : CircuitBreaker) (input : Op × Tick) : CircuitBreaker × Except Panic Unit :=
  match input.1 with
  | .success => b.recordSuccess config input.2
  | .failure => b.recordFailure config input.2
  | .forceOpen => b.trip config input.2
  | .forceClosed => b.reset config input.2

theorem announce_state (b : CircuitBreaker)
    (step : StateMachine × Except Panic (Option (State × State))) :
    (b.announce step).1.state = step.1 := by
  unfold announce
  dsimp only
  split <;> rfl

theorem announce_result (b : CircuitBreaker)
    (step : StateMachine × Except Panic (Option (State × State))) :
    (b.announce step).2 = step.2.map fun _ => () := by
  unfold announce
  dsimp only
  split <;> simp [*, Except.map]

theorem apply_eq_announce (b : CircuitBreaker) (input : Op × Tick) :
    b.apply config input = b.announce (b.state.apply config input) := by
  obtain ⟨op, tick⟩ := input
  cases op <;> rfl

theorem apply_state (b : CircuitBreaker) (input : Op × Tick) :
    (b.apply config input).1.state = (b.state.apply config input).1 := by
  rw [apply_eq_announce, announce_state]

/-! ## Calls -/

/-- `CircuitBreakerError`. -/
inductive CallError (E : Type*) where
  | circuitOpen
  | rejected
  | failure (err : E)
  | timeout
  deriving DecidableEq, Repr

/--
The rule of `timeout`: when it drops a future that takes so many nanoseconds, if
it does.  A future that is ready is polled before the timer is, and every limit
is exceeded by some future.
-/
structure TimeoutRule where
  elapses : Duration → Nat → Option Nat
  ready : ∀ limit, elapses limit 0 = none
  overrun : ∀ limit, ∃ takes instant, elapses limit takes = some instant

/-- A timer that fires at the first whole millisecond at or after the limit. -/
def TimeoutRule.millis : TimeoutRule where
  elapses limit takes :=
    let expiry := (limit.nanos + 999999) / 1000000 * 1000000
    if expiry < takes then some expiry else none
  ready limit := by simp
  overrun limit := ⟨(limit.nanos + 999999) / 1000000 * 1000000 + 1, _, if_pos (Nat.lt_succ_self _)⟩

/--
The future of an operation on a world of type `σ`: how long it takes, what it
does to the world when it completes, and what it has done by the instant at which
it is dropped.
-/
structure Future (σ T E : Type*) where
  takes : Nat
  run : σ → σ × Except E T
  dropAt : Nat → σ → σ

/-- Await under an optional timeout; `none` is the timeout. -/
def Future.await {σ T E : Type*} (fut : Future σ T E) (rule : TimeoutRule)
    (callTimeout : Option Duration) (world : σ) : σ × Option (Except E T) :=
  match callTimeout with
  | some limit =>
      match rule.elapses limit fut.takes with
      | some instant => (fut.dropAt instant world, none)
      | none => ((fut.run world).1, some (fut.run world).2)
  | none => ((fut.run world).1, some (fut.run world).2)

inductive Admission where
  | circuitOpen
  | rejected
  | admitted (permit : Bool)
  deriving DecidableEq, Repr

/-- `HalfOpenPermit::acquire`, run without interference. -/
def acquire (permits maxCalls : Nat) : Option Nat :=
  if maxCalls ≤ permits then none else some (permits + 1)

def admission (b : CircuitBreaker) (now : Nat) : CircuitBreaker × Admission :=
  match b.state.currentAt now with
  | .opened => (b, .circuitOpen)
  | .halfOpen =>
      match acquire b.halfOpenPermits config.halfOpenMaxCalls with
      | some permits => ({ b with halfOpenPermits := permits }, .admitted true)
      | none => (b, .rejected)
  | .closed => (b, .admitted false)

theorem admission_cases (b : CircuitBreaker) (now : Nat) :
    (b.state.currentAt now = .opened ∧ b.admission config now = (b, .circuitOpen)) ∨
    (b.state.currentAt now = .halfOpen ∧ config.halfOpenMaxCalls ≤ b.halfOpenPermits ∧
      b.admission config now = (b, .rejected)) ∨
    (b.state.currentAt now = .halfOpen ∧ b.halfOpenPermits < config.halfOpenMaxCalls ∧
      b.admission config now =
        ({ b with halfOpenPermits := b.halfOpenPermits + 1 }, .admitted true)) ∨
    (b.state.currentAt now = .closed ∧ b.admission config now = (b, .admitted false)) := by
  unfold admission acquire
  cases b.state.currentAt now with
  | opened => simp
  | closed => simp
  | halfOpen =>
      by_cases hfull : config.halfOpenMaxCalls ≤ b.halfOpenPermits
      · simp [hfull]
      · simp [hfull, not_le.mp hfull]

def Admits (b : CircuitBreaker) (now : Nat) : Prop :=
  b.state.currentAt now = .closed ∨
    (b.state.currentAt now = .halfOpen ∧ b.halfOpenPermits < config.halfOpenMaxCalls)

instance (b : CircuitBreaker) (now : Nat) : Decidable (Admits config b now) :=
  inferInstanceAs (Decidable (_ ∨ _))

def release (b : CircuitBreaker) (permit : Bool) : CircuitBreaker :=
  if permit then { b with halfOpenPermits := b.halfOpenPermits - 1 } else b

section Call

variable {σ T E : Type*}

def settle (b : CircuitBreaker) (erase : E → ε) (tick : Tick) (stepped : Option (Except E T)) :
    CircuitBreaker × Except Panic (Except (CallError E) T) :=
  match stepped with
  | none =>
      let (b, result) := b.recordFailure config tick
      (b, result.map fun _ => .error .timeout)
  | some (.ok value) =>
      let (b, result) := b.recordSuccess config tick
      (b, result.map fun _ => .ok value)
  | some (.error err) =>
      if config.isBreakerFailure (erase err) then
        let (b, result) := b.recordFailure config tick
        (b, result.map fun _ => .error (.failure err))
      else (b, .ok (.error (.failure err)))

structure Readings where
  admission : Nat
  record : Tick
  deriving DecidableEq, Repr

structure Driven (σ T E : Type*) where
  breaker : CircuitBreaker
  world : σ
  answer : Except Panic (Except (CallError E) T)

/-- An admitted call; its guard is dropped on every way out, an unwinding one included. -/
def finish (b : CircuitBreaker) (rule : TimeoutRule) (erase : E → ε) (permit : Bool) (tick : Tick)
    (operation : σ → σ × Future σ T E) (world : σ) : Driven σ T E :=
  let (world, fut) := operation world
  let (world, stepped) := fut.await rule config.callTimeout world
  let (b, answer) := b.settle config erase tick stepped
  ⟨b.release permit, world, answer⟩

def call (b : CircuitBreaker) (rule : TimeoutRule) (erase : E → ε) (readings : Readings)
    (operation : σ → σ × Future σ T E) (world : σ) : Driven σ T E :=
  match b.admission config readings.admission with
  | (b, .circuitOpen) => ⟨b, world, .ok (.error .circuitOpen)⟩
  | (b, .rejected) => ⟨b, world, .ok (.error .rejected)⟩
  | (b, .admitted permit) => b.finish config rule erase permit readings.record operation world

def Refused (answer : Except Panic (Except (CallError E) T)) : Prop :=
  answer = .ok (.error .circuitOpen) ∨ answer = .ok (.error .rejected)

variable {config} {rule : TimeoutRule} {erase : E → ε} {b : CircuitBreaker} {readings : Readings}

theorem call_of_not_admits (h : ¬ Admits config b readings.admission) :
    ∃ answer, Refused answer ∧ ∀ (operation : σ → σ × Future σ T E) (world : σ),
      b.call config rule erase readings operation world = ⟨b, world, answer⟩ := by
  unfold call
  rcases b.admission_cases config readings.admission with
    ⟨-, heq⟩ | ⟨-, -, heq⟩ | ⟨hcurrent, hlt, -⟩ | ⟨hcurrent, -⟩
  · exact ⟨_, .inl rfl, fun _ _ => by rw [heq]⟩
  · exact ⟨_, .inr rfl, fun _ _ => by rw [heq]⟩
  · exact absurd (.inr ⟨hcurrent, hlt⟩) h
  · exact absurd (.inl hcurrent) h

theorem call_of_admits (h : Admits config b readings.admission) :
    ∃ b' permit, b.admission config readings.admission = (b', .admitted permit) ∧
      ∀ (operation : σ → σ × Future σ T E) (world : σ),
        b.call config rule erase readings operation world =
          b'.finish config rule erase permit readings.record operation world := by
  unfold call
  rcases b.admission_cases config readings.admission with
    ⟨hcurrent, -⟩ | ⟨hcurrent, hfull, -⟩ | ⟨-, -, heq⟩ | ⟨-, heq⟩
  · simp [Admits, hcurrent] at h
  · simp [Admits, hcurrent, not_lt.mpr hfull] at h
  · exact ⟨_, _, heq, fun _ _ => by rw [heq]⟩
  · exact ⟨_, _, heq, fun _ _ => by rw [heq]⟩

theorem settle_not_refused (b : CircuitBreaker) (tick : Tick) (stepped : Option (Except E T)) :
    ¬ Refused (b.settle config erase tick stepped).2 := by
  have hmap : ∀ (result : Except Panic Unit) (answer : Except (CallError E) T),
      answer ≠ .error .circuitOpen → answer ≠ .error .rejected →
      ¬ Refused (result.map fun _ => answer) := by
    intro result answer hopen hrejected
    cases result <;> simp [Refused, Except.map, hopen, hrejected]
  unfold settle
  rcases stepped with _ | (err | value)
  · exact hmap _ _ (by simp) (by simp)
  · dsimp only
    split
    · exact hmap _ _ (by simp) (by simp)
    · simp [Refused]
  · exact hmap _ _ (by simp) (by simp)

theorem refused_iff (operation : σ → σ × Future σ T E) (world : σ) :
    Refused (b.call config rule erase readings operation world).answer ↔
      ¬ Admits config b readings.admission := by
  by_cases h : Admits config b readings.admission
  · obtain ⟨b', permit, -, hcall⟩ := call_of_admits (E := E) (T := T) (σ := σ) h
    rw [hcall]
    simp only [h, not_true_eq_false, iff_false]
    exact settle_not_refused b' readings.record _
  · obtain ⟨answer, hrefused, hcall⟩ :=
      call_of_not_admits (E := E) (T := T) (σ := σ) h
    rw [hcall]
    simp [h, hrefused]

end Call

end CircuitBreaker

end Breaker
