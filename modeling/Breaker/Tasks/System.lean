import Breaker.Foundation.Pool
import Breaker.State.Reachable

/-!
# Concurrent tasks on one breaker

Any number of tasks share a breaker: calls, manual records, `trip()` and
`reset()`.  A step of the system is one atomic step of one task, as the code
has them: the admission check under the read lock, the load and each
compare-exchange of `HalfOpenPermit::acquire`, the end of the operation, the
write-locked section that records or forces, the callback, and the drop of the
guard.  The read lock is held from the admission check to the end of `acquire`,
so that no write-locked section runs in between.

Values and errors of the operations are type-erased.  The log keeps what
happened, newest first; no step of the code depends on it.
-/

namespace Breaker

open Foundation

universe u

variable {arith : RateArithmetic} {ε : Type u}

inductive Force where
  | trip
  | reset
  deriving DecidableEq, Repr

def Force.op : Force → Op
  | .trip => .forceOpen
  | .reset => .forceClosed

def Force.next : Force → State
  | .trip => .opened
  | .reset => .closed

def recordOp (failed : Bool) : Op := if failed then .failure else .success

theorem StateMachine.apply_recordOp (config : CircuitBreakerConfig arith ε) (s : StateMachine)
    (failed : Bool) (tick : Tick) :
    s.apply config (recordOp failed, tick) = record config s (failed, tick) := by
  cases failed <;> rfl

inductive Job where
  | call
  | record (failed : Bool)
  | force (f : Force)
  deriving DecidableEq, Repr

/-- What a task gives back; `unwound` is a panic, of the operation or of a wait. -/
inductive Answer (ε : Type u) where
  | circuitOpen
  | rejected
  | ok (value : ε)
  | failure (err : ε)
  | timeout
  | cancelled
  | unwound
  | returned

def Answer.refusal : Answer ε → Bool
  | .circuitOpen | .rejected => true
  | .ok _ | .failure _ | .timeout | .cancelled | .unwound | .returned => false

inductive Outcome (ε : Type u) where
  | ok (value : ε)
  | err (err : ε)
  | elapsed
  | dropped
  | panicked

inductive Event where
  | admitted (i : Nat) (permit : Bool)
  | wrote (i : Nat) (op : Op) (tick : Tick) (prev next : State)
  | called (i : Nat) (pair : State × State)
  | released (i : Nat)
  deriving DecidableEq, Repr

/-- What the clones of a breaker share, with the clock and the log. -/
structure Shared where
  state : StateMachine
  halfOpenPermits : Nat
  clock : Nat
  log : List Event

/-- Where a task stands; the permit flag says whether it owns a guard. -/
inductive Phase (ε : Type u) where
  | idle
  | loading
  | acquiring (current : Nat)
  | running (permit : Bool)
  | recording (permit failed : Bool) (answer : Answer ε)
  | announcing (permit : Bool) (pair : State × State) (answer : Answer ε)
  | leaving (permit : Bool) (answer : Answer ε)
  | forcing (f : Force)
  | forced (f : Force) (prev : State)
  | done (answer : Answer ε)

/-- One atomic step of a task, with the readings and the choices it depends on. -/
inductive TaskAction (ε : Type u) where
  | check (now : Nat)
  | load
  | exchange (spurious : Bool)
  | finish (outcome : Outcome ε)
  | record (tick : Tick)
  | announce
  | release
  | observe (now : Nat)
  | force (tick : Tick)

abbrev System (ε : Type u) := Pool Shared (Phase ε)

/-- `fetch_sub(1)` on a `usize`, which wraps. -/
def fetchSub (n : Nat) : Nat := if n = 0 then 2 ^ 64 - 1 else n - 1

namespace Phase

def holdsPermit : Phase ε → Bool
  | running permit | recording permit _ _ | announcing permit _ _ | leaving permit _ => permit
  | idle | loading | acquiring _ | forcing _ | forced _ _ | done _ => false

def reads : Phase ε → Bool
  | loading | acquiring _ => true
  | idle | running _ | recording .. | announcing .. | leaving .. | forcing _ | forced .. |
    done _ => false

def pending : Phase ε → Option (Answer ε)
  | recording _ _ answer | announcing _ _ answer | leaving _ answer => some answer
  | idle | loading | acquiring _ | running _ | forcing _ | forced .. | done _ => none

def start : Job → Phase ε
  | .call => idle
  | .record failed => recording false failed .returned
  | .force f => forcing f

end Phase

namespace System

variable (config : CircuitBreakerConfig arith ε)

/-! ## Steps of a task -/

/-- The head of the loop in `acquire`, with the value last observed. -/
def loopHead (current : Nat) : Phase ε :=
  if config.halfOpenMaxCalls ≤ current then .done .rejected else .acquiring current

/-- The end of the await; a timeout needs a configured limit. -/
def finish (permit : Bool) : Outcome ε → Option (Phase ε)
  | .ok value => some (.recording permit false (.ok value))
  | .err err =>
      if config.isBreakerFailure err then some (.recording permit true (.failure err))
      else some (.leaving permit (.failure err))
  | .elapsed =>
      if config.callTimeout.isSome then some (.recording permit true .timeout) else none
  -- A future that is dropped or unwinds records nothing; its guard is dropped all the same.
  | .dropped => some (.leaving permit .cancelled)
  | .panicked => some (.leaving permit .unwound)

def write (shared : Shared) (i : Nat) (op : Op) (tick : Tick) : Shared :=
  let state := (shared.state.apply config (op, tick)).1
  { shared with
    state := state
    clock := tick.stamp
    log := .wrote i op tick (shared.state.currentAt tick.now) state.current :: shared.log }

def afterRecord (permit : Bool) (answer : Answer ε) :
    Except Panic (Option (State × State)) → Phase ε
  | .ok (some pair) => .announcing permit pair answer
  | .ok none => .leaving permit answer
  | .error _ => .leaving permit .unwound

def afterForce (prev next : State) : Except Panic (Option (State × State)) → Phase ε
  | .ok _ => .announcing false (prev, next) .returned
  | .error _ => .leaving false .unwound

def drop (shared : Shared) (i : Nat) (permit : Bool) : Shared :=
  if permit then
    { shared with
      halfOpenPermits := fetchSub shared.halfOpenPermits
      log := .released i :: shared.log }
  else shared

/-- The write lock is free, and the tick reads a clock that has not gone back. -/
def CanWrite (s : System ε) (tick : Tick) : Prop :=
  s.tasks.any Phase.reads = false ∧ s.shared.clock ≤ tick.now ∧ tick.now ≤ tick.stamp

instance (s : System ε) (tick : Tick) : Decidable (CanWrite s tick) :=
  inferInstanceAs (Decidable (_ ∧ _))

def act (s : System ε) (i : Nat) : Phase ε → TaskAction ε → Option (Shared × Phase ε)
  | .idle, .check now =>
      if s.shared.clock ≤ now then
        let shared := { s.shared with clock := now }
        match shared.state.currentAt now with
        | .opened => some (shared, .done .circuitOpen)
        | .halfOpen => some (shared, .loading)
        | .closed =>
            some ({ shared with log := .admitted i false :: shared.log }, .running false)
      else none
  | .loading, .load => some (s.shared, loopHead config s.shared.halfOpenPermits)
  | .acquiring current, .exchange spurious =>
      -- The weak exchange may fail although the counter has not moved.
      if s.shared.halfOpenPermits = current ∧ spurious = false then
        some ({ s.shared with
          halfOpenPermits := current + 1
          log := .admitted i true :: s.shared.log }, .running true)
      else some (s.shared, loopHead config s.shared.halfOpenPermits)
  | .running permit, .finish outcome =>
      match finish config permit outcome with
      | some phase => some (s.shared, phase)
      | none => none
  | .recording permit failed answer, .record tick =>
      if CanWrite s tick then
        let result := (s.shared.state.apply config (recordOp failed, tick)).2
        some (write config s.shared i (recordOp failed) tick, afterRecord permit answer result)
      else none
  | .announcing permit pair answer, .announce =>
      some ({ s.shared with log := .called i pair :: s.shared.log }, .leaving permit answer)
  | .leaving permit answer, .release => some (drop s.shared i permit, .done answer)
  | .forcing f, .observe now =>
      if s.shared.clock ≤ now then
        some ({ s.shared with clock := now }, .forced f (s.shared.state.currentAt now))
      else none
  | .forced f prev, .force tick =>
      if CanWrite s tick then
        let result := (s.shared.state.apply config (f.op, tick)).2
        some (write config s.shared i f.op tick, afterForce prev f.next result)
      else none
  | _, _ => none

abbrev Step : System ε → PoolAction Job (TaskAction ε) → System ε → Prop :=
  Pool.Step Phase.start (act config)

def new (draw : Draw) : Option (System ε) :=
  (StateMachine.new config draw).map fun state =>
    { shared := { state := state, halfOpenPermits := 0, clock := 0, log := [] }, tasks := [] }

def Reachable (s : System ε) : Prop :=
  ∃ draw start, new config draw = some start ∧ Foundation.Reachable (Step config) start s

variable {config} in
theorem Reachable.of_execute {draw : Draw} {start s : System ε}
    {actions : List (PoolAction Job (TaskAction ε))} (hnew : new config draw = some start)
    (h : execute (Pool.step Phase.start (act config)) start actions = some s) :
    Reachable config s :=
  ⟨draw, start, hnew, actions, runs_of_execute h⟩

variable {config} in
theorem Reachable.step {s s' : System ε} {action : PoolAction Job (TaskAction ε)}
    (h : Reachable config s) (hstep : Step config s action s') : Reachable config s' := by
  obtain ⟨draw, start, hnew, hrun⟩ := h
  exact ⟨draw, start, hnew, hrun.snoc hstep⟩

/-! ## What a task can do -/

/-- `Acts config s i phase a shared phase'`: the acts of task `i`, branch by branch. -/
inductive Acts (s : System ε) (i : Nat) : Phase ε → TaskAction ε → Shared → Phase ε → Prop
  | refuse {now : Nat} : s.shared.clock ≤ now → s.shared.state.currentAt now = .opened →
      Acts s i .idle (.check now) { s.shared with clock := now } (.done .circuitOpen)
  | inspect {now : Nat} : s.shared.clock ≤ now → s.shared.state.currentAt now = .halfOpen →
      Acts s i .idle (.check now) { s.shared with clock := now } .loading
  | enter {now : Nat} : s.shared.clock ≤ now → s.shared.state.currentAt now = .closed →
      Acts s i .idle (.check now)
        { s.shared with clock := now, log := .admitted i false :: s.shared.log } (.running false)
  | load : Acts s i .loading .load s.shared (loopHead config s.shared.halfOpenPermits)
  | acquire {current : Nat} : s.shared.halfOpenPermits = current →
      Acts s i (.acquiring current) (.exchange false)
        { s.shared with
          halfOpenPermits := current + 1
          log := .admitted i true :: s.shared.log }
        (.running true)
  | retry {current : Nat} {spurious : Bool} :
      Acts s i (.acquiring current) (.exchange spurious) s.shared
        (loopHead config s.shared.halfOpenPermits)
  | finish {permit : Bool} {outcome : Outcome ε} {phase : Phase ε} :
      finish config permit outcome = some phase →
      Acts s i (.running permit) (.finish outcome) s.shared phase
  | record {permit failed : Bool} {answer : Answer ε} {tick : Tick} : CanWrite s tick →
      Acts s i (.recording permit failed answer) (.record tick)
        (write config s.shared i (recordOp failed) tick)
        (afterRecord permit answer (s.shared.state.apply config (recordOp failed, tick)).2)
  | announce {permit : Bool} {pair : State × State} {answer : Answer ε} :
      Acts s i (.announcing permit pair answer) .announce
        { s.shared with log := .called i pair :: s.shared.log } (.leaving permit answer)
  | release {permit : Bool} {answer : Answer ε} :
      Acts s i (.leaving permit answer) .release (drop s.shared i permit) (.done answer)
  | observe {f : Force} {now : Nat} : s.shared.clock ≤ now →
      Acts s i (.forcing f) (.observe now) { s.shared with clock := now }
        (.forced f (s.shared.state.currentAt now))
  | force {f : Force} {prev : State} {tick : Tick} : CanWrite s tick →
      Acts s i (.forced f prev) (.force tick) (write config s.shared i f.op tick)
        (afterForce prev f.next (s.shared.state.apply config (f.op, tick)).2)

variable {config}

theorem acts_of_act {s : System ε} {i : Nat} {phase phase' : Phase ε} {a : TaskAction ε}
    {shared : Shared} (h : act config s i phase a = some (shared, phase')) :
    Acts config s i phase a shared phase' := by
  unfold act at h
  split at h
  · split_ifs at h with hclock
    dsimp only at h
    split at h
    · cases h
      exact .refuse hclock ‹_›
    · cases h
      exact .inspect hclock ‹_›
    · cases h
      exact .enter hclock ‹_›
  · cases h
    exact .load
  · split_ifs at h with hpermits
    · cases h
      obtain ⟨hpermits, rfl⟩ := hpermits
      exact .acquire hpermits
    · cases h
      exact .retry
  · split at h
    · cases h
      exact .finish ‹_›
    · cases h
  · split_ifs at h with hwrite
    cases h
    exact .record hwrite
  · cases h
    exact .announce
  · cases h
    exact .release
  · split_ifs at h with hclock
    cases h
    exact .observe hclock
  · split_ifs at h with hwrite
    cases h
    exact .force hwrite
  · cases h

theorem step_cases {s s' : System ε} {action : PoolAction Job (TaskAction ε)}
    (h : Step config s action s') :
    (∃ job, action = .spawn job ∧ s' = { s with tasks := s.tasks ++ [Phase.start job] }) ∨
      ∃ i a phase shared phase', action = .act i a ∧ s.tasks[i]? = some phase ∧
        Acts config s i phase a shared phase' ∧
        s' = { shared := shared, tasks := s.tasks.set i phase' } := by
  rcases Pool.step_cases h with hspawn | ⟨i, a, phase, shared, phase', ha, hphase, hact, heq⟩
  · exact .inl hspawn
  · exact .inr ⟨i, a, phase, shared, phase', ha, hphase, acts_of_act hact, heq⟩

/-! ## Rules for invariants -/

theorem Reachable.invariant {I : System ε → Prop} {s : System ε} (h : Reachable config s)
    (hnew : ∀ draw start, new config draw = some start → I start)
    (hstep : ∀ s action s', Reachable config s → I s → Step config s action s' → I s') : I s := by
  obtain ⟨draw, start, heq, hrun⟩ := h
  exact hrun.invariant (hnew draw start heq) fun s action s' hreach =>
    hstep s action s' ⟨draw, start, heq, hreach⟩

theorem Reachable.tasks {Q : Phase ε → Prop} {s : System ε} (h : Reachable config s)
    (hstart : ∀ job, Q (Phase.start job))
    (hacts : ∀ s i phase a shared phase', Acts config s i phase a shared phase' →
      Q phase → Q phase') : ∀ phase ∈ s.tasks, Q phase := by
  apply h.invariant
  · intro draw start hnew
    obtain ⟨state, -, rfl⟩ := Option.map_eq_some_iff.mp hnew
    simp
  · intro s action s' _ hall hstep
    rcases step_cases hstep with
      ⟨job, -, rfl⟩ | ⟨i, a, phase, shared, phase', -, hphase, hact, rfl⟩
    · intro phase hmem
      rcases List.mem_append.mp hmem with hold | hlast
      · exact hall phase hold
      · rw [List.mem_singleton] at hlast
        exact hlast ▸ hstart job
    · intro other hmem
      rcases List.mem_or_eq_of_mem_set hmem with hold | rfl
      · exact hall other hold
      · exact hacts s i phase a shared other hact (hall phase (List.mem_of_getElem? hphase))

/-! ## How a task ends -/

theorem finish_cases {permit : Bool} {outcome : Outcome ε} {phase : Phase ε}
    (h : finish config permit outcome = some phase) :
    ∃ answer : Answer ε, answer.refusal = false ∧
      ((∃ failed, phase = .recording permit failed answer) ∨ phase = .leaving permit answer) := by
  cases outcome with
  | ok value => exact ⟨.ok value, rfl, .inl ⟨false, (Option.some.inj h).symm⟩⟩
  | err err =>
      simp only [finish] at h
      split_ifs at h
      · exact ⟨.failure err, rfl, .inl ⟨true, (Option.some.inj h).symm⟩⟩
      · exact ⟨.failure err, rfl, .inr (Option.some.inj h).symm⟩
  | elapsed =>
      simp only [finish] at h
      split_ifs at h
      exact ⟨.timeout, rfl, .inl ⟨true, (Option.some.inj h).symm⟩⟩
  | dropped => exact ⟨.cancelled, rfl, .inr (Option.some.inj h).symm⟩
  | panicked => exact ⟨.unwound, rfl, .inr (Option.some.inj h).symm⟩

theorem Acts.done {s : System ε} {i : Nat} {phase : Phase ε} {a : TaskAction ε}
    {shared : Shared} {answer : Answer ε} (h : Acts config s i phase a shared (.done answer)) :
    (phase = .idle ∧ answer = .circuitOpen) ∨
      ((phase = .loading ∨ ∃ current, phase = .acquiring current) ∧ answer = .rejected ∧
        config.halfOpenMaxCalls ≤ s.shared.halfOpenPermits) ∨
      ∃ permit, phase = .leaving permit answer := by
  have hhead : loopHead config s.shared.halfOpenPermits = .done answer →
      answer = .rejected ∧ config.halfOpenMaxCalls ≤ s.shared.halfOpenPermits := by
    intro heq
    unfold loopHead at heq
    split_ifs at heq with hfull
    exact ⟨by cases heq; rfl, hfull⟩
  generalize hlast : Phase.done answer = last at h
  cases h with
  | refuse =>
      cases hlast
      exact .inl ⟨rfl, rfl⟩
  | load => exact .inr (.inl ⟨.inl rfl, hhead hlast.symm⟩)
  | retry => exact .inr (.inl ⟨.inr ⟨_, rfl⟩, hhead hlast.symm⟩)
  | finish hfinish =>
      obtain ⟨other, -, ⟨failed, rfl⟩ | rfl⟩ := finish_cases hfinish <;> cases hlast
  | release =>
      cases hlast
      exact .inr (.inr ⟨_, rfl⟩)
  | record =>
      unfold afterRecord at hlast
      split at hlast <;> cases hlast
  | force =>
      unfold afterForce at hlast
      split at hlast <;> cases hlast
  | _ => cases hlast

/-! ## A run of `hairTrigger` -/

/-- Two calls are admitted, and the failure of the first opens the circuit. -/
def outageRun : List (PoolAction Job (TaskAction Unit)) :=
  [.spawn .call, .spawn .call, .act 0 (.check 0), .act 1 (.check 0),
   .act 0 (.finish (.err ())), .act 0 (.record ⟨0, 0, 0⟩)]

def outage : System Unit where
  shared := {
    state := {
      (StateMachine.fresh hairTrigger.build (.fromNanos 1)) with
      current := .opened
      totalFailures := 1
      transitions := 1
      openSince := some 0
      openAttempts := 1
      window := (Window.new 10).record true }
    halfOpenPermits := 0
    clock := 0
    log := [.wrote 0 .failure ⟨0, 0, 0⟩ .closed .opened, .admitted 1 false, .admitted 0 false] }
  tasks := [.announcing false (.closed, .opened) (.failure ()), .running false]

theorem outage_reachable : Reachable hairTrigger.build outage :=
  @Reachable.of_execute _ _ _ 0 _ _ outageRun rfl rfl

def probeRun : List (PoolAction Job (TaskAction Unit)) :=
  [.act 1 (.finish (.ok ())), .act 1 (.record ⟨0, 0, 0⟩), .spawn .call,
   .act 2 (.check 1), .act 2 .load, .act 2 (.exchange false)]

def probing : System Unit where
  shared := {
    state := { outage.shared.state with totalSuccesses := 1 }
    halfOpenPermits := 1
    clock := 1
    log := .admitted 2 true :: .wrote 1 .success ⟨0, 0, 0⟩ .opened .opened :: outage.shared.log }
  tasks := [.announcing false (.closed, .opened) (.failure ()), .leaving false (.ok ()),
    .running true]

theorem probing_reachable : Reachable hairTrigger.build probing :=
  @Reachable.of_execute _ _ _ 0 _ _ (outageRun ++ probeRun) rfl rfl

end System

end Breaker
