import Breaker.Tasks.Clients
import Breaker.Tasks.Permits

/-!
# Serial schedules

`CircuitBreaker` is the breaker of a single client, whose operations run from
start to end; a `System` interleaves the steps of any number of tasks.  Where
each task ends before the next one starts the two are the same: what the tasks
leave behind and answer is what the operations leave behind and answer, and every
sequence of operations is carried out by some schedule of this kind.
-/

namespace Breaker

open Foundation CircuitBreaker

universe u

variable {arith : RateArithmetic} {ε : Type u}

/-- One use of a breaker, with all that it reads; a call brings its future. -/
inductive Request (ε : Type u) where
  | record (failed : Bool) (tick : Tick)
  | force (f : Force) (tick : Tick)
  | call (readings : Readings) (fut : Future Unit ε ε)

namespace Request

def job : Request ε → Job
  | record failed _ => .record failed
  | force f _ => .force f
  | call .. => .call

def first : Request ε → Nat
  | record _ tick | force _ tick => tick.now
  | call readings _ => readings.admission

def last : Request ε → Nat
  | record _ tick | force _ tick => tick.stamp
  | call readings _ => readings.record.stamp

def Timed : Request ε → Prop
  | record _ tick | force _ tick => tick.now ≤ tick.stamp
  | call readings _ =>
      readings.admission ≤ readings.record.now ∧ readings.record.now ≤ readings.record.stamp

/-- No request reads the clock before `clock` or before the requests that precede it. -/
def OrderedFrom : Nat → List (Request ε) → Prop
  | _, [] => True
  | clock, request :: requests =>
      clock ≤ request.first ∧ request.Timed ∧ OrderedFrom request.last requests

theorem OrderedFrom.mono {clock clock' : Nat} {requests : List (Request ε)}
    (h : OrderedFrom clock' requests) (hle : clock ≤ clock') : OrderedFrom clock requests := by
  cases requests with
  | nil => trivial
  | cons request requests => exact ⟨hle.trans h.1, h.2⟩

end Request

namespace CircuitBreaker

/-- What an operation gives back that has an answer already, but may unwind. -/
def answerAfter (answer : Answer ε) : Except Panic Unit → Answer ε
  | .ok _ => answer
  | .error _ => .unwound

def answered : Except Panic (Except (CallError ε) ε) → Answer ε
  | .ok (.ok value) => .ok value
  | .ok (.error .circuitOpen) => .circuitOpen
  | .ok (.error .rejected) => .rejected
  | .ok (.error (.failure err)) => .failure err
  | .ok (.error .timeout) => .timeout
  | .error _ => .unwound

def serve (config : CircuitBreakerConfig arith ε) (rule : TimeoutRule) (b : CircuitBreaker) :
    Request ε → CircuitBreaker × Answer ε
  | .record failed tick =>
      let (b, result) := b.apply config (recordOp failed, tick)
      (b, answerAfter .returned result)
  | .force f tick =>
      let (b, result) := b.apply config (f.op, tick)
      (b, answerAfter .returned result)
  | .call readings fut =>
      let driven := b.call config rule id readings (fun world => (world, fut)) ()
      (driven.breaker, answered driven.answer)

variable {config : CircuitBreakerConfig arith ε} {rule : TimeoutRule} {b : CircuitBreaker}

def Future.after (takes : Nat) (result : Except ε ε) : Future Unit ε ε where
  takes := takes
  run world := (world, result)
  dropAt _ world := world

theorem await_immediately (result : Except ε ε) (rule : TimeoutRule)
    (callTimeout : Option Duration) :
    ((Future.after 0 result).await rule callTimeout ()).2 = some result := by
  cases callTimeout <;> simp [Future.await, Future.after, rule.ready]

theorem await_too_late (result : Except ε ε) {limit : Duration} {takes instant : Nat}
    (h : rule.elapses limit takes = some instant) :
    ((Future.after takes result).await rule (some limit) ()).2 = none := by
  simp [Future.await, Future.after, h]

theorem serve_call_of_refused {readings : Readings} {fut : Future Unit ε ε}
    (h : b.state.currentAt readings.admission = .opened) :
    b.serve config rule (.call readings fut) = (b, .circuitOpen) := by
  simp only [serve, call, admission, h, answered]

theorem serve_call_of_rejected {readings : Readings} {fut : Future Unit ε ε}
    (h : b.state.currentAt readings.admission = .halfOpen)
    (hfull : config.halfOpenMaxCalls ≤ b.halfOpenPermits) :
    b.serve config rule (.call readings fut) = (b, .rejected) := by
  simp only [serve, call, admission, h, CircuitBreaker.acquire, if_pos hfull, answered]

theorem serve_call_of_admitted {readings : Readings} {fut : Future Unit ε ε}
    {b' : CircuitBreaker} {permit : Bool}
    (h : b.admission config readings.admission = (b', .admitted permit)) :
    b.serve config rule (.call readings fut) =
      ((b'.settle config id readings.record
          (fut.await rule config.callTimeout ()).2).1.release permit,
        answered
          (b'.settle config id readings.record (fut.await rule config.callTimeout ()).2).2) := by
  simp only [serve, call, h, CircuitBreaker.finish]

theorem answered_map (result : Except Panic Unit) (answer : Except (CallError ε) ε) :
    answered (result.map fun _ => answer) = answerAfter (answered (.ok answer)) result := by
  cases result <;> rfl

end CircuitBreaker

namespace Event

def pair : Event → Option (State × State)
  | called _ pair => some pair
  | admitted .. | wrote .. | released _ => none

end Event

def Shared.breaker (shared : Shared) : CircuitBreaker where
  state := shared.state
  halfOpenPermits := shared.halfOpenPermits
  callbacks := (shared.log.filterMap Event.pair).reverse

namespace System

variable {config : CircuitBreakerConfig arith ε} {rule : TimeoutRule} {s s' : System ε} {i : Nat}
  {phase phase' : Phase ε}
  {a : TaskAction ε} {shared : Shared} {job : Job} {b : CircuitBreaker} {clock : Nat}

/-! ## One write -/

/-- What is left of a task after its write-locked section: the callback, the guard, the answer. -/
def AfterWrite (shared : Shared) (permit : Bool) (answer : Answer ε) (phase : Phase ε)
    (step : CircuitBreaker × Except Panic Unit) : Prop :=
  (∃ pair, phase = .announcing permit pair answer ∧
      step = (shared.breaker.fireCallback pair.1 pair.2, .ok ())) ∨
    (phase = .leaving permit answer ∧ step = (shared.breaker, .ok ())) ∨
    ∃ panic, phase = .leaving permit .unwound ∧ step = (shared.breaker, .error panic)

theorem afterWrite_record (shared : Shared) (i : Nat) (permit failed : Bool) (answer : Answer ε)
    (tick : Tick) :
    AfterWrite (write config shared i (recordOp failed) tick) permit answer
      (afterRecord permit answer (shared.state.apply config (recordOp failed, tick)).2)
      (shared.breaker.apply config (recordOp failed, tick)) := by
  have hbreaker : (write config shared i (recordOp failed) tick).breaker =
      { shared.breaker with
        state := (shared.state.apply config (recordOp failed, tick)).1 } := rfl
  have happly : shared.breaker.apply config (recordOp failed, tick) =
      shared.breaker.announce (shared.state.apply config (recordOp failed, tick)) :=
    apply_eq_announce config _ _
  rw [happly]
  unfold AfterWrite announce
  rw [hbreaker]
  dsimp only
  cases hresult : (shared.state.apply config (recordOp failed, tick)).2 with
  | ok report =>
      cases report with
      | none => exact .inr (.inl ⟨rfl, rfl⟩)
      | some pair => exact .inl ⟨pair, rfl, rfl⟩
  | error panic => exact .inr (.inr ⟨panic, rfl, rfl⟩)

/-- A forced transition makes one clock reading of its own before the section that writes. -/
theorem apply_force (s : StateMachine) (f : Force) (now : Nat) (tick : Tick) :
    s.apply config (f.op, ⟨now, tick.stamp, tick.draw⟩) =
      ((s.apply config (f.op, tick)).1,
        (s.apply config (f.op, tick)).2.map fun _ => some (s.currentAt now, f.next)) := by
  have hmap : ∀ (step : StateMachine × Except Panic Unit) (prev : State),
      StateMachine.forced (s.currentAt now) f.next step =
        ((StateMachine.forced prev f.next step).1, (StateMachine.forced prev f.next step).2.map
          fun _ => some (s.currentAt now, f.next)) := by
    rintro ⟨state, _ | _⟩ prev <;> rfl
  cases f with
  | trip => exact hmap _ _
  | reset => exact hmap _ _

theorem afterWrite_force (config : CircuitBreakerConfig arith ε) (shared : Shared) (i : Nat)
    (f : Force) (now : Nat) (tick : Tick) :
    AfterWrite (write config shared i f.op tick) false (.returned : Answer ε)
      (afterForce (shared.state.currentAt now) f.next
        (shared.state.apply config (f.op, tick)).2)
      (shared.breaker.apply config (f.op, ⟨now, tick.stamp, tick.draw⟩)) := by
  have hbreaker : (write config shared i f.op tick).breaker =
      { shared.breaker with state := (shared.state.apply config (f.op, tick)).1 } := rfl
  have happly : shared.breaker.apply config (f.op, ⟨now, tick.stamp, tick.draw⟩) =
      shared.breaker.announce
        (shared.state.apply config (f.op, ⟨now, tick.stamp, tick.draw⟩)) :=
    apply_eq_announce config _ _
  rw [happly, apply_force shared.state f now tick]
  unfold AfterWrite announce
  rw [hbreaker]
  dsimp only
  cases hresult : (shared.state.apply config (f.op, tick)).2 with
  | ok report => exact .inl ⟨_, rfl, rfl⟩
  | error panic => exact .inr (.inr ⟨panic, rfl, rfl⟩)

/-! ## From tasks to requests -/

/-- A request of this kind, with readings from `clock` to `last`, has this result. -/
def Served (config : CircuitBreakerConfig arith ε) (rule : TimeoutRule) (b : CircuitBreaker)
    (clock : Nat) (job : Job) (last : Nat) (result : CircuitBreaker × Answer ε) : Prop :=
  ∃ request : Request ε, request.job = job ∧ clock ≤ request.first ∧ request.Timed ∧
    request.last ≤ last ∧ b.serve config rule request = result

/-- How far a task has come that started on the breaker `b` at `clock`. -/
def Stage (config : CircuitBreakerConfig arith ε) (rule : TimeoutRule) (b : CircuitBreaker)
    (clock : Nat) (job : Job) (shared : Shared) : Phase ε → Prop
  | .idle => job = .call ∧ shared.breaker = b ∧ clock ≤ shared.clock
  | .loading => job = .call ∧ shared.breaker = b ∧
      ∃ now, clock ≤ now ∧ now ≤ shared.clock ∧ b.state.currentAt now = .halfOpen
  | .acquiring current => job = .call ∧ shared.breaker = b ∧ current < config.halfOpenMaxCalls ∧
      ∃ now, clock ≤ now ∧ now ≤ shared.clock ∧ b.state.currentAt now = .halfOpen
  | .running permit => job = .call ∧ ∃ now, clock ≤ now ∧ now ≤ shared.clock ∧
      b.admission config now = (shared.breaker, .admitted permit)
  | .recording permit failed answer => ∀ tick : Tick, shared.clock ≤ tick.now →
      tick.now ≤ tick.stamp → Served config rule b clock job tick.stamp
        ((shared.breaker.apply config (recordOp failed, tick)).1.release permit,
          answerAfter answer (shared.breaker.apply config (recordOp failed, tick)).2)
  | .announcing permit pair answer => Served config rule b clock job shared.clock
      ((shared.breaker.fireCallback pair.1 pair.2).release permit, answer)
  | .leaving permit answer =>
      Served config rule b clock job shared.clock (shared.breaker.release permit, answer)
  | .forcing f => job = .force f ∧ shared.breaker = b ∧ clock ≤ shared.clock
  | .forced f prev => job = .force f ∧ shared.breaker = b ∧
      ∃ now, clock ≤ now ∧ now ≤ shared.clock ∧ prev = b.state.currentAt now
  | .done answer => Served config rule b clock job shared.clock (shared.breaker, answer)

theorem stage_start (config : CircuitBreakerConfig arith ε) (rule : TimeoutRule)
    (shared : Shared) (job : Job) :
    Stage config rule shared.breaker shared.clock job shared (Phase.start job) := by
  cases job with
  | call => exact ⟨rfl, rfl, le_rfl⟩
  | force f => exact ⟨rfl, rfl, le_rfl⟩
  | record failed =>
      intro tick hnow hstamp
      exact ⟨.record failed tick, rfl, hnow, hstamp, le_rfl, rfl⟩

theorem AfterWrite.stage {permit : Bool} {answer : Answer ε}
    {step : CircuitBreaker × Except Panic Unit} (h : AfterWrite shared permit answer phase step)
    (hserved : Served config rule b clock job shared.clock
      (step.1.release permit, answerAfter answer step.2)) :
    Stage config rule b clock job shared phase := by
  rcases h with ⟨pair, rfl, rfl⟩ | ⟨rfl, rfl⟩ | ⟨panic, rfl, rfl⟩
  · exact hserved
  · exact hserved
  · exact hserved

theorem stage_loopHead [Inhabited ε]
    (h : Stage config rule b clock job shared (.loading : Phase ε)) :
    Stage config rule b clock job shared (loopHead config shared.halfOpenPermits) := by
  obtain ⟨rfl, rfl, now, hfirst, hclock, hhalf⟩ := h
  by_cases hfull : config.halfOpenMaxCalls ≤ shared.halfOpenPermits
  · rw [loopHead, if_pos hfull]
    exact ⟨.call ⟨now, now, now, 0⟩ (.after 0 (.ok default)), rfl, hfirst, ⟨le_rfl, le_rfl⟩, hclock,
      serve_call_of_rejected hhalf hfull⟩
  · rw [loopHead, if_neg hfull]
    exact ⟨rfl, rfl, not_le.mp hfull, now, hfirst, hclock, hhalf⟩

theorem stage_finish [Inhabited ε] {permit : Bool} {outcome : Outcome ε}
    (h : finish config permit outcome = some phase) (hawaited : outcome.awaited = true)
    (hstage : Stage config rule b clock job shared (.running permit)) :
    Stage config rule b clock job shared phase := by
  obtain ⟨rfl, now, hfirst, hclock, hadmission⟩ := hstage
  have hserved : ∀ (tick : Tick) (fut : Future Unit ε ε)
      (result : CircuitBreaker × Except Panic (Except (CallError ε) ε)),
      shared.clock ≤ tick.now → tick.now ≤ tick.stamp →
      shared.breaker.settle config id tick (fut.await rule config.callTimeout ()).2 = result →
      Served config rule b clock .call tick.stamp (result.1.release permit, answered result.2) := by
    rintro tick fut result hnow hstamp rfl
    exact ⟨.call ⟨now, tick⟩ fut, rfl, hfirst, ⟨hclock.trans hnow, hstamp⟩, le_rfl,
      serve_call_of_admitted hadmission⟩
  cases outcome with
  | ok value =>
      cases h
      intro tick hnow hstamp
      have hcall := hserved tick (.after 0 (.ok value)) _ hnow hstamp rfl
      rw [await_immediately] at hcall
      simp only [settle, answered_map] at hcall
      exact hcall
  | err err =>
      simp only [System.finish] at h
      split_ifs at h with hcounts
      · cases h
        intro tick hnow hstamp
        have hcall := hserved tick (.after 0 (.error err)) _ hnow hstamp rfl
        rw [await_immediately] at hcall
        simp only [settle, id_eq, hcounts, if_true, answered_map] at hcall
        exact hcall
      · cases h
        have hcall := hserved ⟨shared.clock, shared.clock, 0⟩ (.after 0 (.error err)) _ le_rfl
          le_rfl rfl
        rw [await_immediately] at hcall
        simp only [settle, id_eq, hcounts] at hcall
        exact hcall
  | elapsed =>
      simp only [System.finish] at h
      split_ifs at h with hlimit
      cases h
      obtain ⟨limit, hlimit⟩ := Option.isSome_iff_exists.mp hlimit
      obtain ⟨takes, instant, hlate⟩ := rule.overrun limit
      intro tick hnow hstamp
      have hcall := hserved tick (.after takes (.ok default)) _ hnow hstamp rfl
      rw [hlimit, await_too_late _ hlate] at hcall
      simp only [settle, answered_map] at hcall
      exact hcall
  | dropped => cases hawaited
  | panicked => cases hawaited

theorem breaker_drop (i : Nat) {permit : Bool} (h : permit = true → 0 < shared.halfOpenPermits) :
    (drop shared i permit).breaker = shared.breaker.release permit := by
  cases permit with
  | false => rfl
  | true =>
      simp only [drop, Shared.breaker, release, fetchSub, (h rfl).ne']
      rfl

theorem breaker_called (i : Nat) (pair : State × State) :
    Shared.breaker { shared with log := .called i pair :: shared.log } =
      shared.breaker.fireCallback pair.1 pair.2 := by
  simp [Shared.breaker, fireCallback, Event.pair]

theorem Stage.acts [Inhabited ε] (h : Stage config rule b clock job s.shared phase)
    (hreach : Reachable config s) (hphase : s.tasks[i]? = some phase)
    (hacts : Acts config s i phase a shared phase')
    (hawaited : ∀ outcome, a = .finish outcome → outcome.awaited = true) :
    Stage config rule b clock job shared phase' := by
  cases hacts with
  | @refuse now hclock hopen =>
      obtain ⟨rfl, rfl, hfirst⟩ := h
      exact ⟨.call ⟨now, now, now, 0⟩ (.after 0 (.ok default)), rfl, hfirst.trans hclock,
        ⟨le_rfl, le_rfl⟩, le_rfl, serve_call_of_refused hopen⟩
  | @inspect now hclock hhalf =>
      obtain ⟨rfl, rfl, hfirst⟩ := h
      exact ⟨rfl, rfl, now, hfirst.trans hclock, le_rfl, hhalf⟩
  | @enter now hclock hclosed =>
      obtain ⟨rfl, rfl, hfirst⟩ := h
      refine ⟨rfl, now, hfirst.trans hclock, le_rfl, ?_⟩
      have hstate : s.shared.breaker.state.currentAt now = .closed := hclosed
      simp only [admission, hstate]
      rfl
  | load => exact stage_loopHead h
  | acquire hcurrent =>
      obtain ⟨rfl, rfl, hlt, now, hfirst, hclock, hhalf⟩ := h
      refine ⟨rfl, now, hfirst, hclock, ?_⟩
      subst hcurrent
      have hfree : ¬ config.halfOpenMaxCalls ≤ s.shared.breaker.halfOpenPermits := not_le.mpr hlt
      simp only [admission, hhalf, CircuitBreaker.acquire, if_neg hfree]
      rfl
  | retry =>
      obtain ⟨hjob, hbreaker, -, hread⟩ := h
      exact stage_loopHead ⟨hjob, hbreaker, hread⟩
  | finish hfinish => exact stage_finish hfinish (hawaited _ rfl) h
  | record hwrite =>
      exact (afterWrite_record s.shared i _ _ _ _).stage (h _ hwrite.2.1 hwrite.2.2)
  | announce =>
      unfold Stage at h ⊢
      rw [breaker_called]
      exact h
  | @release permit answer =>
      have hpositive : permit = true → 0 < s.shared.halfOpenPermits := by
        rintro rfl
        exact hreach.permits.pos hphase rfl
      have hclock : (drop s.shared i permit).clock = s.shared.clock := by
        cases permit <;> rfl
      unfold Stage at h ⊢
      rw [breaker_drop i hpositive, hclock]
      exact h
  | @observe f now hclock =>
      obtain ⟨rfl, rfl, hfirst⟩ := h
      exact ⟨rfl, rfl, now, hfirst.trans hclock, le_rfl, rfl⟩
  | force hwrite =>
      obtain ⟨rfl, rfl, now, hfirst, hclock, rfl⟩ := h
      apply (afterWrite_force config s.shared i _ now _).stage
      exact ⟨.force _ ⟨now, _, _⟩, rfl, hfirst, (hclock.trans hwrite.2.1).trans hwrite.2.2, le_rfl,
        rfl⟩

/--
A task runs from its start to its end, and nothing else runs.  Its future is
neither dropped nor does it unwind, which a client that awaits it cannot do.
-/
def SerialStep (config : CircuitBreakerConfig arith ε) (s : System ε) (job : Job) (s' : System ε) :
    Prop :=
  ∃ actions : List (TaskAction ε),
    Runs (Step config) s (.spawn job :: actions.map (.act s.tasks.length)) s' ∧
    (∀ outcome, .finish outcome ∈ actions → outcome.awaited = true) ∧
    ∃ answer, s'.tasks[s.tasks.length]? = some (.done answer)

theorem stage_runs [Inhabited ε] {tasks : List (Phase ε)} {actions : List (TaskAction ε)}
    (hreach : Reachable config s) (htasks : s.tasks = tasks ++ [phase])
    (h : Stage config rule b clock job s.shared phase)
    (hrun : Runs (Step config) s (actions.map (.act tasks.length)) s')
    (hawaited : ∀ outcome, .finish outcome ∈ actions → outcome.awaited = true) :
    Reachable config s' ∧
      ∃ phase', s'.tasks = tasks ++ [phase'] ∧ Stage config rule b clock job s'.shared phase' := by
  apply hrun.invariant (I := fun s => Reachable config s ∧
    ∃ phase, s.tasks = tasks ++ [phase] ∧ Stage config rule b clock job s.shared phase)
    ⟨hreach, phase, htasks, h⟩
  rintro t action t' hmem ⟨hreach, phase, htasks, hstage⟩ hstep
  obtain ⟨a, ha, rfl⟩ := List.mem_map.mp hmem
  have htask : t.tasks[tasks.length]? = some phase := by simp [htasks]
  refine ⟨hreach.step hstep, ?_⟩
  rcases step_cases hstep with
    ⟨other, heq, -⟩ | ⟨i, act, before, shared, phase', heq, hphase, hacts, rfl⟩
  · cases heq
  · cases heq
    rw [htask, Option.some.injEq] at hphase
    subst hphase
    exact ⟨phase', by simp [htasks],
      hstage.acts hreach htask hacts fun outcome heq => hawaited outcome (heq ▸ ha)⟩

theorem SerialStep.served [Inhabited ε] (h : SerialStep config s job s')
    (hreach : Reachable config s) :
    Reachable config s' ∧ ∃ answer, s'.tasks = s.tasks ++ [.done answer] ∧
      Served config rule s.shared.breaker s.shared.clock job s'.shared.clock
        (s'.shared.breaker, answer) := by
  obtain ⟨actions, hrun, hawaited, answer, hdone⟩ := h
  obtain ⟨t, hspawn, hrest⟩ := hrun.uncons
  have hreach' := hreach.step hspawn
  cases hspawn
  obtain ⟨hend, phase, htasks, hstage⟩ :=
    stage_runs hreach' rfl (stage_start config rule s.shared job) hrest hawaited
  have hphase : phase = .done answer := by simpa [htasks] using hdone
  subst hphase
  exact ⟨hend, answer, htasks, hstage⟩

theorem serve_of_serial [Inhabited ε] {jobs : List Job} (hreach : Reachable config s)
    (hrun : Runs (SerialStep config) s jobs s') :
    ∃ requests : List (Request ε), requests.map Request.job = jobs ∧
      Request.OrderedFrom s.shared.clock requests ∧
      runFrom (CircuitBreaker.serve config rule) s.shared.breaker requests = s'.shared.breaker ∧
      s'.tasks = s.tasks ++
        (trace (CircuitBreaker.serve config rule) s.shared.breaker requests).map
          fun step => .done step.2 := by
  induction jobs generalizing s with
  | nil =>
      cases hrun.eq_of_nil
      exact ⟨[], rfl, trivial, rfl, by simp⟩
  | cons job jobs ih =>
      obtain ⟨t, hstep, hrest⟩ := hrun.uncons
      obtain ⟨hreach', answer, htasks, request, hjob, hfirst, htimed, hlast, hserve⟩ :=
        hstep.served hreach
      obtain ⟨requests, hjobs, hordered, hbreaker, hanswers⟩ := ih hreach' hrest
      refine ⟨request :: requests, by rw [List.map_cons, hjob, hjobs],
        ⟨hfirst, htimed, hordered.mono hlast⟩, ?_, ?_⟩
      · rw [runFrom_cons, hserve]
        exact hbreaker
      · rw [hanswers, htasks, trace_cons, hserve, List.map_cons, List.append_assoc]
        rfl

/-! ## From requests to tasks -/

def Finishes (config : CircuitBreakerConfig arith ε) (tasks : List (Phase ε)) (shared : Shared)
    (phase : Phase ε) (last : Nat) (result : CircuitBreaker × Answer ε) : Prop :=
  ∃ (actions : List (TaskAction ε)) (shared' : Shared),
    Runs (Step config) { shared := shared, tasks := tasks ++ [phase] }
      (actions.map (.act tasks.length))
      { shared := shared', tasks := tasks ++ [.done result.2] } ∧
    (∀ outcome, .finish outcome ∈ actions → outcome.awaited = true) ∧
    shared'.breaker = result.1 ∧ shared'.clock ≤ last

variable {tasks : List (Phase ε)} {last : Nat} {result : CircuitBreaker × Answer ε}
  {shared' : Shared}

theorem Finishes.act (h : Finishes config tasks shared' phase' last result)
    (hact : act config { shared := shared, tasks := tasks ++ [phase] } tasks.length phase a =
      some (shared', phase'))
    (hawaited : ∀ outcome, a = .finish outcome → outcome.awaited = true) :
    Finishes config tasks shared phase last result := by
  obtain ⟨actions, final, hrun, hrest, hbreaker, hlast⟩ := h
  have hstep : Step config { shared := shared, tasks := tasks ++ [phase] } (.act tasks.length a)
      { shared := shared', tasks := (tasks ++ [phase]).set tasks.length phase' } :=
    Pool.step_act (by simp) hact
  have hset : (tasks ++ [phase]).set tasks.length phase' = tasks ++ [phase'] := by simp
  rw [hset] at hstep
  refine ⟨a :: actions, final, hrun.cons hstep, ?_, hbreaker, hlast⟩
  intro outcome hmem
  rcases List.mem_cons.mp hmem with heq | hmem
  · exact hawaited outcome heq.symm
  · exact hrest outcome hmem

theorem Finishes.mono {last' : Nat} (h : Finishes config tasks shared phase last result)
    (hle : last ≤ last') : Finishes config tasks shared phase last' result := by
  obtain ⟨actions, final, hrun, hawaited, hbreaker, hlast⟩ := h
  exact ⟨actions, final, hrun, hawaited, hbreaker, hlast.trans hle⟩

theorem finishes_done (answer : Answer ε) :
    Finishes config tasks shared (.done answer) shared.clock (shared.breaker, answer) :=
  ⟨[], shared, .refl _, by simp, rfl, le_rfl⟩

theorem finishes_leaving {permit : Bool} (answer : Answer ε)
    (hpositive : permit = true → 0 < shared.halfOpenPermits) :
    Finishes config tasks shared (.leaving permit answer) shared.clock
      (shared.breaker.release permit, answer) := by
  have hdone : Finishes config tasks (drop shared tasks.length permit) (.done answer) _ _ :=
    finishes_done answer
  have hclock : (drop shared tasks.length permit).clock = shared.clock := by
    cases permit <;> rfl
  rw [breaker_drop _ hpositive, hclock] at hdone
  exact hdone.act (a := .release) rfl (by simp)

theorem AfterWrite.finishes {permit : Bool} {answer : Answer ε}
    {step : CircuitBreaker × Except Panic Unit} (h : AfterWrite shared permit answer phase step)
    (hpositive : permit = true → 0 < shared.halfOpenPermits) :
    Finishes config tasks shared phase shared.clock
      (step.1.release permit, answerAfter answer step.2) := by
  rcases h with ⟨pair, rfl, rfl⟩ | ⟨rfl, rfl⟩ | ⟨panic, rfl, rfl⟩
  · have hleaving : Finishes config tasks
        { shared with log := .called tasks.length pair :: shared.log } (.leaving permit answer)
        _ _ := finishes_leaving answer hpositive
    rw [breaker_called] at hleaving
    exact hleaving.act (a := .announce) rfl (by simp)
  · exact finishes_leaving answer hpositive
  · exact finishes_leaving .unwound hpositive

theorem finishes_recording {permit failed : Bool} {answer : Answer ε} {tick : Tick}
    (hfree : tasks.any Phase.reads = false) (hnow : shared.clock ≤ tick.now)
    (hstamp : tick.now ≤ tick.stamp) (hpositive : permit = true → 0 < shared.halfOpenPermits) :
    Finishes config tasks shared (.recording permit failed answer) tick.stamp
      ((shared.breaker.apply config (recordOp failed, tick)).1.release permit,
        answerAfter answer (shared.breaker.apply config (recordOp failed, tick)).2) := by
  have hwrite : CanWrite { shared := shared, tasks := tasks ++ [.recording permit failed answer] }
      tick := ⟨by simp [hfree, Phase.reads], hnow, hstamp⟩
  have hact : act config { shared := shared, tasks := tasks ++ [.recording permit failed answer] }
      tasks.length (.recording permit failed answer) (.record tick) =
      some (write config shared tasks.length (recordOp failed) tick, afterRecord permit answer
        (shared.state.apply config (recordOp failed, tick)).2) := if_pos hwrite
  exact ((afterWrite_record shared tasks.length permit failed answer tick).finishes hpositive).act
    hact (by simp)

theorem finishes_force {f : Force} {tick : Tick} (hfree : tasks.any Phase.reads = false)
    (hnow : shared.clock ≤ tick.now) (hstamp : tick.now ≤ tick.stamp) :
    Finishes config tasks shared (.forcing f) tick.stamp
      ((shared.breaker.apply config (f.op, tick)).1,
        answerAfter .returned (shared.breaker.apply config (f.op, tick)).2) := by
  have hwrite : CanWrite
      { shared := { shared with clock := tick.now }
        tasks := tasks ++ [.forced f (shared.state.currentAt tick.now)] } tick :=
    ⟨by simp [hfree, Phase.reads], le_rfl, hstamp⟩
  have hact : act config
      { shared := { shared with clock := tick.now }
        tasks := tasks ++ [.forced f (shared.state.currentAt tick.now)] }
      tasks.length (.forced f (shared.state.currentAt tick.now)) (.force tick) =
      some (write config { shared with clock := tick.now } tasks.length f.op tick,
        afterForce (shared.state.currentAt tick.now) f.next
          (shared.state.apply config (f.op, tick)).2) := if_pos hwrite
  have hafter := afterWrite_force config { shared with clock := tick.now } tasks.length
    f tick.now tick
  exact ((hafter.finishes (by simp)).act hact (by simp)).act (a := .observe tick.now)
    (if_pos hnow) (by simp)

theorem finishes_running (rule : TimeoutRule) {permit : Bool} {tick : Tick}
    (fut : Future Unit ε ε) (hfree : tasks.any Phase.reads = false) (hnow : shared.clock ≤ tick.now)
    (hstamp : tick.now ≤ tick.stamp) (hpositive : permit = true → 0 < shared.halfOpenPermits) :
    Finishes config tasks shared (.running permit) tick.stamp
      ((shared.breaker.settle config id tick
          (fut.await rule config.callTimeout ()).2).1.release permit,
        answered
          (shared.breaker.settle config id tick (fut.await rule config.callTimeout ()).2).2) := by
  have hfinish : ∀ (outcome : Outcome ε) {phase : Phase ε} {last : Nat}
      {result : CircuitBreaker × Answer ε}, outcome.awaited = true →
      finish config permit outcome = some phase → Finishes config tasks shared phase last result →
      Finishes config tasks shared (.running permit) last result := by
    intro outcome phase last result hawaited hphase h
    refine h.act (a := .finish outcome) ?_ ?_
    · simp only [System.act, hphase]
    · rintro _ ⟨rfl⟩
      exact hawaited
  have hrecord : ∀ (failed : Bool) (answer : Answer ε),
      Finishes config tasks shared (.recording permit failed answer) tick.stamp _ :=
    fun failed answer => finishes_recording hfree hnow hstamp hpositive
  cases hstepped : (fut.await rule config.callTimeout ()).2 with
  | none =>
      have hlimit : config.callTimeout.isSome = true := by
        cases hnone : config.callTimeout with
        | some limit => rfl
        | none => simp [hnone, Future.await] at hstepped
      have h := hfinish .elapsed rfl (if_pos hlimit) (hrecord true .timeout)
      simp only [settle, answered_map]
      exact h
  | some stepped =>
      cases stepped with
      | ok value =>
          have h := hfinish (.ok value) rfl rfl (hrecord false (.ok value))
          simp only [settle, answered_map]
          exact h
      | error err =>
          by_cases hcounts : config.isBreakerFailure err = true
          · have h := hfinish (.err err) rfl (if_pos hcounts)
              (hrecord true (.failure err))
            simp only [settle, id_eq, hcounts, if_true, answered_map]
            exact h
          · have hleaving : Finishes config tasks shared (.leaving permit (.failure err))
                shared.clock (shared.breaker.release permit, .failure err) :=
              finishes_leaving (.failure err) hpositive
            have h := hfinish (.err err) rfl (if_neg hcounts) hleaving
            simp only [settle, id_eq, hcounts]
            exact h.mono (hnow.trans hstamp)

theorem finishes_call {readings : Readings} (fut : Future Unit ε ε)
    (hfree : tasks.any Phase.reads = false) (hclock : shared.clock ≤ readings.admission)
    (hnow : readings.admission ≤ readings.record.now)
    (hstamp : readings.record.now ≤ readings.record.stamp) :
    Finishes config tasks shared .idle readings.record.stamp
      (shared.breaker.serve config rule (.call readings fut)) := by
  cases hcurrent : shared.state.currentAt readings.admission with
  | opened =>
      rw [serve_call_of_refused hcurrent]
      have hdone : Finishes config tasks { shared with clock := readings.admission }
          (.done .circuitOpen) readings.admission (shared.breaker, .circuitOpen) :=
        finishes_done .circuitOpen
      refine (hdone.act (a := .check readings.admission) ?_ (by simp)).mono (hnow.trans hstamp)
      simp only [act, if_pos hclock, hcurrent]
  | closed =>
      have hadmission : shared.breaker.admission config readings.admission =
          (shared.breaker, .admitted false) := by
        have hstate : shared.breaker.state.currentAt readings.admission = .closed := hcurrent
        simp only [admission, hstate]
      rw [serve_call_of_admitted hadmission]
      have hrunning : Finishes config tasks
          { shared with
            clock := readings.admission
            log := .admitted tasks.length false :: shared.log }
          (.running false) readings.record.stamp _ :=
        finishes_running rule fut hfree hnow hstamp (by simp)
      refine hrunning.act (a := .check readings.admission) ?_ (by simp)
      simp only [act, if_pos hclock, hcurrent]
  | halfOpen =>
      have hchecked : ∀ {last : Nat} {result : CircuitBreaker × Answer ε},
          Finishes config tasks { shared with clock := readings.admission }
            (loopHead config shared.halfOpenPermits) last result →
          Finishes config tasks shared .idle last result := by
        intro last result h
        have hloaded : Finishes config tasks { shared with clock := readings.admission } .loading
            last result := h.act (a := .load) rfl (by simp)
        refine hloaded.act (a := .check readings.admission) ?_ (by simp)
        simp only [act, if_pos hclock, hcurrent]
      by_cases hfull : config.halfOpenMaxCalls ≤ shared.halfOpenPermits
      · rw [serve_call_of_rejected hcurrent hfull]
        apply hchecked
        rw [loopHead, if_pos hfull]
        exact (finishes_done .rejected).mono (hnow.trans hstamp)
      · have hadmission : shared.breaker.admission config readings.admission =
            ({ shared.breaker with halfOpenPermits := shared.halfOpenPermits + 1 },
              .admitted true) := by
          have hstate : shared.breaker.state.currentAt readings.admission = .halfOpen := hcurrent
          have hfree : ¬ config.halfOpenMaxCalls ≤ shared.breaker.halfOpenPermits := hfull
          simp only [admission, hstate, CircuitBreaker.acquire, if_neg hfree]
          rfl
        rw [serve_call_of_admitted hadmission]
        apply hchecked
        rw [loopHead, if_neg hfull]
        have hrunning : Finishes config tasks
            { shared with
              clock := readings.admission
              halfOpenPermits := shared.halfOpenPermits + 1
              log := .admitted tasks.length true :: shared.log }
            (.running true) readings.record.stamp _ :=
          finishes_running rule fut hfree hnow hstamp (by simp)
        exact hrunning.act (a := .exchange false) (if_pos ⟨rfl, rfl⟩) (by simp)

theorem finishes_start (config : CircuitBreakerConfig arith ε) {request : Request ε}
    (hfree : tasks.any Phase.reads = false)
    (hclock : shared.clock ≤ request.first) (htimed : request.Timed) :
    Finishes config tasks shared (Phase.start request.job) request.last
      (shared.breaker.serve config rule request) := by
  cases request with
  | record failed tick => exact finishes_recording hfree hclock htimed (by simp)
  | force f tick => exact finishes_force hfree hclock htimed
  | call readings fut => exact finishes_call fut hfree hclock htimed.1 htimed.2

theorem exists_serialStep {request : Request ε} (hfree : s.tasks.any Phase.reads = false)
    (hclock : s.shared.clock ≤ request.first) (htimed : request.Timed) :
    ∃ s', SerialStep config s request.job s' ∧
      s'.shared.breaker = (s.shared.breaker.serve config rule request).1 ∧
      s'.tasks = s.tasks ++ [.done (s.shared.breaker.serve config rule request).2] ∧
      s'.shared.clock ≤ request.last := by
  obtain ⟨actions, shared', hrun, hawaited, hbreaker, hlast⟩ :=
    finishes_start config hfree hclock htimed
  refine ⟨_, ⟨actions, hrun.cons (Pool.step_spawn s request.job), hawaited, ?_⟩, hbreaker, rfl,
    hlast⟩
  exact ⟨(s.shared.breaker.serve config rule request).2, by simp⟩

theorem serial_of_serve {requests : List (Request ε)} (hfree : s.tasks.any Phase.reads = false)
    (hordered : Request.OrderedFrom s.shared.clock requests) :
    ∃ s', Runs (SerialStep config) s (requests.map Request.job) s' ∧
      runFrom (CircuitBreaker.serve config rule) s.shared.breaker requests = s'.shared.breaker ∧
      s'.tasks = s.tasks ++
        (trace (CircuitBreaker.serve config rule) s.shared.breaker requests).map
          fun step => .done step.2 := by
  induction requests generalizing s with
  | nil => exact ⟨s, .refl s, rfl, by simp⟩
  | cons request requests ih =>
      obtain ⟨hclock, htimed, hrest⟩ := hordered
      obtain ⟨t, hstep, hbreaker, htasks, hlast⟩ := exists_serialStep hfree hclock htimed
      have hquiet : t.tasks.any Phase.reads = false := by
        simp [htasks, hfree, Phase.reads]
      obtain ⟨s', hrun, hend, hanswers⟩ := ih hquiet (hrest.mono hlast)
      refine ⟨s', hrun.cons hstep, ?_, ?_⟩
      · rw [runFrom_cons, ← hbreaker]
        exact hend
      · rw [hanswers, htasks, trace_cons, hbreaker, List.map_cons, List.append_assoc]
        rfl

/--
One client at a time.  Where the tasks of a reachable system run one after
another, the breaker, its callbacks and the answers are those of the sequential
breaker on some requests of these kinds; and every ordered list of requests is
carried out by tasks that run one after another, unless some task is still at
its admission.
-/
theorem serial_schedules [Inhabited ε] (config : CircuitBreakerConfig arith ε)
    (rule : TimeoutRule) (hreach : Reachable config s) :
    (∀ jobs s', Runs (SerialStep config) s jobs s' →
      ∃ requests : List (Request ε), requests.map Request.job = jobs ∧
        Request.OrderedFrom s.shared.clock requests ∧
        runFrom (CircuitBreaker.serve config rule) s.shared.breaker requests = s'.shared.breaker ∧
        s'.tasks = s.tasks ++
          (trace (CircuitBreaker.serve config rule) s.shared.breaker requests).map
            fun step => .done step.2) ∧
    (s.tasks.any Phase.reads = false → ∀ requests : List (Request ε),
      Request.OrderedFrom s.shared.clock requests →
      ∃ s', Runs (SerialStep config) s (requests.map Request.job) s' ∧
        runFrom (CircuitBreaker.serve config rule) s.shared.breaker requests = s'.shared.breaker ∧
        s'.tasks = s.tasks ++
          (trace (CircuitBreaker.serve config rule) s.shared.breaker requests).map
            fun step => .done step.2) :=
  ⟨fun _ _ hrun => serve_of_serial hreach hrun, fun hfree _ hordered =>
    serial_of_serve hfree hordered⟩

theorem serial_schedules_probing :
    ∃ s', Runs (SerialStep hairTrigger.build) probing [.record true] s' ∧
      s'.shared.breaker.callbacks = [(.halfOpen, .opened)] := by
  obtain ⟨-, hserial⟩ := serial_schedules hairTrigger.build .millis probing_reachable
  obtain ⟨s', hrun, hbreaker, -⟩ := hserial rfl [.record true ⟨1, 1, 0⟩] ⟨le_rfl, le_rfl, trivial⟩
  exact ⟨s', hrun, by rw [← hbreaker]; decide⟩

end System

end Breaker
