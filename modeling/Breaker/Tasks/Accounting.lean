import Breaker.State.Counters
import Breaker.State.Outage
import Breaker.Tasks.Lock

/-!
# Calls and their records

Every way out of a call writes the outcome of its operation once or not at all.
`Account` says for each phase of a task what it has written so far and what it
still owes, and the machine is the replay of all writes in the order in which
they held the lock.  A call whose record unwinds, because the wait of a re-trip
panics, is counted but returns nothing; without such a record the lifetime
totals are the numbers of counted answers.
-/

namespace Breaker

open Foundation PoolAction

universe u

variable {arith : RateArithmetic} {ε : Type u}

/-! ## The writes of a log -/

namespace Event

def write : Event → Option (Op × Tick)
  | wrote _ op tick _ _ => some (op, tick)
  | admitted .. | called .. | released _ => none

def writeOf (i : Nat) : Event → Option Op
  | wrote j op _ _ _ => if j = i then some op else none
  | admitted .. | called .. | released _ => none

end Event

/-- The write-locked operations of a log, oldest first. -/
def writes (log : List Event) : List (Op × Tick) := (log.filterMap Event.write).reverse

def writesOf (i : Nat) (log : List Event) : List Op := (log.filterMap (Event.writeOf i)).reverse

/-! ## What counts -/

def Outcome.answer : Outcome ε → Answer ε
  | ok value => .ok value
  | err e => .failure e
  | elapsed => .timeout
  | dropped => .cancelled
  | panicked => .unwound

def Answer.counted (config : CircuitBreakerConfig arith ε) : Answer ε → Option Op
  | ok _ => some .success
  | timeout => some .failure
  | failure err => if config.isBreakerFailure err then some .failure else none
  | circuitOpen | rejected | cancelled | unwound | returned => none

def Outcome.counted (config : CircuitBreakerConfig arith ε) (outcome : Outcome ε) : Option Op :=
  outcome.answer.counted config

def TaskAction.outcome : TaskAction ε → Option (Outcome ε)
  | finish outcome => some outcome
  | check _ | load | exchange _ | record _ | announce | release | observe _ | force _ => none

def outcomes (acts : List (TaskAction ε)) : List (Outcome ε) := acts.filterMap TaskAction.outcome

/-- `Settles config job outcomes ops answer`: what a task that answers has awaited and written. -/
inductive Settles (config : CircuitBreakerConfig arith ε) :
    Job → List (Outcome ε) → List Op → Answer ε → Prop
  | refused {answer : Answer ε} : answer.refusal = true → Settles config .call [] [] answer
  | completed (outcome : Outcome ε) :
      Settles config .call [outcome] (outcome.counted config).toList outcome.answer
  | unwound {outcome : Outcome ε} : outcome.counted config = some .failure →
      Settles config .call [outcome] [.failure] .unwound
  | recorded {failed : Bool} {answer : Answer ε} : answer = .returned ∨ answer = .unwound →
      Settles config (.record failed) [] [recordOp failed] answer
  | forced {f : Force} {answer : Answer ε} : answer = .returned ∨ answer = .unwound →
      Settles config (.force f) [] [f.op] answer

/-- What a task of the job `job` has awaited and written when it is in the given phase. -/
def Account (config : CircuitBreakerConfig arith ε) (job : Job) (outcomes : List (Outcome ε))
    (ops : List Op) : Phase ε → Prop
  | .idle | .loading | .acquiring _ | .running _ => job = .call ∧ outcomes = [] ∧ ops = []
  | .recording _ failed answer =>
      ops = [] ∧
        (job = .record failed ∧ outcomes = [] ∧ answer = .returned ∨
          job = .call ∧ ∃ outcome, outcomes = [outcome] ∧ answer = outcome.answer ∧
            outcome.counted config = some (recordOp failed))
  | .announcing _ _ answer | .leaving _ answer | .done answer =>
      Settles config job outcomes ops answer
  | .forcing f | .forced f _ => job = .force f ∧ outcomes = [] ∧ ops = []

namespace System

variable {config : CircuitBreakerConfig arith ε} {s s' : System ε} {i : Nat}
  {phase phase' : Phase ε}
  {a : TaskAction ε} {shared : Shared}

/-! ## The log and the machine -/

@[simp] theorem writes_cons_wrote (i : Nat) (op : Op) (tick : Tick) (prev next : State)
    (log : List Event) :
    writes (.wrote i op tick prev next :: log) = writes log ++ [(op, tick)] := by
  simp [writes, Event.write]

@[simp] theorem writesOf_cons_own (i : Nat) (op : Op) (tick : Tick) (prev next : State)
    (log : List Event) :
    writesOf i (.wrote i op tick prev next :: log) = writesOf i log ++ [op] := by
  simp [writesOf, Event.writeOf]

theorem writesOf_cons_other {i j : Nat} (h : i ≠ j) (op : Op) (tick : Tick) (prev next : State)
    (log : List Event) : writesOf j (.wrote i op tick prev next :: log) = writesOf j log := by
  simp [writesOf, Event.writeOf, h]

theorem Acts.write_cases (h : Acts config s i phase a shared phase') :
    (shared.state = s.shared.state ∧ writes shared.log = writes s.shared.log ∧
        ∀ j, writesOf j shared.log = writesOf j s.shared.log) ∨
      ∃ op tick, shared = write config s.shared i op tick := by
  cases h with
  | record => exact .inr ⟨_, _, rfl⟩
  | force => exact .inr ⟨_, _, rfl⟩
  | @release permit => cases permit <;> exact .inl ⟨rfl, rfl, fun _ => rfl⟩
  | _ => exact .inl ⟨rfl, rfl, fun _ => rfl⟩

theorem Acts.writesOf_other (h : Acts config s i phase a shared phase') {j : Nat} (hne : i ≠ j) :
    writesOf j shared.log = writesOf j s.shared.log := by
  rcases h.write_cases with ⟨-, -, hsame⟩ | ⟨op, tick, rfl⟩
  · exact hsame j
  · exact writesOf_cons_other hne op tick _ _ _

/-- The machine is the sequential replay of the writes. -/
theorem replay {draw : Draw} {start : System ε} (hnew : new config draw = some start)
    {actions : List (PoolAction Job (TaskAction ε))} (hrun : Runs (Step config) start actions s) :
    s.shared.state =
      runFrom (StateMachine.apply config) start.shared.state (writes s.shared.log) := by
  induction hrun with
  | refl =>
      obtain ⟨state, -, rfl⟩ := Option.map_eq_some_iff.mp hnew
      rfl
  | snoc _ hlast ih =>
      rcases step_cases hlast with
        ⟨job, -, rfl⟩ | ⟨i, a, phase, shared, phase', -, -, hacts, rfl⟩
      · exact ih
      · rcases hacts.write_cases with ⟨hstate, hwrites, -⟩ | ⟨op, tick, rfl⟩
        · rw [hstate, hwrites]
          exact ih
        · simp only [write, writes_cons_wrote, runFrom_append, ← ih]
          rfl

/-! ## The account of a task -/

theorem Reachable.writesOf_fresh (h : Reachable config s) :
    ∀ i, s.tasks.length ≤ i → writesOf i s.shared.log = [] := by
  apply h.invariant
  · intro draw start hnew
    obtain ⟨state, -, rfl⟩ := Option.map_eq_some_iff.mp hnew
    exact fun _ _ => rfl
  · intro s action s' _ hfresh hstep
    rcases step_cases hstep with
      ⟨job, -, rfl⟩ | ⟨j, a, phase, shared, phase', -, hphase, hacts, rfl⟩
    · intro i hlen
      simp only [List.length_append, List.length_singleton] at hlen
      exact hfresh i (by omega)
    · intro i hlen
      simp only [List.length_set] at hlen
      have hlt := (List.getElem?_eq_some_iff.mp hphase).1
      rw [hacts.writesOf_other (by omega)]
      exact hfresh i hlen

@[simp] theorem outcomes_concat (acts : List (TaskAction ε)) (a : TaskAction ε) :
    outcomes (acts ++ [a]) = outcomes acts ++ a.outcome.toList := by
  cases h : a.outcome <;> simp [outcomes, h]

theorem account_start (config : CircuitBreakerConfig arith ε) (job : Job) :
    Account config job [] [] (Phase.start job) := by
  cases job with
  | call => exact ⟨rfl, rfl, rfl⟩
  | record failed => exact ⟨rfl, .inl ⟨rfl, rfl, rfl⟩⟩
  | force f => exact ⟨rfl, rfl, rfl⟩

theorem account_loopHead (current : Nat) :
    Account config .call [] [] (loopHead config current) := by
  unfold loopHead
  split_ifs
  · exact .refused rfl
  · exact ⟨rfl, rfl, rfl⟩

theorem account_finish {permit : Bool} {outcome : Outcome ε}
    (h : finish config permit outcome = some phase) :
    Account config .call [outcome] [] phase := by
  have hleaving : outcome.counted config = none →
      Account config .call [outcome] [] (.leaving permit outcome.answer) := by
    intro hnone
    have hsettles : Settles config .call [outcome] _ outcome.answer := .completed outcome
    rw [hnone] at hsettles
    exact hsettles
  cases outcome with
  | ok value =>
      cases h
      exact ⟨rfl, .inr ⟨rfl, _, rfl, rfl, rfl⟩⟩
  | err e =>
      simp only [finish] at h
      split_ifs at h with hcounts
      · cases h
        exact ⟨rfl, .inr ⟨rfl, _, rfl, rfl, by
          simp [Outcome.counted, Outcome.answer, Answer.counted, hcounts, recordOp]⟩⟩
      · cases h
        exact hleaving (by simp [Outcome.counted, Outcome.answer, Answer.counted, hcounts])
  | elapsed =>
      simp only [finish] at h
      split_ifs at h
      cases h
      exact ⟨rfl, .inr ⟨rfl, _, rfl, rfl, rfl⟩⟩
  | dropped =>
      cases h
      exact hleaving rfl
  | panicked =>
      cases h
      exact hleaving rfl

theorem account_afterRecord {job : Job} {awaited : List (Outcome ε)} {ops : List Op}
    {permit failed : Bool} {answer : Answer ε} {tick : Tick}
    (h : Account config job awaited ops (.recording permit failed answer)) (s : StateMachine) :
    Account config job awaited (ops ++ [recordOp failed])
      (afterRecord permit answer (s.apply config (recordOp failed, tick)).2) := by
  obtain ⟨rfl, hcase⟩ := h
  have hanswer : Settles config job awaited [recordOp failed] answer := by
    rcases hcase with ⟨rfl, rfl, rfl⟩ | ⟨rfl, outcome, rfl, rfl, hcounted⟩
    · exact .recorded (.inl rfl)
    · have hsettles : Settles config .call [outcome] _ outcome.answer := .completed outcome
      rw [hcounted] at hsettles
      exact hsettles
  cases hresult : (s.apply config (recordOp failed, tick)).2 with
  | ok result => cases result <;> exact hanswer
  | error panic =>
      cases failed with
      | false => exact absurd hresult (s.recordSuccess_ne_error tick panic)
      | true =>
          rcases hcase with ⟨rfl, rfl, -⟩ | ⟨rfl, outcome, rfl, -, hcounted⟩
          · exact .recorded (.inr rfl)
          · exact .unwound hcounted

theorem account_own {job : Job} {before : List (TaskAction ε)}
    (hacts : Acts config s i phase a shared phase')
    (h : Account config job (outcomes before) (writesOf i s.shared.log) phase) :
    Account config job (outcomes (before ++ [a])) (writesOf i shared.log) phase' := by
  have hquiet : a.outcome = none → outcomes (before ++ [a]) = outcomes before := fun hnone => by
    rw [outcomes_concat, hnone, Option.toList_none, List.append_nil]
  cases hacts with
  | refuse =>
      obtain ⟨rfl, hawaited, hops⟩ := h
      rw [hquiet rfl, hawaited]
      change Settles config _ _ (writesOf i s.shared.log) _
      rw [hops]
      exact .refused rfl
  | load =>
      obtain ⟨rfl, hawaited, hops⟩ := h
      rw [hquiet rfl, hawaited, hops]
      exact account_loopHead _
  | retry =>
      obtain ⟨rfl, hawaited, hops⟩ := h
      rw [hquiet rfl, hawaited, hops]
      exact account_loopHead _
  | finish hfinish =>
      obtain ⟨rfl, hawaited, hops⟩ := h
      rw [outcomes_concat, hawaited, hops]
      exact account_finish hfinish
  | record =>
      rw [hquiet rfl]
      simp only [write, writesOf_cons_own]
      exact account_afterRecord h s.shared.state
  | @release permit =>
      rw [hquiet rfl]
      cases permit <;> exact h
  | force =>
      obtain ⟨rfl, hawaited, hops⟩ := h
      rw [hquiet rfl, hawaited]
      simp only [write, writesOf_cons_own, hops]
      unfold afterForce
      split
      · exact .forced (.inl rfl)
      · exact .forced (.inr rfl)
  | _ =>
      rw [hquiet rfl]
      exact h

theorem accounts {draw : Draw} {start : System ε} (hnew : new config draw = some start)
    {actions : List (PoolAction Job (TaskAction ε))} (hrun : Runs (Step config) start actions s) :
    ∀ i phase, s.tasks[i]? = some phase → ∃ job, (jobs actions)[i]? = some job ∧
      Account config job (outcomes (PoolAction.acts i actions))
        (writesOf i s.shared.log) phase := by
  have hempty : start.tasks = [] := by
    obtain ⟨state, -, rfl⟩ := Option.map_eq_some_iff.mp hnew
    rfl
  apply Pool.runs_tasks hrun hempty
    (Q := fun shared i job before phase =>
      Account config job (outcomes before) (writesOf i shared.log) phase)
  · intro q job hreach
    rw [Reachable.writesOf_fresh ⟨draw, start, hnew, hreach⟩ _ le_rfl]
    exact account_start config job
  · intro q i phase a shared phase' job before _ _ hact haccount
    exact account_own (acts_of_act hact) haccount
  · intro q i phase a shared phase' j job before other _ _ hact hne haccount
    rw [(acts_of_act hact).writesOf_other hne]
    exact haccount

theorem Settles.counted_eq_none {awaited : List (Outcome ε)} {answer : Answer ε}
    (h : Settles config .call awaited [] answer) : answer.counted config = none := by
  generalize hops : [] = ops at h
  generalize hjob : Job.call = job at h
  cases h with
  | refused hrefusal => cases answer <;> first | rfl | cases hrefusal
  | completed outcome => exact Option.toList_eq_nil_iff.mp hops.symm
  | unwound => cases hops
  | recorded => cases hjob
  | forced => cases hjob

end System

/-! ## Totals -/

namespace Phase

/-- The task has recorded an outcome of this kind, and its answer says so. -/
def contributed (config : CircuitBreakerConfig arith ε) (failed : Bool) : Phase ε → Bool
  | announcing _ _ answer | leaving _ answer | done answer =>
      answer.counted config == some (recordOp failed)
  | idle | loading | acquiring _ | running _ | recording .. | forcing _ | forced .. => false

def returned : Phase ε → Option (Answer ε)
  | done answer => some answer
  | idle | loading | acquiring _ | running _ | recording .. | announcing .. | leaving .. |
    forcing _ | forced .. => none

def fails : Phase ε → Bool
  | recording _ failed _ => failed
  | idle | loading | acquiring _ | running _ | announcing .. | leaving .. | forcing _ |
    forced .. | done _ => false

end Phase

namespace System

/-- The action records no failure whose re-trip unwinds. -/
def Computes (config : CircuitBreakerConfig arith ε) (s : System ε) :
    PoolAction Job (TaskAction ε) → Prop
  | .act i (.record tick) => s.tasks[i]?.any Phase.fails = true →
      ¬ s.shared.state.Unwinds config (.failure, tick)
  | _ => True

variable {config : CircuitBreakerConfig arith ε} {s s' : System ε} {i : Nat}
  {phase phase' : Phase ε}
  {a : TaskAction ε} {shared : Shared}

theorem total_write (s : System ε) (i : Nat) (op : Op) (tick : Tick) (failed : Bool) :
    (write config s.shared i op tick).state.total failed =
      s.shared.state.total failed + op.outcome.count failed :=
  s.shared.state.apply_total op tick failed

theorem total_record (s : System ε) (i : Nat) (outcome : Bool) (tick : Tick) (failed : Bool) :
    (write config s.shared i (recordOp outcome) tick).state.total failed =
      s.shared.state.total failed + (outcome == failed).toNat := by
  rw [total_write]
  cases outcome <;> cases failed <;> rfl

theorem total_force (s : System ε) (i : Nat) (f : Force) (tick : Tick) (failed : Bool) :
    (write config s.shared i f.op tick).state.total failed = s.shared.state.total failed := by
  rw [total_write]
  cases f <;> rfl

theorem loopHead_contributed (current : Nat) (failed : Bool) :
    (loopHead config current).contributed config failed = false := by
  unfold loopHead
  split_ifs <;> rfl

theorem recordOp_beq (outcome failed : Bool) :
    (some (recordOp outcome) == some (recordOp failed)) = (outcome == failed) := by
  cases outcome <;> cases failed <;> rfl

instance (s : System ε) : ∀ action, Decidable (Computes config s action)
  | .act _ (.record _) => inferInstanceAs (Decidable (_ → _))
  | .spawn _ | .act _ (.check _) | .act _ .load | .act _ (.exchange _) | .act _ (.finish _) |
    .act _ .announce | .act _ .release | .act _ (.observe _) | .act _ (.force _) => .isTrue trivial

def unwinds (config : CircuitBreakerConfig arith ε) (s : System ε)
    (action : PoolAction Job (TaskAction ε)) : Bool := decide (¬ Computes config s action)

theorem record_total (hconfig : config.WellFormed) (hreach : Reachable config s)
    {permit outcome : Bool} {answer : Answer ε} {tick : Tick}
    (hphase : s.tasks[i]? = some (.recording permit outcome answer))
    (hcounted : answer.counted config = some (recordOp outcome)) (failed : Bool) :
    (write config s.shared i (recordOp outcome) tick).state.total failed =
      s.shared.state.total failed + ((afterRecord permit answer
        (s.shared.state.apply config (recordOp outcome, tick)).2).contributed config failed).toNat +
      (failed && unwinds config s (.act i (.record tick))).toNat := by
  have hfails : s.tasks[i]?.any Phase.fails = outcome := by simp [hphase, Phase.fails]
  have hcomputes : Computes config s (.act i (.record tick)) ↔
      (outcome = true → ¬ s.shared.state.Unwinds config (.failure, tick)) := by
    rw [Computes, hfails]
  have hiff :=
    hreach.machine.apply_eq_error_iff hconfig (recordOp outcome, tick) .durationConversion
  rw [total_record]
  cases hresult : (s.shared.state.apply config (recordOp outcome, tick)).2 with
  | ok result =>
      have hafter : (afterRecord permit answer (.ok result)).contributed config failed =
          (outcome == failed) := by
        rw [← recordOp_beq, ← hcounted]
        cases result <;> rfl
      have hkept : Computes config s (.act i (.record tick)) := by
        rw [hcomputes]
        rintro rfl hunwinds
        rw [hiff.mpr hunwinds] at hresult
        cases hresult
      simp [hafter, unwinds, hkept]
  | error panic =>
      cases panic
      cases outcome with
      | false => exact absurd hresult (s.shared.state.recordSuccess_ne_error tick _)
      | true =>
          have hlost : ¬ Computes config s (.act i (.record tick)) := by
            rw [hcomputes]
            exact fun h => h rfl (hiff.mp hresult)
          cases failed <;> simp [afterRecord, Phase.contributed, Answer.counted, unwinds, hlost]

theorem Acts.total (hacts : Acts config s i phase a shared phase') (hconfig : config.WellFormed)
    (hreach : Reachable config s) (hphase : s.tasks[i]? = some phase)
    {job : Job} (hjob : ∀ failed, job ≠ .record failed)
    {awaited : List (Outcome ε)} {ops : List Op}
    (haccount : Account config job awaited ops phase) (failed : Bool) :
    shared.state.total failed + (phase.contributed config failed).toNat =
      s.shared.state.total failed + (phase'.contributed config failed).toNat +
        (failed && unwinds config s (.act i a)).toNat := by
  have hkept : (∀ tick, a ≠ .record tick) →
      (failed && unwinds config s (.act i a)).toNat = 0 := by
    intro hne
    cases a with
    | record tick => exact absurd rfl (hne tick)
    | _ => simp [unwinds, Computes]
  cases hacts with
  | load =>
      rw [hkept (by simp), loopHead_contributed]
      rfl
  | retry =>
      rw [hkept (by simp), loopHead_contributed]
      rfl
  | finish hfinish =>
      obtain ⟨rfl, rfl, rfl⟩ := haccount
      have hafter := account_finish hfinish
      rw [hkept (by simp)]
      obtain ⟨answer, -, ⟨outcome, rfl⟩ | rfl⟩ := finish_cases hfinish
      · rfl
      · rw [Phase.contributed, Settles.counted_eq_none hafter]
        rfl
  | record hwrite =>
      obtain ⟨-, ⟨rfl, -⟩ | ⟨-, result, -, rfl, hcounted⟩⟩ := haccount
      · exact absurd rfl (hjob _)
      · exact record_total hconfig hreach hphase hcounted failed
  | @release permit =>
      rw [hkept (by simp)]
      cases permit <;> rfl
  | force =>
      rw [hkept (by simp), total_force]
      unfold afterForce
      split <;> rfl
  | _ =>
      rw [hkept (by simp)]
      rfl

variable {start : System ε} {actions : List (PoolAction Job (TaskAction ε))}

theorem totals (hconfig : config.WellFormed) {draw : Draw} (hnew : new config draw = some start)
    (hjobs : ∀ failed, .spawn (Job.record failed) ∉ actions)
    (hrun : Runs (Step config) start actions s) :
    s.shared.state.total false = s.tasks.countP (Phase.contributed config false) ∧
      s.shared.state.total true = s.tasks.countP (Phase.contributed config true) +
        countSteps (Pool.step Phase.start (act config)) (unwinds config) start actions := by
  induction hrun with
  | refl =>
      obtain ⟨state, hstate, rfl⟩ := Option.map_eq_some_iff.mp hnew
      obtain ⟨wait, -, rfl⟩ := StateMachine.new_eq hstate
      exact ⟨rfl, rfl⟩
  | @snoc s _ actions action hprefix hlast ih =>
      obtain ⟨hsuccesses, hfailures⟩ := ih fun failed hmem =>
        hjobs failed (List.mem_append_left _ hmem)
      rw [countSteps_concat _ hprefix]
      rcases step_cases hlast with
        ⟨job, rfl, rfl⟩ | ⟨i, a, phase, shared, phase', rfl, hphase, hacts, rfl⟩
      · constructor
        · cases job <;> simp [hsuccesses, Phase.start, Phase.contributed]
        · cases job <;> simp [hfailures, Phase.start, Phase.contributed, unwinds, Computes]
      · obtain ⟨job, hjob, haccount⟩ := accounts hnew hprefix i phase hphase
        have hmanual : ∀ failed, job ≠ .record failed := by
          rintro failed rfl
          exact hjobs failed
            (List.mem_append_left _ (mem_jobs.mp (List.mem_of_getElem? hjob)))
        have hreach : Reachable config s := ⟨draw, start, hnew, actions, hprefix⟩
        have htotal := hacts.total hconfig hreach hphase hmanual haccount
        have hset := fun failed =>
          Pool.countP_set (Phase.contributed config failed) hphase phase'
        constructor
        · have hfalse := htotal false
          have := hset false
          simp only [Bool.false_and, Bool.toNat_false] at hfalse
          dsimp only
          omega
        · have htrue := htotal true
          have := hset true
          simp only [Bool.true_and] at htrue
          dsimp only
          omega

/-! ## At quiescence -/

/-- No task is on its way: every call that has started, and every forced transition, is over. -/
def Quiescent (s : System ε) : Prop :=
  ∀ phase ∈ s.tasks, phase = .idle ∨ ∃ answer, phase = .done answer

def answers (s : System ε) : List (Answer ε) := s.tasks.filterMap Phase.returned

def countedAnswers (config : CircuitBreakerConfig arith ε) (s : System ε) (failed : Bool) : Nat :=
  (answers s).countP fun answer => answer.counted config == some (recordOp failed)

theorem Quiescent.contributed (h : Quiescent s) (failed : Bool) :
    s.tasks.countP (Phase.contributed config failed) = countedAnswers config s failed := by
  unfold countedAnswers answers
  rw [List.countP_filterMap]
  apply List.countP_congr
  intro phase hmem
  rcases h phase hmem with rfl | ⟨answer, rfl⟩
  · simp [Phase.contributed, Phase.returned]
  · simp [Phase.contributed, Phase.returned]

def TotalsExact (config : CircuitBreakerConfig arith ε) (s : System ε) : Prop :=
  s.shared.state.totalSuccesses = countedAnswers config s false ∧
    s.shared.state.totalFailures = countedAnswers config s true

/-- What the calls and the forced transitions of a run account for. -/
structure Accounted (config : CircuitBreakerConfig arith ε) (start : System ε)
    (actions : List (PoolAction Job (TaskAction ε))) (s : System ε) : Prop where
  replay : s.shared.state =
    runFrom (StateMachine.apply config) start.shared.state (writes s.shared.log)
  /-- Only forced transitions and calls with a counted outcome write. -/
  writers : ∀ i, ∀ op ∈ writesOf i s.shared.log,
    (∃ f : Force, (jobs actions)[i]? = some (.force f) ∧ op = f.op) ∨
      (jobs actions)[i]? = some .call ∧ ∃ outcome,
        outcomes (PoolAction.acts i actions) = [outcome] ∧ outcome.counted config = some op
  /-- A call that has returned has written what is due for its answer, and nothing else. -/
  contributes : ∀ i answer, (jobs actions)[i]? = some .call →
    s.tasks[i]? = some (.done answer) → answer ≠ .unwound →
    writesOf i s.shared.log = (answer.counted config).toList
  values : ∀ i value, s.tasks[i]? = some (.done (.ok value)) →
    outcomes (PoolAction.acts i actions) = [.ok value]
  errors : ∀ i err, s.tasks[i]? = some (.done (.failure err)) →
    outcomes (PoolAction.acts i actions) = [.err err]

theorem Settles.writers {job : Job} {awaited : List (Outcome ε)} {ops : List Op}
    {answer : Answer ε} (h : Settles config job awaited ops answer)
    (hjob : ∀ failed, job ≠ .record failed) : ∀ op ∈ ops,
      (∃ f : Force, job = .force f ∧ op = f.op) ∨
        job = .call ∧ ∃ outcome, awaited = [outcome] ∧ outcome.counted config = some op := by
  cases h with
  | refused => simp
  | completed outcome =>
      intro op hop
      exact .inr ⟨rfl, outcome, rfl, Option.mem_toList.mp hop⟩
  | unwound hcounted =>
      intro op hop
      rw [List.mem_singleton] at hop
      exact .inr ⟨rfl, _, rfl, hop ▸ hcounted⟩
  | recorded => exact absurd rfl (hjob _)
  | forced =>
      intro op hop
      exact .inl ⟨_, rfl, List.mem_singleton.mp hop⟩

theorem Account.writers {job : Job} {awaited : List (Outcome ε)} {ops : List Op}
    (h : Account config job awaited ops phase) (hjob : ∀ failed, job ≠ .record failed) :
    ∀ op ∈ ops, (∃ f : Force, job = .force f ∧ op = f.op) ∨
      job = .call ∧ ∃ outcome, awaited = [outcome] ∧ outcome.counted config = some op := by
  cases phase with
  | announcing => exact Settles.writers h hjob
  | leaving => exact Settles.writers h hjob
  | done => exact Settles.writers h hjob
  | recording =>
      obtain ⟨rfl, -⟩ := h
      simp
  | _ =>
      obtain ⟨-, -, rfl⟩ := h
      simp

theorem Settles.contributes {awaited : List (Outcome ε)} {ops : List Op} {answer : Answer ε}
    (h : Settles config .call awaited ops answer) (hanswer : answer ≠ .unwound) :
    ops = (answer.counted config).toList := by
  generalize hjob : Job.call = job at h
  cases h with
  | refused hrefusal => cases answer <;> first | rfl | cases hrefusal
  | completed outcome => rfl
  | unwound => exact absurd rfl hanswer
  | recorded => cases hjob
  | forced => cases hjob

theorem Settles.awaited {job : Job} {awaited : List (Outcome ε)} {ops : List Op}
    {answer : Answer ε} (h : Settles config job awaited ops answer) :
    (∀ value, answer = .ok value → awaited = [.ok value]) ∧
      ∀ err, answer = .failure err → awaited = [.err err] := by
  cases h with
  | refused hrefusal =>
      constructor
      · rintro value rfl
        cases hrefusal
      · rintro err rfl
        cases hrefusal
  | completed outcome => cases outcome <;> simp [Outcome.answer]
  | unwound => simp
  | recorded hanswer => rcases hanswer with rfl | rfl <;> simp
  | forced hanswer => rcases hanswer with rfl | rfl <;> simp

theorem accounted {draw : Draw} (hnew : new config draw = some start)
    (hjobs : ∀ failed, .spawn (Job.record failed) ∉ actions)
    (hrun : Runs (Step config) start actions s) : Accounted config start actions s := by
  have hreach : Reachable config s := ⟨draw, start, hnew, actions, hrun⟩
  have haccounts := accounts hnew hrun
  have hmanual : ∀ (i : Nat) (job : Job), (jobs actions)[i]? = some job →
      ∀ failed, job ≠ .record failed := by
    rintro i _ hjob failed rfl
    exact hjobs failed (mem_jobs.mp (List.mem_of_getElem? hjob))
  refine ⟨replay hnew hrun, ?_, ?_, ?_, ?_⟩
  · intro i op hop
    cases hphase : s.tasks[i]? with
    | none =>
        rw [hreach.writesOf_fresh i (List.getElem?_eq_none_iff.mp hphase)] at hop
        cases hop
    | some phase =>
        obtain ⟨job, hjob, haccount⟩ := haccounts i phase hphase
        rw [hjob]
        simpa using Account.writers haccount (hmanual i job hjob) op hop
  · intro i answer hcall hphase hanswer
    obtain ⟨job, hjob, haccount⟩ := haccounts i _ hphase
    rw [hcall] at hjob
    cases hjob
    exact Settles.contributes haccount hanswer
  · intro i value hphase
    obtain ⟨job, -, haccount⟩ := haccounts i _ hphase
    exact (Settles.awaited haccount).1 value rfl
  · intro i err hphase
    obtain ⟨job, -, haccount⟩ := haccounts i _ hphase
    exact (Settles.awaited haccount).2 err rfl

/--
Calls and forced transitions refine the sequential machine with exact accounts,
except that the totals count a call whose record unwinds.
-/
theorem accounting (b : CircuitBreakerConfigBuilder arith ε) {draw : Draw}
    (hnew : new b.build draw = some start) (hjobs : ∀ failed, .spawn (Job.record failed) ∉ actions)
    (hrun : Runs (Step b.build) start actions s) :
    Accounted b.build start actions s ∧
      (Quiescent s → (TotalsExact b.build s ↔
        AlongRun (Step b.build) (Computes b.build) start actions)) := by
  refine ⟨accounted hnew hjobs hrun, fun hquiet => ?_⟩
  obtain ⟨hsuccesses, hfailures⟩ := totals (build_wellFormed b) hnew hjobs hrun
  rw [hquiet.contributed] at hsuccesses hfailures
  have hcount : _ = 0 ↔ AlongRun (Step b.build) (Computes b.build) start actions :=
    countSteps_eq_zero_iff hrun
  rw [← hcount, TotalsExact]
  change _ ↔ countSteps _ (unwinds b.build) start actions = 0
  simp only [StateMachine.total, Bool.false_eq_true, ↓reduceIte] at hsuccesses hfailures
  omega

theorem accounting_outage :
    ∃ start, new hairTrigger.build 0 = some start ∧
      Accounted hairTrigger.build start outageRun outage ∧
      (Quiescent outage → (TotalsExact hairTrigger.build outage ↔
        AlongRun (Step hairTrigger.build) (Computes hairTrigger.build) start outageRun)) :=
  ⟨_, rfl, @accounting _ _ _ _ outageRun hairTrigger 0 rfl (by simp [outageRun])
    (runs_of_execute rfl)⟩

def unwindingRun : List (PoolAction Job (TaskAction Unit)) :=
  [.spawn .call, .spawn .call,
   .act 0 (.check 0), .act 0 (.finish (.err ())), .act 0 (.record ⟨0, 0, 0⟩), .act 0 .announce,
   .act 0 .release,
   .act 1 (.check 1), .act 1 .load, .act 1 (.exchange false), .act 1 (.finish (.err ())),
   .act 1 (.record ⟨1, 1, 0⟩), .act 1 .release]

theorem quiescent_of_all (h : s.tasks.all (fun phase => phase.returned.isSome) = true) :
    Quiescent s := by
  intro phase hmem
  have hreturned := List.all_eq_true.mp h phase hmem
  cases phase with
  | done answer => exact .inr ⟨answer, rfl⟩
  | _ => cases hreturned

/-- The second call is counted, and unwinds in the wait of the re-trip. -/
theorem accounting_overlongWait :
    ¬ ∀ (b : CircuitBreakerConfigBuilder .single Unit) (draw : Draw) (start s : System Unit)
      (actions : List (PoolAction Job (TaskAction Unit))), new b.build draw = some start →
      (∀ failed, .spawn (Job.record failed) ∉ actions) → Runs (Step b.build) start actions s →
      Quiescent s → TotalsExact b.build s := by
  intro hlaw
  let step := Pool.step Phase.start (act StateMachine.overlongWait.build)
  have hend : ((new StateMachine.overlongWait.build 0).bind fun start =>
      (execute step start unwindingRun).map fun s =>
        (s.tasks.all fun phase => phase.returned.isSome, s.shared.state.totalFailures,
          countedAnswers StateMachine.overlongWait.build s true)) = some (true, 2, 1) := by
    decide +kernel
  obtain ⟨start, hnew, hrest⟩ := Option.bind_eq_some_iff.mp hend
  obtain ⟨s, hrun, hvalues⟩ := Option.map_eq_some_iff.mp hrest
  simp only [Prod.mk.injEq] at hvalues
  have hexact := hlaw StateMachine.overlongWait 0 start s unwindingRun hnew
    (by simp [unwindingRun]) (runs_of_execute hrun) (quiescent_of_all hvalues.1)
  have hfailures := hexact.2
  rw [hvalues.2.1, hvalues.2.2] at hfailures
  cases hfailures

end System

end Breaker
