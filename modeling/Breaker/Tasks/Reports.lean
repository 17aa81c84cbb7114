import Breaker.Tasks.Episode

/-!
# What a callback reports

A record takes the state that it replaces inside its write-locked section, but
`trip()` and `reset()` read it under a read lock of their own and write only
later.  Every pair that a callback is given is the pair of one write, provided
that between the two sections of each forced transition no other task makes a
transition and no wait ends.
-/

namespace Breaker

open Foundation

universe u

variable {arith : RateArithmetic} {ε : Type u}

/-- The task has written once, and the section found and left the states of the pair. -/
def ReportsWrite (log : List Event) (i : Nat) (pair : State × State) : Prop :=
  (∃ op tick, .wrote i op tick pair.1 pair.2 ∈ log) ∧
    ∀ op tick prev next, .wrote i op tick prev next ∈ log → (prev, next) = pair

def CallbacksReportWrites (log : List Event) : Prop :=
  ∀ i pair, .called i pair ∈ log → ReportsWrite log i pair

namespace System

variable {config : CircuitBreakerConfig arith ε} {start s s' : System ε} {i : Nat}
  {phase phase' : Phase ε} {a : TaskAction ε} {shared : Shared}
  {actions : List (PoolAction Job (TaskAction ε))}

/-! ## The two sections of a forced transition -/

variable (config start actions) in
/--
Between the two sections of a forced transition no transition is counted, and no
wait ends.
-/
def Undisturbed : Prop :=
  ∀ i now tick before between after r,
    actions = before ++ .act i (.observe now) :: between ++ .act i (.force tick) :: after →
    Runs (Step config) start before r →
    (∀ s, Runs (Step config) r (.act i (.observe now) :: between) s →
        s.shared.state.transitions = r.shared.state.transitions) ∧
      ∀ since ∈ r.shared.state.openSince,
        ¬ (now < since + r.shared.state.waitDuration.nanos ∧
          since + r.shared.state.waitDuration.nanos ≤ tick.now)

theorem Undisturbed.of_concat {action : PoolAction Job (TaskAction ε)}
    (h : Undisturbed config start (actions ++ [action])) : Undisturbed config start actions := by
  intro i now tick before between after r heq
  apply h i now tick before between (after ++ [action]) r
  rw [heq]
  simp

variable (config start actions) in
def ObservedBy (s : System ε) (i : Nat) (prev : State) : Prop :=
  ∃ before now between r, actions = before ++ .act i (.observe now) :: between ∧
    Runs (Step config) start before r ∧
    Runs (Step config) r (.act i (.observe now) :: between) s ∧
    prev = r.shared.state.currentAt now

theorem ObservedBy.concat {prev : State} (h : ObservedBy config start actions s i prev)
    {action : PoolAction Job (TaskAction ε)} (hstep : Step config s action s') :
    ObservedBy config start (actions ++ [action]) s' i prev := by
  obtain ⟨before, now, between, r, rfl, hbefore, hbetween, hprev⟩ := h
  exact ⟨before, now, between ++ [action], r, by simp, hbefore, hbetween.snoc hstep, hprev⟩

theorem Acts.forced {f : Force} {prev : State}
    (h : Acts config s i phase a shared (.forced f prev)) :
    ∃ now, a = .observe now ∧ prev = s.shared.state.currentAt now := by
  generalize hlast : Phase.forced f prev = last at h
  cases h with
  | observe =>
      cases hlast
      exact ⟨_, rfl, rfl⟩
  | finish hfinish =>
      obtain ⟨answer, -, ⟨failed, rfl⟩ | rfl⟩ := finish_cases hfinish <;> cases hlast
  | record =>
      unfold afterRecord at hlast
      split at hlast <;> cases hlast
  | force =>
      unfold afterForce at hlast
      split at hlast <;> cases hlast
  | load =>
      unfold loopHead at hlast
      split_ifs at hlast
  | retry =>
      unfold loopHead at hlast
      split_ifs at hlast
  | _ => cases hlast

theorem observed_of_forced (hempty : start.tasks = [])
    (hrun : Runs (Step config) start actions s) :
    ∀ i f prev, s.tasks[i]? = some (.forced f prev) →
      ObservedBy config start actions s i prev := by
  induction hrun with
  | refl => simp [hempty]
  | @snoc r _ actions action hprefix hlast ih =>
      rcases step_cases hlast with
        ⟨job, rfl, rfl⟩ | ⟨j, a, phase, shared, phase', rfl, hphase, hacts, rfl⟩
      · intro i f prev hforced
        rcases Pool.getElem?_concat_cases hforced with hold | ⟨-, hstart⟩
        · exact (ih i f prev hold).concat hlast
        · cases job <;> cases hstart
      · intro i f prev hforced
        rcases Pool.getElem?_set_cases hforced with ⟨rfl, rfl⟩ | ⟨-, hold⟩
        · obtain ⟨now, rfl, hprev⟩ := hacts.forced
          exact ⟨actions, now, [], r, rfl, hprefix, .single hlast, hprev⟩
        · exact (ih i f prev hold).concat hlast

theorem Undisturbed.force {draw : Draw} {f : Force} {prev : State} {tick : Tick}
    (h : Undisturbed config start (actions ++ [.act i (.force tick)]))
    (hnew : new config draw = some start) (hrun : Runs (Step config) start actions s)
    (hphase : s.tasks[i]? = some (.forced f prev)) (hwrite : CanWrite s tick) :
    prev = s.shared.state.currentAt tick.now := by
  have hempty : start.tasks = [] := by
    obtain ⟨state, -, rfl⟩ := Option.map_eq_some_iff.mp hnew
    rfl
  obtain ⟨before, now, between, r, rfl, hbefore, hbetween, rfl⟩ :=
    observed_of_forced hempty hrun i f prev hphase
  obtain ⟨hquiet, hwait⟩ := h i now tick before between [] r rfl hbefore
  have hreach : Reachable config r := ⟨draw, start, hnew, before, hbefore⟩
  have hclock : r.shared.clock ≤ now := by
    obtain ⟨t, hobserve, -⟩ := hbetween.uncons
    rcases step_cases hobserve with
      ⟨job, habsurd, -⟩ | ⟨j, a, phase, shared, phase', heq, -, hacts, -⟩
    · cases habsurd
    · cases heq
      exact hacts.clock_le_reading now rfl
  have hlater : now ≤ tick.now :=
    (reading_le_of_runs hbetween i (.observe now) List.mem_cons_self now rfl).trans hwrite.2.1
  rcases keepsStanding_of_runs hbetween with hlt | ⟨-, hstanding⟩
  · exact absurd (hquiet s hbetween) hlt.ne'
  · exact (hstanding.currentAt_eq hreach.openedBy hclock hlater hwait).symm

/-! ## Writes and their reports -/

theorem ReportsWrite.acts {j : Nat} {pair : State × State} (h : ReportsWrite s.shared.log j pair)
    (hledger : Ledger s) (hreach : Reachable config s) (hphase : s.tasks[i]? = some phase)
    (hacts : Acts config s i phase a shared phase') : ReportsWrite shared.log j pair := by
  obtain ⟨⟨op, tick, hwrote⟩, hunique⟩ := h
  rcases hacts.locked_or_unlocked hreach hphase with
    ⟨news, hunlocked⟩ | ⟨newOp, newTick, hlocked⟩
  · rw [hunlocked.log]
    refine ⟨⟨op, tick, List.mem_append_right _ hwrote⟩, fun op tick prev next hmem => ?_⟩
    rcases List.mem_append.mp hmem with hnew | hold
    · cases hunlocked.logged _ (Option.mem_toList.mp hnew)
    · exact hunique op tick prev next hold
  · have hother : j ≠ i := by
      rintro rfl
      exact hledger.not_wrote hphase hlocked.before _ _ _ _ hwrote
    rw [hlocked.shared_eq]
    refine ⟨⟨op, tick, List.mem_cons_of_mem _ hwrote⟩, fun op tick prev next hmem => ?_⟩
    rcases List.mem_cons.mp hmem with hnew | hold
    · cases hnew
      exact absurd rfl hother
    · exact hunique op tick prev next hold

theorem reportsWrite_write (hledger : Ledger s) (hphase : s.tasks[i]? = some phase)
    (hbefore : phase.written = false) {op : Op} {tick : Tick} {pair : State × State}
    (hpair : pair = (s.shared.state.currentAt tick.now,
      (s.shared.state.apply config (op, tick)).1.current)) :
    ReportsWrite (write config s.shared i op tick).log i pair := by
  subst hpair
  refine ⟨⟨op, tick, List.mem_cons_self⟩, fun op tick prev next hmem => ?_⟩
  rcases List.mem_cons.mp hmem with hnew | hold
  · cases hnew
    rfl
  · exact absurd hold (hledger.not_wrote hphase hbefore _ _ _ _)

theorem apply_force_current (s : StateMachine) (f : Force) (tick : Tick) :
    (s.apply config (f.op, tick)).1.current = f.next := by
  cases f with
  | trip =>
      obtain ⟨wait, heq⟩ := StateMachine.transition_opened_cases config tick s
      change (s.transition .opened config tick).1.current = .opened
      rw [heq]
      rfl
  | reset => rfl

theorem Acts.announcing {permit : Bool} {pair : State × State} {answer : Answer ε}
    (hacts : Acts config s i phase a shared (.announcing permit pair answer))
    (hledger : Ledger s) (hphase : s.tasks[i]? = some phase)
    (hforce : ∀ f prev tick, phase = .forced f prev → a = .force tick → CanWrite s tick →
      prev = s.shared.state.currentAt tick.now) :
    ReportsWrite shared.log i pair := by
  generalize hlast : Phase.announcing permit pair answer = last at hacts
  cases hacts with
  | @record _ failed _ tick =>
      apply reportsWrite_write hledger hphase rfl
      rw [StateMachine.apply_recordOp] at hlast ⊢
      apply StateMachine.record_announces
      unfold afterRecord at hlast
      split at hlast
      · rename_i hresult
        cases hlast
        exact hresult
      · cases hlast
      · cases hlast
  | @force f prev tick hwrite =>
      apply reportsWrite_write hledger hphase rfl
      rw [apply_force_current, ← hforce f prev tick rfl rfl hwrite]
      unfold afterForce at hlast
      split at hlast <;> cases hlast
      rfl
  | finish hfinish =>
      obtain ⟨answer, -, ⟨failed, rfl⟩ | rfl⟩ := finish_cases hfinish <;> cases hlast
  | load =>
      unfold loopHead at hlast
      split_ifs at hlast
  | retry =>
      unfold loopHead at hlast
      split_ifs at hlast
  | _ => cases hlast

theorem Acts.called {j : Nat} {pair : State × State}
    (hacts : Acts config s i phase a shared phase') (hmem : .called j pair ∈ shared.log) :
    .called j pair ∈ s.shared.log ∨
      j = i ∧ ∃ permit answer, phase = .announcing permit pair answer := by
  cases hacts with
  | announce =>
      rcases List.mem_cons.mp hmem with hnew | hold
      · cases hnew
        exact .inr ⟨rfl, _, _, rfl⟩
      · exact .inl hold
  | @release permit => cases permit <;> simp_all [drop]
  | record => exact .inl (by simpa [write] using hmem)
  | force => exact .inl (by simpa [write] using hmem)
  | enter => exact .inl (by simpa using hmem)
  | acquire => exact .inl (by simpa using hmem)
  | _ => exact .inl hmem

/-! ## The run -/

structure Reporting (s : System ε) : Prop where
  due : ∀ i permit pair answer, s.tasks[i]? = some (.announcing permit pair answer) →
    ReportsWrite s.shared.log i pair
  called : CallbacksReportWrites s.shared.log

theorem Reporting.acts (h : Reporting s) (hledger : Ledger s) (hreach : Reachable config s)
    (hphase : s.tasks[i]? = some phase) (hacts : Acts config s i phase a shared phase')
    (hforce : ∀ f prev tick, phase = .forced f prev → a = .force tick → CanWrite s tick →
      prev = s.shared.state.currentAt tick.now) :
    Reporting { shared := shared, tasks := s.tasks.set i phase' } where
  due j permit pair answer hdue := by
    rcases Pool.getElem?_set_cases hdue with ⟨rfl, rfl⟩ | ⟨-, hold⟩
    · exact hacts.announcing hledger hphase hforce
    · exact ReportsWrite.acts (h.due j permit pair answer hold) hledger hreach hphase hacts
  called j pair hmem := by
    refine ReportsWrite.acts ?_ hledger hreach hphase hacts
    rcases hacts.called hmem with hold | ⟨rfl, permit, answer, rfl⟩
    · exact h.called j pair hold
    · exact h.due j permit pair answer hphase

/--
Every callback reports the state that its write replaced and the one it left, in
every run whose forced transitions are undisturbed.
-/
theorem callbacks_report_writes (b : CircuitBreakerConfigBuilder arith ε) {draw : Draw}
    (hnew : new b.build draw = some start) (hrun : Runs (Step b.build) start actions s)
    (hcalm : Undisturbed b.build start actions) : CallbacksReportWrites s.shared.log := by
  have hconfig := build_wellFormed b
  suffices hreporting : Reporting s from hreporting.called
  induction hrun with
  | refl =>
      obtain ⟨state, -, rfl⟩ := Option.map_eq_some_iff.mp hnew
      exact ⟨by simp, by simp [CallbacksReportWrites]⟩
  | @snoc r _ actions action hprefix hlast ih =>
      have hreach : Reachable b.build r := ⟨draw, start, hnew, actions, hprefix⟩
      have hreporting := ih hcalm.of_concat
      rcases step_cases hlast with
        ⟨job, rfl, rfl⟩ | ⟨i, a, phase, shared, phase', rfl, hphase, hacts, rfl⟩
      · refine ⟨fun i permit pair answer hdue => ?_, hreporting.called⟩
        rcases Pool.getElem?_concat_cases hdue with hold | ⟨-, hstart⟩
        · exact hreporting.due i permit pair answer hold
        · cases job <;> cases hstart
      · refine hreporting.acts (hreach.ledger hconfig) hreach hphase hacts ?_
        rintro f prev tick rfl rfl hwrite
        exact hcalm.force hnew hprefix hphase hwrite

def beforeTrip : List (PoolAction Job (TaskAction Unit)) :=
  [.spawn (.force .trip), .spawn .call, .spawn (.record false), .act 1 (.check 0)]

def amidTrip : List (PoolAction Job (TaskAction Unit)) :=
  [.act 1 (.finish (.ok ())), .act 2 (.record ⟨2, 2, 0⟩), .act 2 .release]

def afterTrip : List (PoolAction Job (TaskAction Unit)) :=
  [.act 1 (.record ⟨3, 3, 0⟩), .act 0 .announce, .act 1 .announce]

/-- A call and a record run among the sections of a `trip()`, and the call closes the circuit. -/
def tripRun : List (PoolAction Job (TaskAction Unit)) :=
  beforeTrip ++ .act 0 (.observe 1) :: amidTrip ++ .act 0 (.force ⟨2, 2, 0⟩) :: afterTrip

theorem callbacks_report_writes_trip :
    ∃ start s, new hairTrigger.build 0 = some start ∧
      Runs (Step hairTrigger.build) start tripRun s ∧
      .called 0 (.closed, .opened) ∈ s.shared.log ∧
      .called 1 (.halfOpen, .closed) ∈ s.shared.log ∧ CallbacksReportWrites s.shared.log := by
  refine ⟨_, _, rfl, runs_of_execute rfl, by decide, by decide,
    @callbacks_report_writes _ _ _ _ tripRun hairTrigger 0 rfl (runs_of_execute rfl) ?_⟩
  intro i now tick before between after r heq hbefore
  rw [tripRun, List.append_assoc, List.append_assoc, List.cons_append, List.cons_append,
    List.append_cons_inj_of_notMem (by simp [beforeTrip])
      (by simp [amidTrip, afterTrip])] at heq
  obtain ⟨rfl, hobserve, hrest⟩ := heq
  cases hobserve
  rw [List.append_cons_inj_of_notMem (by simp [amidTrip]) (by simp [afterTrip])] at hrest
  obtain ⟨rfl, hforce, -⟩ := hrest
  cases hforce
  have hunique : ∀ s a t t', Step hairTrigger.build s a t → Step hairTrigger.build s a t' →
      t = t' := fun _ _ _ _ => Pool.step_unique
  cases hbefore.unique hunique (runs_of_execute rfl)
  refine ⟨fun s hbetween => ?_, fun since hsince => by cases hsince⟩
  cases hbetween.unique hunique (runs_of_execute rfl)
  rfl

def staleTripRun : List (PoolAction Job (TaskAction Unit)) :=
  [.spawn (.force .trip), .spawn (.record true), .act 0 (.observe 0), .act 1 (.record ⟨0, 0, 0⟩),
   .act 0 (.force ⟨0, 0, 0⟩), .act 0 .announce]

/-- A failure opens the circuit between the two sections of `trip()`. -/
theorem callbacks_staleTrip :
    ¬ ∀ (b : CircuitBreakerConfigBuilder .single Unit) (draw : Draw) (start s : System Unit)
      (actions : List (PoolAction Job (TaskAction Unit))), new b.build draw = some start →
      (∀ job, .spawn job ∈ actions → job ≠ .call) → Runs (Step b.build) start actions s →
      CallbacksReportWrites s.shared.log := by
  intro hlaw
  have hreports := hlaw hairTrigger 0 _ _ staleTripRun rfl (by simp [staleTripRun])
    (runs_of_execute rfl) 0 (.closed, .opened) List.mem_cons_self
  have hpair := hreports.2 .forceOpen ⟨0, 0, 0⟩ .opened .opened
    (List.mem_cons_of_mem _ List.mem_cons_self)
  cases hpair

end System

end Breaker
