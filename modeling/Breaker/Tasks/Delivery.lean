import Breaker.Call.Announcements
import Breaker.Tasks.Accounting
import Breaker.Tasks.Reports

/-!
# Delivery of the callbacks

A write-locked section decides what is announced; the callback itself runs
later, outside of the lock, in the order of the threads.  Every announcement that
a section has decided is either pending in its task or has been made, once.  The
transitions that nobody announces are the lazy upgrades, which a record applies
on its way, and those whose wait panics.
-/

namespace Breaker

open Foundation

universe u

variable {arith : RateArithmetic} {ε : Type u}

/-! ## What one operation announces -/

namespace StateMachine

variable (config : CircuitBreakerConfig arith ε)

/-- The announcements that the operation decides, of those into a state with `q`. -/
def announces (q : State → Bool) (s : StateMachine) (input : Op × Tick) : Nat :=
  (announcements (s.apply config input).2).countP fun pair => q pair.2

/-- A record that finds the wait elapsed upgrades the circuit without a word. -/
def upgrades (s : StateMachine) (input : Op × Tick) : Nat :=
  if input.1.outcome ≠ [] ∧ s.Due input.2.now then 1 else 0

/-- A transition whose wait panics is not announced. -/
def unwound (s : StateMachine) (input : Op × Tick) : Nat :=
  match (s.apply config input).2 with
  | .ok _ => 0
  | .error _ => 1

variable {config} {s : StateMachine}

def Counts (s : StateMachine) (step : StateMachine × Except Panic (Option (State × State))) :
    Prop :=
  step.1.transitions = s.transitions + (announcements step.2).length +
    match step.2 with
    | .ok _ => 0
    | .error _ => 1

theorem counts_tripped (s : StateMachine) (prev : State) (tick : Tick) (wait : Duration) :
    Counts s (s.tripped tick.stamp wait, s.tripReport config tick prev) := by
  unfold Counts tripReport
  cases s.nextWait config tick <;> rfl

theorem counts_settleSuccess (s : StateMachine) (tick : Tick) :
    Counts s (s.settleSuccess config tick) := by
  rcases s.settleSuccess_cases config tick with ⟨-, heq⟩ | ⟨-, heq⟩ | ⟨-, -, heq⟩ | ⟨-, -, heq⟩
  all_goals
    rw [heq]
    rfl

theorem counts_settleFailure (s : StateMachine) (tick : Tick) :
    Counts s (s.settleFailure config tick) := by
  rcases s.settleFailure_cases config tick with
    ⟨-, heq⟩ | ⟨-, -, heq⟩ | ⟨-, -, wait, heq⟩ | ⟨-, wait, heq⟩
  · rw [heq]
    rfl
  · rw [heq]
    rfl
  · rw [heq]
    exact counts_tripped s.failed .closed tick wait
  · rw [heq]
    exact counts_tripped s .halfOpen tick wait

theorem maybeTransition_transitions (s : StateMachine) (now : Nat) :
    (s.maybeTransitionToHalfOpen now).transitions =
      s.transitions + if s.Due now then 1 else 0 := by
  split_ifs with hdue
  · rw [maybeTransitionToHalfOpen_of_due hdue, upgraded]
  · rw [maybeTransitionToHalfOpen_of_not_due hdue, Nat.add_zero]

theorem counts_forced (s : StateMachine) (prev next : State) (tick : Tick) :
    Counts s (forced prev next (s.transition next config tick)) := by
  cases next with
  | closed => rfl
  | halfOpen => rfl
  | opened =>
      cases hwait : s.nextWait config tick with
      | none =>
          rw [transition_opened_none config tick hwait]
          rfl
      | some wait =>
          rw [transition_opened_some config tick hwait]
          rfl

variable (config) in
theorem apply_transitions (s : StateMachine) (input : Op × Tick) :
    (s.apply config input).1.transitions = s.transitions +
      (announces config (fun _ => true) s input + (s.upgrades input + unwound config s input)) := by
  obtain ⟨op, tick⟩ := input
  simp only [announces, List.countP_true, upgrades, unwound]
  cases op with
  | success =>
      have hupgrade := s.countSuccess.maybeTransition_transitions tick.now
      have hcounts : Counts _ (s.apply config (.success, tick)) :=
        counts_settleSuccess (s.countSuccess.maybeTransitionToHalfOpen tick.now) tick
      rw [hcounts, hupgrade]
      simp only [countSuccess_due, Op.outcome, ne_eq, reduceCtorEq, not_false_eq_true, true_and]
      change s.transitions + _ + _ + _ = _
      omega
  | failure =>
      have hupgrade := s.countFailure.maybeTransition_transitions tick.now
      have hcounts : Counts _ (s.apply config (.failure, tick)) :=
        counts_settleFailure (s.countFailure.maybeTransitionToHalfOpen tick.now) tick
      rw [hcounts, hupgrade]
      simp only [countFailure_due, Op.outcome, ne_eq, reduceCtorEq, not_false_eq_true, true_and]
      change s.transitions + _ + _ + _ = _
      omega
  | forceOpen =>
      have hcounts : Counts s (s.apply config (.forceOpen, tick)) :=
        counts_forced s (s.currentAt tick.now) .opened tick
      rw [hcounts]
      simp [Op.outcome, Nat.add_assoc]
  | forceClosed =>
      have hcounts : Counts s (s.apply config (.forceClosed, tick)) :=
        counts_forced s (s.currentAt tick.now) .closed tick
      rw [hcounts]
      simp [Op.outcome, Nat.add_assoc]

theorem announces_halfOpen (s : StateMachine) (input : Op × Tick) :
    announces config (fun next => next == .halfOpen) s input = 0 := by
  obtain ⟨op, tick⟩ := input
  have htrip : ∀ (t : StateMachine) (prev : State),
      (announcements (t.tripReport config tick prev)).countP (fun pair => pair.2 == .halfOpen) =
        0 := by
    intro t prev
    unfold tripReport
    cases t.nextWait config tick <;> rfl
  unfold announces
  cases op with
  | success =>
      rw [apply, recordSuccess]
      generalize s.countSuccess.maybeTransitionToHalfOpen tick.now = t
      rcases t.settleSuccess_cases config tick with ⟨-, heq⟩ | ⟨-, heq⟩ | ⟨-, -, heq⟩ | ⟨-, -, heq⟩
      all_goals
        rw [heq]
        rfl
  | failure =>
      rw [apply, recordFailure]
      generalize s.countFailure.maybeTransitionToHalfOpen tick.now = t
      rcases t.settleFailure_cases config tick with
        ⟨-, heq⟩ | ⟨-, -, heq⟩ | ⟨-, -, wait, heq⟩ | ⟨-, wait, heq⟩
      · rw [heq]
        rfl
      · rw [heq]
        rfl
      · rw [heq]
        exact htrip _ _
      · rw [heq]
        exact htrip _ _
  | forceOpen =>
      change (announcements ((s.transition .opened config tick).2.map _)).countP _ = 0
      cases (s.transition .opened config tick).2 <;> rfl
  | forceClosed => rfl

end StateMachine

/-! ## Announcements, made and pending -/

namespace Event

def calls (q : State → Bool) : Event → Bool
  | called _ pair => q pair.2
  | admitted .. | wrote .. | released _ => false

def calledBy (i : Nat) : Event → Bool
  | called j _ => j == i
  | admitted .. | wrote .. | released _ => false

end Event

namespace Phase

/-- The task has an announcement to make into a state with `q`. -/
def owesCall (q : State → Bool) : Phase ε → Bool
  | announcing _ pair _ => q pair.2
  | idle | loading | acquiring _ | running _ | recording .. | leaving .. | forcing _ | forced .. |
    done _ => false

end Phase

namespace System

variable {config : CircuitBreakerConfig arith ε} {start s s' : System ε} {i : Nat}
  {phase phase' : Phase ε} {a : TaskAction ε} {shared : Shared}
  {actions : List (PoolAction Job (TaskAction ε))} {draw : Draw}

def made (q : State → Bool) (s : System ε) : Nat := s.shared.log.countP (Event.calls q)

def pending (q : State → Bool) (s : System ε) : Nat := s.tasks.countP (Phase.owesCall q)

variable (config) in
def decided (q : State → Bool) (start s : System ε) : Nat :=
  sumAlong (StateMachine.apply config) (StateMachine.announces config q) start.shared.state
    (writes s.shared.log)

theorem owesCall_loopHead (q : State → Bool) (current : Nat) :
    (loopHead config current).owesCall q = false := by
  unfold loopHead
  split_ifs <;> rfl

theorem owesCall_finish {permit : Bool} {outcome : Outcome ε}
    (h : finish config permit outcome = some phase) (q : State → Bool) :
    phase.owesCall q = false := by
  obtain ⟨answer, -, ⟨failed, rfl⟩ | rfl⟩ := finish_cases h <;> rfl

theorem owesCall_afterRecord (q : State → Bool) (permit : Bool) (answer : Answer ε)
    (result : Except Panic (Option (State × State))) :
    ((afterRecord permit answer result).owesCall q).toNat =
      (StateMachine.announcements result).countP fun pair => q pair.2 := by
  rcases result with panic | (_ | pair)
  · rfl
  · rfl
  · cases hq : q pair.2 <;> simp [afterRecord, Phase.owesCall, StateMachine.announcements, hq]

theorem owesCall_afterForce (q : State → Bool) (prev : State) (s : StateMachine) (f : Force)
    (tick : Tick) :
    ((afterForce prev f.next (s.apply config (f.op, tick)).2 : Phase ε).owesCall q).toNat =
      s.announces config q (f.op, tick) := by
  unfold StateMachine.announces
  cases f with
  | reset => cases hq : q .closed <;> simp [afterForce, Phase.owesCall, Force.op, Force.next,
      StateMachine.apply, StateMachine.forceClosed, StateMachine.forced,
      StateMachine.transition_closed, Except.map, StateMachine.announcements, hq]
  | trip =>
      change _ = (StateMachine.announcements
        ((s.transition .opened config tick).2.map fun _ => some (_, State.opened))).countP _
      change ((afterForce prev .opened ((s.transition .opened config tick).2.map fun _ =>
        some (s.currentAt tick.now, State.opened)) : Phase ε).owesCall q).toNat = _
      cases (s.transition .opened config tick).2 with
      | error => rfl
      | ok => cases hq : q .opened <;> simp [afterForce, Phase.owesCall, Except.map,
          StateMachine.announcements, hq]

theorem Acts.owesCall (h : Acts config s i phase a shared phase') (q : State → Bool) :
    (∃ input, writes shared.log = writes s.shared.log ++ [input] ∧
        shared.log.countP (Event.calls q) = s.shared.log.countP (Event.calls q) ∧
        phase.owesCall q = false ∧
        (phase'.owesCall q).toNat = s.shared.state.announces config q input) ∨
      writes shared.log = writes s.shared.log ∧
        shared.log.countP (Event.calls q) + (phase'.owesCall q).toNat =
          s.shared.log.countP (Event.calls q) + (phase.owesCall q).toNat := by
  cases h with
  | record =>
      refine .inl ⟨_, writes_cons_wrote _ _ _ _ _ _, ?_, rfl, owesCall_afterRecord q _ _ _⟩
      simp [System.write, Event.calls]
  | force =>
      refine .inl ⟨_, writes_cons_wrote _ _ _ _ _ _, ?_, rfl, owesCall_afterForce q _ _ _ _⟩
      simp [System.write, Event.calls]
  | @announce permit pair answer =>
      right
      refine ⟨rfl, ?_⟩
      cases hq : q pair.2 <;> simp [Event.calls, Phase.owesCall, hq]
  | load => exact .inr ⟨rfl, by rw [owesCall_loopHead]; rfl⟩
  | retry => exact .inr ⟨rfl, by rw [owesCall_loopHead]; rfl⟩
  | finish hfinish => exact .inr ⟨rfl, by rw [owesCall_finish hfinish]; rfl⟩
  | enter => exact .inr ⟨rfl, by simp [Event.calls, Phase.owesCall]⟩
  | acquire => exact .inr ⟨rfl, by simp [Event.calls, Phase.owesCall]⟩
  | @release permit =>
      cases permit
      · exact .inr ⟨rfl, rfl⟩
      · exact .inr ⟨rfl, by simp [drop, Event.calls, Phase.owesCall]⟩
  | _ => exact .inr ⟨rfl, rfl⟩

/-- Nothing that a write has decided to announce is lost, and nothing is announced twice. -/
theorem made_add_pending (hnew : new config draw = some start)
    (hrun : Runs (Step config) start actions s) (q : State → Bool) :
    made q s + pending q s = decided config q start s := by
  have hempty : made q start + pending q start = decided config q start start := by
    obtain ⟨state, -, rfl⟩ := Option.map_eq_some_iff.mp hnew
    rfl
  induction hrun with
  | refl => exact hempty
  | @snoc r _ actions action hprefix hlast ih =>
      rcases step_cases hlast with
        ⟨job, rfl, rfl⟩ | ⟨i, a, phase, shared, phase', rfl, hphase, hacts, rfl⟩
      · have hstart : (Phase.start job : Phase ε).owesCall q = false := by cases job <;> rfl
        unfold pending
        rw [List.countP_append, List.countP_singleton, hstart]
        exact ih
      · have hpending := Pool.countP_set (Phase.owesCall q) hphase phase'
        rcases hacts.owesCall q with ⟨input, hwrites, hmade, hphase, hphase'⟩ | ⟨hwrites, hmade⟩
        · have hsum : decided config q start { shared := shared, tasks := r.tasks.set i phase' } =
              decided config q start r + r.shared.state.announces config q input := by
            rw [decided, hwrites, sumAlong_append, ← replay hnew hprefix]
            rfl
          rw [hsum, ← ih]
          unfold made pending
          rw [hphase] at hpending
          dsimp only at hpending ⊢
          rw [hmade]
          simp only [Bool.toNat_false] at hpending
          omega
        · have hsum : decided config q start { shared := shared, tasks := r.tasks.set i phase' } =
              decided config q start r := by
            rw [decided, hwrites]
            rfl
          rw [hsum, ← ih]
          unfold made pending
          dsimp only at hpending ⊢
          omega

theorem decided_halfOpen : decided config (fun next => next == .halfOpen) start s = 0 :=
  sumAlong_eq_zero StateMachine.announces_halfOpen start.shared.state (writes s.shared.log)

theorem announcing_ne_halfOpen (hnew : new config draw = some start)
    (hrun : Runs (Step config) start actions s) {permit : Bool} {pair : State × State}
    {answer : Answer ε} (hphase : .announcing permit pair answer ∈ s.tasks) :
    pair.2 ≠ .halfOpen := by
  have htotal := made_add_pending hnew hrun fun next => next == .halfOpen
  rw [decided_halfOpen] at htotal
  have hpending := List.countP_eq_zero.mp (Nat.eq_zero_of_add_eq_zero_left htotal) _ hphase
  simpa [Phase.owesCall] using hpending

/-! ## One callback for each task -/

def allowance : Option (Phase ε) → Nat
  | some (.leaving ..) | some (.done _) => 0
  | none | some .idle | some .loading | some (.acquiring _) | some (.running _) |
    some (.recording ..) | some (.announcing ..) | some (.forcing _) | some (.forced ..) => 1

theorem allowance_le_one (phase : Option (Phase ε)) : allowance phase ≤ 1 := by
  unfold allowance
  split <;> omega

def WroteInto (log : List Event) (i : Nat) (next : State) : Prop :=
  ∃ op tick prev, .wrote i op tick prev next ∈ log

structure Delivers (s : System ε) : Prop where
  once : ∀ i, s.shared.log.countP (Event.calledBy i) + allowance s.tasks[i]? ≤ 1
  due : ∀ i permit pair answer, s.tasks[i]? = some (.announcing permit pair answer) →
    WroteInto s.shared.log i pair.2
  made : ∀ i pair, .called i pair ∈ s.shared.log → WroteInto s.shared.log i pair.2

theorem Acts.calledBy (h : Acts config s i phase a shared phase') :
    (∀ j, j ≠ i → shared.log.countP (Event.calledBy j) =
        s.shared.log.countP (Event.calledBy j)) ∧
      shared.log.countP (Event.calledBy i) + allowance (some phase') ≤
        s.shared.log.countP (Event.calledBy i) + allowance (some phase) := by
  have hle := allowance_le_one (some phase')
  cases h with
  | announce =>
      refine ⟨fun j hne => ?_, ?_⟩
      · simp [Event.calledBy, Ne.symm hne]
      · simp [Event.calledBy, allowance]
  | @release permit => cases permit <;> exact ⟨fun _ _ => by simp [drop, Event.calledBy], by
      simp [drop, Event.calledBy, allowance]⟩
  | _ =>
      exact ⟨fun _ _ => by simp [System.write, Event.calledBy],
        Nat.add_le_add (by simp [System.write, Event.calledBy]) hle⟩

theorem WroteInto.acts {j : Nat} {next : State} (h : WroteInto s.shared.log j next)
    (hacts : Acts config s i phase a shared phase') : WroteInto shared.log j next := by
  obtain ⟨op, tick, prev, hmem⟩ := h
  refine ⟨op, tick, prev, ?_⟩
  cases hacts with
  | @release permit => cases permit <;> simp [drop, hmem]
  | _ => simp [System.write, hmem]

theorem wroteInto_write {op : Op} {tick : Tick} {next : State}
    (h : next = (s.shared.state.apply config (op, tick)).1.current) :
    WroteInto (write config s.shared i op tick).log i next := by
  subst h
  exact ⟨op, tick, s.shared.state.currentAt tick.now, List.mem_cons_self⟩

theorem Acts.due {permit : Bool} {pair : State × State} {answer : Answer ε}
    (hacts : Acts config s i phase a shared (.announcing permit pair answer)) :
    WroteInto shared.log i pair.2 := by
  generalize hlast : Phase.announcing permit pair answer = last at hacts
  cases hacts with
  | record =>
      apply wroteInto_write
      rw [StateMachine.apply_recordOp] at hlast ⊢
      unfold afterRecord at hlast
      split at hlast
      · rename_i hresult
        cases hlast
        exact congrArg Prod.snd (StateMachine.record_announces hresult)
      · cases hlast
      · cases hlast
  | force =>
      apply wroteInto_write
      rw [apply_force_current]
      unfold afterForce at hlast
      split at hlast <;> cases hlast
      rfl
  | finish hfinish =>
      obtain ⟨answer, -, ⟨failed, rfl⟩ | rfl⟩ := finish_cases hfinish <;> cases hlast
  | load =>
      unfold loopHead at hlast
      split_ifs at hlast
  | retry =>
      unfold loopHead at hlast
      split_ifs at hlast
  | _ => cases hlast

theorem Delivers.acts (h : Delivers s) (hphase : s.tasks[i]? = some phase)
    (hacts : Acts config s i phase a shared phase') :
    Delivers { shared := shared, tasks := s.tasks.set i phase' } where
  once j := by
    obtain ⟨hothers, hown⟩ := hacts.calledBy
    by_cases hij : j = i
    · subst hij
      have honce := h.once j
      rw [hphase] at honce
      dsimp only
      rw [Pool.getElem?_set_own hphase]
      omega
    · have honce := h.once j
      dsimp only
      rw [List.getElem?_set_ne (Ne.symm hij), hothers j hij]
      exact honce
  due j permit pair answer hdue := by
    rcases Pool.getElem?_set_cases hdue with ⟨rfl, rfl⟩ | ⟨-, hold⟩
    · exact hacts.due
    · exact (h.due j permit pair answer hold).acts hacts
  made j pair hmem := by
    rcases hacts.called hmem with hold | ⟨rfl, permit, answer, rfl⟩
    · exact (h.made j pair hold).acts hacts
    · exact (h.due j permit pair answer hphase).acts hacts

theorem Reachable.delivers (h : Reachable config s) : Delivers s := by
  apply h.invariant
  · intro draw start hnew
    obtain ⟨state, -, rfl⟩ := Option.map_eq_some_iff.mp hnew
    exact ⟨fun i => by simp [allowance], by simp, by simp⟩
  · intro s action s' _ hdelivers hstep
    rcases step_cases hstep with
      ⟨job, -, rfl⟩ | ⟨i, a, phase, shared, phase', -, hphase, hacts, rfl⟩
    · refine ⟨fun i => ?_, fun i permit pair answer hdue => ?_, hdelivers.made⟩
      · have honce := hdelivers.once i
        have hone := allowance_le_one (s.tasks ++ [Phase.start job])[i]?
        dsimp only
        cases hold : s.tasks[i]? with
        | none =>
            rw [hold] at honce
            simp only [allowance] at honce
            omega
        | some phase =>
            rw [Pool.getElem?_concat_of_some hold, ← hold]
            exact honce
      · rcases Pool.getElem?_concat_cases hdue with hold | ⟨-, hstart⟩
        · exact hdelivers.due i permit pair answer hold
        · cases job <;> cases hstart
    · exact hdelivers.acts hphase hacts

end System

end Breaker
