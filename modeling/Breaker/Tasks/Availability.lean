import Breaker.State.Waits
import Breaker.Tasks.Accounting

/-!
# How long an open circuit refuses

A call that is refused with `CircuitOpen` is refused because of one write, the
last that has tripped the circuit; every write since then has found it open and
left it so.  The refusal comes no earlier than that write and within the longest
wait of the strategy after it, whatever the attempts, the jitter and the other
tasks.  So a circuit that nobody trips is never refused for longer.
-/

namespace Breaker

open Foundation

universe u

variable {arith : RateArithmetic} {ε : Type u}

namespace StateMachine

variable {config : CircuitBreakerConfig arith ε} {s : StateMachine} {tick : Tick}

theorem opened_of_settleSuccess (h : (s.settleSuccess config tick).1.current = .opened) :
    s.current = .opened ∧ (s.settleSuccess config tick).1 = s := by
  rcases s.settleSuccess_cases config tick with
    ⟨hstate, heq⟩ | ⟨hstate, heq⟩ | ⟨hstate, -, heq⟩ | ⟨-, -, heq⟩
  · rw [heq] at h
    cases hstate.symm.trans h
  · rw [heq]
    exact ⟨hstate, rfl⟩
  · rw [heq] at h
    cases hstate.symm.trans h
  · rw [heq] at h
    cases h

theorem opened_of_settleFailure (h : (s.settleFailure config tick).1.current = .opened) :
    (s.settleFailure config tick).1.openSince = some tick.stamp ∨
      s.current = .opened ∧ (s.settleFailure config tick).1 = s := by
  rcases s.settleFailure_cases config tick with
    ⟨hstate, heq⟩ | ⟨hstate, -, heq⟩ | ⟨-, -, wait, heq⟩ | ⟨-, wait, heq⟩
  · rw [heq]
    exact .inr ⟨hstate, rfl⟩
  · rw [heq] at h
    cases hstate.symm.trans h
  · rw [heq]
    exact .inl rfl
  · rw [heq]
    exact .inl rfl

theorem eq_of_maybeTransition_opened {now : Nat}
    (h : (s.maybeTransitionToHalfOpen now).current = .opened) :
    s.maybeTransitionToHalfOpen now = s := by
  by_cases hdue : s.Due now
  · rw [maybeTransitionToHalfOpen_of_due hdue] at h
    cases h
  · exact maybeTransitionToHalfOpen_of_not_due hdue

theorem openSince_apply {input : Op × Tick} (h : (s.apply config input).1.current = .opened) :
    (s.apply config input).1.openSince = some input.2.stamp ∨
      s.current = .opened ∧ (s.apply config input).1.openSince = s.openSince := by
  obtain ⟨op, tick⟩ := input
  cases op with
  | success =>
      obtain ⟨hopen, hsame⟩ := opened_of_settleSuccess h
      have hcounted := eq_of_maybeTransition_opened hopen
      have hsince := congrArg openSince (hsame.trans hcounted)
      rw [hcounted] at hopen
      exact .inr ⟨hopen, hsince⟩
  | failure =>
      rcases opened_of_settleFailure h with hstamp | ⟨hopen, hsame⟩
      · exact .inl hstamp
      · have hcounted := eq_of_maybeTransition_opened hopen
        have hsince := congrArg openSince (hsame.trans hcounted)
        rw [hcounted] at hopen
        exact .inr ⟨hopen, hsince⟩
  | forceOpen =>
      obtain ⟨wait, heq⟩ := transition_opened_cases config tick s
      left
      change (s.transition .opened config tick).1.openSince = some tick.stamp
      rw [heq]
      rfl
  | forceClosed => cases h

end StateMachine

/-! ## The write that has tripped the circuit -/

def Event.LeavesOpen (e : Event) : Prop :=
  ∀ i op tick prev next, e = .wrote i op tick prev next → next = .opened

/-- The log has a write of this stamp that left the circuit open, and none since that closed it. -/
def OpenSince (log : List Event) (stamp : Nat) : Prop :=
  ∃ newer i op tick prev older, log = newer ++ .wrote i op tick prev .opened :: older ∧
    tick.stamp = stamp ∧ ∀ e ∈ newer, e.LeavesOpen

theorem OpenSince.cons {log : List Event} {stamp : Nat} (h : OpenSince log stamp) {e : Event}
    (he : e.LeavesOpen) : OpenSince (e :: log) stamp := by
  obtain ⟨newer, i, op, tick, prev, older, rfl, hstamp, hall⟩ := h
  refine ⟨e :: newer, i, op, tick, prev, older, rfl, hstamp, ?_⟩
  rw [List.forall_mem_cons]
  exact ⟨he, hall⟩

namespace System

variable {config : CircuitBreakerConfig arith ε} {s s' : System ε} {i : Nat}
  {phase phase' : Phase ε}
  {a : TaskAction ε} {shared : Shared}

theorem Acts.log_cases (h : Acts config s i phase a shared phase') :
    (∃ op tick, shared = write config s.shared i op tick) ∨
      shared.state = s.shared.state ∧
        (shared.log = s.shared.log ∨ ∃ e, shared.log = e :: s.shared.log ∧ e.LeavesOpen) := by
  have hquiet : ∀ e : Event, (∀ i op tick prev next, e ≠ .wrote i op tick prev next) →
      e.LeavesOpen := fun e hne i op tick prev next heq => absurd heq (hne i op tick prev next)
  cases h with
  | record => exact .inl ⟨_, _, rfl⟩
  | force => exact .inl ⟨_, _, rfl⟩
  | enter => exact .inr ⟨rfl, .inr ⟨_, rfl, hquiet _ (by simp)⟩⟩
  | acquire => exact .inr ⟨rfl, .inr ⟨_, rfl, hquiet _ (by simp)⟩⟩
  | announce => exact .inr ⟨rfl, .inr ⟨_, rfl, hquiet _ (by simp)⟩⟩
  | @release permit =>
      cases permit with
      | false => exact .inr ⟨rfl, .inl rfl⟩
      | true => exact .inr ⟨rfl, .inr ⟨_, rfl, hquiet _ (by simp)⟩⟩
  | refuse => exact .inr ⟨rfl, .inl rfl⟩
  | inspect => exact .inr ⟨rfl, .inl rfl⟩
  | load => exact .inr ⟨rfl, .inl rfl⟩
  | retry => exact .inr ⟨rfl, .inl rfl⟩
  | finish => exact .inr ⟨rfl, .inl rfl⟩
  | observe => exact .inr ⟨rfl, .inl rfl⟩

theorem Reachable.openSince (h : Reachable config s) (hopen : s.shared.state.current = .opened) :
    ∀ since ∈ s.shared.state.openSince, OpenSince s.shared.log since := by
  have hinvariant : s.shared.state.current = .opened →
      ∀ since ∈ s.shared.state.openSince, OpenSince s.shared.log since := by
    apply h.invariant
    · intro draw start hnew hopen
      obtain ⟨state, hstate, rfl⟩ := Option.map_eq_some_iff.mp hnew
      obtain ⟨wait, -, rfl⟩ := StateMachine.new_eq hstate
      cases hopen
    · intro s action s' _ hinvariant hstep hopen
      rcases step_cases hstep with
        ⟨job, -, rfl⟩ | ⟨i, a, phase, shared, phase', -, -, hacts, rfl⟩
      · exact hinvariant hopen
      · rcases hacts.log_cases with ⟨op, tick, rfl⟩ | ⟨hstate, hlog⟩
        · intro since hsince
          dsimp only [write] at hopen hsince ⊢
          rw [hopen]
          rcases StateMachine.openSince_apply hopen with hstamp | ⟨hwaiting, hsame⟩
          · rw [hstamp, Option.mem_def, Option.some_inj] at hsince
            exact ⟨[], i, op, tick, _, s.shared.log, rfl, hsince, by simp⟩
          · rw [hsame] at hsince
            refine (hinvariant hwaiting since hsince).cons fun j op' tick' prev next heq => ?_
            cases heq
            rfl
        · dsimp only at hopen ⊢
          rw [hstate] at hopen ⊢
          intro since hsince
          have hbefore := hinvariant hopen since hsince
          rcases hlog with hsame | ⟨e, hadds, hquiet⟩
          · rwa [hsame]
          · rw [hadds]
            exact hbefore.cons hquiet
  exact hinvariant hopen

theorem waitDuration_le_longest {draw : Draw} {start : System ε}
    {actions : List (PoolAction Job (TaskAction ε))} (hbound : config.backoff.BoundReads)
    (hnew : new config draw = some start) (hrun : Runs (Step config) start actions s) :
    s.shared.state.waitDuration.nanos ≤ config.backoff.longest.nanos := by
  rw [replay hnew hrun]
  obtain ⟨state, hstate, rfl⟩ := Option.map_eq_some_iff.mp hnew
  exact StateMachine.waitDuration_le_longest hstate hbound (writes s.shared.log)

end System

end Breaker
