import Breaker.State.Standing
import Breaker.Tasks.System

/-!
# What the lock protects

Only the two write-locked sections change the machine, each by one operation of
the sequential machine.  So the machine of a reachable system is a reachable
machine; and as no section runs while a reader is between its admission check
and the end of `acquire`, such a reader still sees the state that it checked.
-/

namespace Breaker

open Foundation

universe u

variable {arith : RateArithmetic} {ε : Type u}

def TaskAction.reading : TaskAction ε → Option Nat
  | .check now | .observe now => some now
  | .record tick | .force tick => some tick.now
  | .load | .exchange _ | .finish _ | .announce | .release => none

namespace System

variable {config : CircuitBreakerConfig arith ε} {s s' : System ε} {i : Nat}
  {phase phase' : Phase ε}
  {a : TaskAction ε} {shared : Shared}

/-! ## One act -/

theorem Acts.state_cases (h : Acts config s i phase a shared phase') :
    shared.state = s.shared.state ∨
      ∃ op tick, CanWrite s tick ∧ shared = write config s.shared i op tick := by
  cases h with
  | record hwrite => exact .inr ⟨_, _, hwrite, rfl⟩
  | force hwrite => exact .inr ⟨_, _, hwrite, rfl⟩
  | @release permit => cases permit <;> exact .inl rfl
  | _ => exact .inl rfl

theorem Acts.clock_le (h : Acts config s i phase a shared phase') :
    s.shared.clock ≤ shared.clock := by
  cases h with
  | refuse hclock => exact hclock
  | inspect hclock => exact hclock
  | enter hclock => exact hclock
  | observe hclock => exact hclock
  | record hwrite => exact hwrite.2.1.trans hwrite.2.2
  | force hwrite => exact hwrite.2.1.trans hwrite.2.2
  | @release permit => cases permit <;> exact le_rfl
  | _ => exact le_rfl

theorem Acts.clock_le_reading (h : Acts config s i phase a shared phase') :
    ∀ now ∈ a.reading, s.shared.clock ≤ now := by
  intro now hnow
  cases h with
  | refuse hclock =>
      cases hnow
      exact hclock
  | inspect hclock =>
      cases hnow
      exact hclock
  | enter hclock =>
      cases hnow
      exact hclock
  | observe hclock =>
      cases hnow
      exact hclock
  | record hwrite =>
      cases hnow
      exact hwrite.2.1
  | force hwrite =>
      cases hnow
      exact hwrite.2.1
  | _ => cases hnow

theorem Acts.reading_le (h : Acts config s i phase a shared phase') :
    ∀ now ∈ a.reading, now ≤ shared.clock := by
  intro now hnow
  cases h with
  | record hwrite =>
      cases hnow
      exact hwrite.2.2
  | force hwrite =>
      cases hnow
      exact hwrite.2.2
  | _ =>
      cases hnow
      try exact le_rfl

theorem Step.clock_le {action : PoolAction Job (TaskAction ε)} (h : Step config s action s') :
    s.shared.clock ≤ s'.shared.clock := by
  rcases step_cases h with ⟨job, -, rfl⟩ | ⟨i, a, phase, shared, phase', -, -, hacts, rfl⟩
  · exact le_rfl
  · exact hacts.clock_le

theorem reading_le_of_runs {actions : List (PoolAction Job (TaskAction ε))}
    (h : Runs (Step config) s actions s') :
    ∀ i a, .act i a ∈ actions → ∀ now ∈ a.reading, now ≤ s'.shared.clock := by
  induction h with
  | refl => simp
  | @snoc t t' _ action hrun hstep ih =>
      intro i a hmem now hnow
      rcases List.mem_append.mp hmem with hold | hlast
      · exact (ih i a hold now hnow).trans (Step.clock_le hstep)
      · rw [List.mem_singleton] at hlast
        subst hlast
        rcases step_cases hstep with
          ⟨job, hjob, -⟩ | ⟨j, b, phase, shared, phase', heq, -, hacts, rfl⟩
        · cases hjob
        · cases heq
          exact hacts.reading_le now hnow

theorem keepsStanding_of_runs {actions : List (PoolAction Job (TaskAction ε))}
    (h : Runs (Step config) s actions s') :
    s.shared.state.KeepsStanding s'.shared.state := by
  apply h.invariant (I := fun t => s.shared.state.KeepsStanding t.shared.state) (.refl _)
  intro t action t' _ hkeeps hstep
  rcases step_cases hstep with ⟨job, -, rfl⟩ | ⟨i, a, phase, shared, phase', -, -, hacts, rfl⟩
  · exact hkeeps
  · rcases hacts.state_cases with hsame | ⟨op, tick, -, rfl⟩
    · exact hsame ▸ hkeeps
    · exact hkeeps.trans (StateMachine.keepsStanding_apply config t.shared.state (op, tick))

/-! ## The machine of a reachable system -/

theorem Reachable.machine (h : Reachable config s) :
    StateMachine.Reachable config s.shared.state := by
  apply h.invariant
  · intro draw start hnew
    obtain ⟨state, hstate, rfl⟩ := Option.map_eq_some_iff.mp hnew
    exact ⟨draw, state, hstate, .refl _⟩
  · intro s action s' _ hmachine hstep
    rcases step_cases hstep with ⟨job, -, rfl⟩ | ⟨i, a, phase, shared, phase', -, -, hacts, rfl⟩
    · exact hmachine
    · rcases hacts.state_cases with hsame | ⟨op, tick, -, rfl⟩
      · exact hsame ▸ hmachine
      · exact hmachine.apply (op, tick)

theorem Reachable.openedBy (h : Reachable config s) :
    s.shared.state.OpenedBy s.shared.clock := by
  apply h.invariant
  · intro draw start hnew
    obtain ⟨state, hstate, rfl⟩ := Option.map_eq_some_iff.mp hnew
    obtain ⟨wait, -, rfl⟩ := StateMachine.new_eq hstate
    exact StateMachine.openedBy_of_none rfl
  · intro s action s' _ hopened hstep
    rcases step_cases hstep with ⟨job, -, rfl⟩ | ⟨i, a, phase, shared, phase', -, -, hacts, rfl⟩
    · exact hopened
    · rcases hacts.state_cases with hsame | ⟨op, tick, hwrite, rfl⟩
      · exact hsame ▸ hopened.mono hacts.clock_le
      · exact (hopened.mono (hwrite.2.1.trans hwrite.2.2)).apply op

/-! ## Readers -/

@[simp] theorem afterRecord_reads (permit : Bool) (answer : Answer ε)
    (result : Except Panic (Option (State × State))) :
    (afterRecord permit answer result).reads = false := by
  unfold afterRecord
  split <;> rfl

@[simp] theorem afterForce_reads (prev next : State)
    (result : Except Panic (Option (State × State))) :
    (afterForce (ε := ε) prev next result).reads = false := by
  unfold afterForce
  split <;> rfl

theorem finish_reads {permit : Bool} {outcome : Outcome ε} {phase : Phase ε}
    (h : finish config permit outcome = some phase) : phase.reads = false := by
  obtain ⟨answer, -, ⟨failed, rfl⟩ | rfl⟩ := finish_cases h <;> rfl

theorem Acts.reads (h : Acts config s i phase a shared phase') (hreads : phase'.reads = true) :
    shared.state = s.shared.state ∧
      (phase.reads = true ∨ shared.state.currentAt shared.clock = .halfOpen) := by
  cases h with
  | inspect _ hcurrent => exact ⟨rfl, .inr hcurrent⟩
  | load => exact ⟨rfl, .inl rfl⟩
  | retry => exact ⟨rfl, .inl rfl⟩
  | finish hfinish => simp [finish_reads hfinish] at hreads
  | record => simp at hreads
  | force => simp at hreads
  | _ => cases hreads

/-- While somebody holds the read lock after its admission check, the circuit reads `HalfOpen`. -/
theorem Reachable.reading (h : Reachable config s) :
    ∀ phase ∈ s.tasks, phase.reads = true →
      s.shared.state.currentAt s.shared.clock = .halfOpen := by
  apply h.invariant
  · intro draw start hnew
    obtain ⟨state, -, rfl⟩ := Option.map_eq_some_iff.mp hnew
    simp
  · intro s action s' _ hreading hstep
    rcases step_cases hstep with
      ⟨job, -, rfl⟩ | ⟨i, a, phase, shared, phase', -, hphase, hacts, rfl⟩
    · intro other hmem hreads
      rcases List.mem_append.mp hmem with hold | hlast
      · exact hreading other hold hreads
      · rw [List.mem_singleton] at hlast
        subst hlast
        cases job <;> cases hreads
    · intro other hmem hreads
      rcases List.mem_or_eq_of_mem_set hmem with hold | rfl
      · rcases hacts.state_cases with hsame | ⟨op, tick, hwrite, -⟩
        · dsimp only
          rw [hsame]
          exact StateMachine.currentAt_halfOpen_mono (hreading other hold hreads) hacts.clock_le
        · have hfree := List.any_eq_false.mp hwrite.1 other hold
          exact absurd hreads hfree
      · obtain ⟨hsame, hcase⟩ := hacts.reads hreads
        rcases hcase with hold | hcurrent
        · dsimp only
          rw [hsame]
          exact StateMachine.currentAt_halfOpen_mono
            (hreading phase (List.mem_of_getElem? hphase) hold) hacts.clock_le
        · exact hcurrent

end System

end Breaker
