import Breaker.State.Outage
import Breaker.Tasks.Lock

/-!
# The fail-fast window

From the entry into `Open` to the end of the wait the circuit stands still,
whatever the tasks do that were in flight: an outcome recorded in this window
moves a lifetime total and nothing else, and admission refuses without a trace.
The read path of admission and the write path of recording decide by one
deadline, so there is no instant at which one of them has left the window and
the other has not.
-/

namespace Breaker

open Foundation

universe u

variable {arith : RateArithmetic} {ε : Type u}

namespace System

open StateMachine

variable {config : CircuitBreakerConfig arith ε} {s s' : System ε} {i : Nat}
  {phase phase' : Phase ε}
  {a : TaskAction ε} {shared : Shared}

theorem Acts.waiting (h : Acts config s i phase a shared phase')
    (hopen : s.shared.state.current = .opened)
    (hdue : ∀ now ∈ a.reading, ¬ s.shared.state.Due now) (hforce : ∀ tick, a ≠ .force tick) :
    SameButTotals s.shared.state shared.state ∧
      ∀ permit pair answer, phase' ≠ .announcing permit pair answer := by
  cases h with
  | @record permit failed answer tick hwrite =>
      have hstep : StateMachine.record config s.shared.state (failed, tick) = _ :=
        record_waiting config hopen (hdue _ rfl)
      rw [← apply_recordOp] at hstep
      refine ⟨?_, ?_⟩
      · rw [write]
        dsimp only
        rw [hstep]
        cases failed with
        | false => exact (SameButTotals.refl _).countSuccess
        | true => exact (SameButTotals.refl _).countFailure
      · intro permit' pair answer' heq
        rw [hstep] at heq
        cases heq
  | force => exact absurd rfl (hforce _)
  | finish hfinish =>
      refine ⟨.refl _, fun permit pair answer heq => ?_⟩
      obtain ⟨other, -, ⟨failed, rfl⟩ | rfl⟩ := finish_cases hfinish <;> cases heq
  | load =>
      refine ⟨.refl _, fun permit pair answer heq => ?_⟩
      unfold loopHead at heq
      split_ifs at heq
  | retry =>
      refine ⟨.refl _, fun permit pair answer heq => ?_⟩
      unfold loopHead at heq
      split_ifs at heq
  | @release permit => cases permit <;> exact ⟨.refl _, fun _ _ _ heq => by cases heq⟩
  | _ => exact ⟨.refl _, fun _ _ _ heq => by cases heq⟩

/-- The window seen from a later system `t`: nothing but totals has changed since `s`. -/
structure Waiting (s t : System ε) : Prop where
  same : SameButTotals s.shared.state t.shared.state
  clock : s.shared.clock ≤ t.shared.clock
  owed : ∀ (i : Nat) (permit : Bool) (pair : State × State) (answer : Answer ε),
    t.tasks[i]? = some (.announcing permit pair answer) →
    s.tasks[i]? = some (.announcing permit pair answer)

variable {since : Nat} {actions : List (PoolAction Job (TaskAction ε))}

theorem Waiting.not_due {t : System ε} (h : Waiting s t) (hreach : Reachable config s)
    (hopen : s.shared.state.current = .opened) (hsince : s.shared.state.openSince = some since)
    {now : Nat} (hclock : t.shared.clock ≤ now)
    (hnow : now < since + s.shared.state.waitDuration.nanos) : ¬ t.shared.state.Due now := by
  have hopened := hreach.openedBy since hsince
  rw [h.same.due, due_iff hopen hsince ((hopened.trans h.clock).trans hclock)]
  exact not_le.mpr hnow

theorem waiting_of_runs (hreach : Reachable config s)
    (hopen : s.shared.state.current = .opened) (hsince : s.shared.state.openSince = some since)
    (hrun : Runs (Step config) s actions s')
    (hforce : ∀ i tick, PoolAction.act i (.force tick) ∉ actions)
    (hearly : ∀ i a, PoolAction.act i a ∈ actions → ∀ now ∈ a.reading,
      now < since + s.shared.state.waitDuration.nanos) : Waiting s s' := by
  apply hrun.invariant
  · exact ⟨.refl _, le_rfl, fun _ _ _ _ htask => htask⟩
  · intro t action t' hmem hwaiting hstep
    rcases step_cases hstep with
      ⟨job, -, rfl⟩ | ⟨i, a, phase, shared, phase', rfl, hphase, hacts, rfl⟩
    · refine ⟨hwaiting.same, hwaiting.clock, fun i permit pair answer htask => ?_⟩
      rcases Pool.getElem?_concat_cases htask with hold | ⟨-, hstart⟩
      · exact hwaiting.owed i permit pair answer hold
      · cases job <;> cases hstart
    · have hopen' : t.shared.state.current = .opened := by rw [hwaiting.same]; exact hopen
      have hdue : ∀ now ∈ a.reading, ¬ t.shared.state.Due now := fun now hnow =>
        hwaiting.not_due hreach hopen hsince (hacts.clock_le_reading now hnow)
          (hearly i a hmem now hnow)
      obtain ⟨hsame, howed⟩ := hacts.waiting hopen' hdue fun tick heq =>
        hforce i tick (heq ▸ hmem)
      refine ⟨hwaiting.same.trans hsame, hwaiting.clock.trans hacts.clock_le, ?_⟩
      intro j permit pair answer htask
      rcases Pool.getElem?_set_cases htask with ⟨rfl, heq⟩ | ⟨-, hold⟩
      · exact absurd heq.symm (howed permit pair answer)
      · exact hwaiting.owed j permit pair answer hold

theorem Waiting.refuses {t t' : System ε} (h : Waiting s t) (hreach : Reachable config s)
    (hopen : s.shared.state.current = .opened) (hsince : s.shared.state.openSince = some since)
    {now : Nat} (hnow : now < since + s.shared.state.waitDuration.nanos)
    (hstep : Step config t (.act i (.check now)) t') :
    t' = { shared := { t.shared with clock := now },
           tasks := t.tasks.set i (.done .circuitOpen) } := by
  rcases step_cases hstep with
    ⟨job, heq, -⟩ | ⟨j, a, phase, shared, phase', heq, hphase, hacts, rfl⟩
  · cases heq
  · cases heq
    have hcurrent : t.shared.state.currentAt now = .opened := by
      rw [currentAt_opened_iff]
      refine ⟨by rw [h.same]; exact hopen, ?_⟩
      exact h.not_due hreach hopen hsince (hacts.clock_le_reading now rfl) hnow
    cases hacts with
    | refuse => rfl
    | inspect _ hhalf => cases hcurrent.symm.trans hhalf
    | enter _ hclosed => cases hcurrent.symm.trans hclosed

/--
The fail-fast window.  Whatever unforced run follows, an admission check that
reads the clock before the end of the wait refuses, and as long as no task has
read a later clock, the circuit has changed in its lifetime totals only, and no
callback is owed that was not owed before.
-/
theorem fail_fast (config : CircuitBreakerConfig arith ε) (hreach : Reachable config s)
    (hopen : s.shared.state.current = .opened) (hsince : s.shared.state.openSince = some since)
    (hrun : Runs (Step config) s actions s')
    (hforce : ∀ i tick, PoolAction.act i (.force tick) ∉ actions) :
    (∀ i now t, now < since + s.shared.state.waitDuration.nanos →
      Step config s' (.act i (.check now)) t →
      t = { shared := { s'.shared with clock := now },
            tasks := s'.tasks.set i (.done .circuitOpen) }) ∧
    ((∀ i a, PoolAction.act i a ∈ actions → ∀ now ∈ a.reading,
        now < since + s.shared.state.waitDuration.nanos) → Waiting s s') := by
  refine ⟨fun i now t hnow hstep => ?_, waiting_of_runs hreach hopen hsince hrun hforce⟩
  have hclock : s'.shared.clock ≤ now := by
    rcases step_cases hstep with ⟨job, heq, -⟩ | ⟨j, a, phase, shared, phase', heq, -, hacts, -⟩
    · cases heq
    · cases heq
      exact hacts.clock_le_reading now rfl
  have hwaiting := waiting_of_runs hreach hopen hsince hrun hforce fun j a hmem reading hreading =>
    (reading_le_of_runs hrun j a hmem reading hreading).trans_lt (hclock.trans_lt hnow)
  exact hwaiting.refuses hreach hopen hsince hnow hstep

def outageLater : System Unit where
  shared := {
    state := { outage.shared.state with totalSuccesses := 1 }
    halfOpenPermits := 0
    clock := 0
    log := .wrote 1 .success ⟨0, 0, 0⟩ .opened .opened :: outage.shared.log }
  tasks := outage.tasks.set 1 (.leaving false (.ok ()))

theorem fail_fast_outage : Waiting outage outageLater := by
  have hrun : Runs (Step hairTrigger.build) outage
      [.act 1 (.finish (.ok ())), .act 1 (.record ⟨0, 0, 0⟩)] outageLater := runs_of_execute rfl
  refine (fail_fast hairTrigger.build outage_reachable rfl rfl hrun (by simp)).2 ?_
  intro i a hmem now hnow
  simp only [List.mem_cons, PoolAction.act.injEq, List.not_mem_nil, or_false] at hmem
  rcases hmem with ⟨-, rfl⟩ | ⟨-, rfl⟩ <;> cases hnow
  decide

end System

end Breaker
