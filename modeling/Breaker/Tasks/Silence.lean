import Breaker.Tasks.Permits

/-!
# Tasks that leave no trace

A task that has written nothing and has held no permit is silent, whatever it has
read and however its operation has ended: a refused call, or one that ends in an
error that the predicate does not count, in a cancellation or in a panic while
the circuit is closed.  Without its acts the other tasks do the same, and the
breaker ends up the same.
-/

namespace Breaker

open Foundation

universe u

variable {arith : RateArithmetic} {ε : Type u}

namespace Event

def owner : Event → Nat
  | admitted i _ | wrote i _ _ _ _ | called i _ | released i => i

/-- The event is a write of the task, or its admission with a permit. -/
def marks (i : Nat) : Event → Bool
  | admitted j permit => permit && j == i
  | wrote j _ _ _ _ => j == i
  | called .. | released _ => false

theorem owner_of_marks {i : Nat} {e : Event} (h : e.marks i = true) : e.owner = i := by
  cases e <;> simp_all [marks, owner]

end Event

namespace System

def Silent (s : System ε) (i : Nat) : Prop := ∀ e ∈ s.shared.log, e.marks i = false

/-- The action stays when the acts of the quiet tasks are left out; they are still spawned. -/
def stays (quiet : Nat → Bool) : PoolAction Job (TaskAction ε) → Bool
  | .spawn _ => true
  | .act i _ => !quiet i

/-- The quiet tasks of `s` have never acted in `t`; everything else is the same. -/
structure Unnoticed (quiet : Nat → Bool) (s t : System ε) : Prop where
  state : t.shared.state = s.shared.state
  permits : t.shared.halfOpenPermits = s.shared.halfOpenPermits
  clock : t.shared.clock ≤ s.shared.clock
  log : t.shared.log = s.shared.log.filter fun e => !quiet e.owner
  length : t.tasks.length = s.tasks.length
  others : ∀ i, quiet i = false → t.tasks[i]? = s.tasks[i]?
  unmoved : ∀ i phase, quiet i = true → t.tasks[i]? = some phase → ∃ job, phase = Phase.start job

variable {config : CircuitBreakerConfig arith ε} {s s' t : System ε} {i : Nat}
  {phase phase' : Phase ε}
  {a : TaskAction ε} {shared : Shared} {quiet : Nat → Bool}

/-! ## The log of a silent task -/

theorem Acts.log_grows (h : Acts config s i phase a shared phase') :
    shared.log = s.shared.log ∨ ∃ e, e.owner = i ∧ shared.log = e :: s.shared.log := by
  cases h with
  | record => exact .inr ⟨_, rfl, rfl⟩
  | force => exact .inr ⟨_, rfl, rfl⟩
  | enter => exact .inr ⟨_, rfl, rfl⟩
  | acquire => exact .inr ⟨_, rfl, rfl⟩
  | announce => exact .inr ⟨_, rfl, rfl⟩
  | @release permit =>
      cases permit with
      | false => exact .inl rfl
      | true => exact .inr ⟨_, rfl, rfl⟩
  | refuse => exact .inl rfl
  | inspect => exact .inl rfl
  | load => exact .inl rfl
  | retry => exact .inl rfl
  | finish => exact .inl rfl
  | observe => exact .inl rfl

theorem Silent.of_step {action : PoolAction Job (TaskAction ε)} (h : Silent s' i)
    (hstep : Step config s action s') : Silent s i := by
  intro e hmem
  apply h
  rcases step_cases hstep with
    ⟨job, -, rfl⟩ | ⟨j, a, phase, shared, phase', -, -, hacts, rfl⟩
  · exact hmem
  · rcases hacts.log_grows with heq | ⟨e', -, heq⟩
    · exact heq ▸ hmem
    · exact heq ▸ List.mem_cons_of_mem e' hmem

theorem Acts.silent (h : Acts config s i phase a shared phase')
    (hsilent : ∀ e ∈ shared.log, e.marks i = false) (hpermit : phase.holdsPermit = false) :
    shared.state = s.shared.state ∧ shared.halfOpenPermits = s.shared.halfOpenPermits ∧
      s.shared.clock ≤ shared.clock ∧ phase'.holdsPermit = false := by
  cases h with
  | record => simpa [write, Event.marks] using hsilent _ List.mem_cons_self
  | force => simpa [write, Event.marks] using hsilent _ List.mem_cons_self
  | acquire => simpa [Event.marks] using hsilent _ List.mem_cons_self
  | refuse hclock => exact ⟨rfl, rfl, hclock, rfl⟩
  | inspect hclock => exact ⟨rfl, rfl, hclock, rfl⟩
  | enter hclock => exact ⟨rfl, rfl, hclock, rfl⟩
  | observe hclock => exact ⟨rfl, rfl, hclock, rfl⟩
  | announce => exact ⟨rfl, rfl, le_rfl, hpermit⟩
  | @release permit =>
      cases permit with
      | false => exact ⟨rfl, rfl, le_rfl, rfl⟩
      | true => cases hpermit
  | load => exact ⟨rfl, rfl, le_rfl, loopHead_holdsPermit _⟩
  | retry => exact ⟨rfl, rfl, le_rfl, loopHead_holdsPermit _⟩
  | finish hfinish => exact ⟨rfl, rfl, le_rfl, (finish_holdsPermit hfinish).trans hpermit⟩

theorem Reachable.silent_holdsPermit (h : Reachable config s) :
    ∀ i phase, Silent s i → s.tasks[i]? = some phase → phase.holdsPermit = false := by
  apply h.invariant
  · intro draw start hnew i phase _ hphase
    obtain ⟨state, -, rfl⟩ := Option.map_eq_some_iff.mp hnew
    simp at hphase
  · intro s action s' _ hguards hstep i phase hsilent hphase
    have hbefore := hsilent.of_step hstep
    rcases step_cases hstep with
      ⟨job, -, rfl⟩ | ⟨j, a, old, shared, phase', -, hold, hacts, rfl⟩
    · rcases Pool.getElem?_concat_cases hphase with hstays | ⟨-, rfl⟩
      · exact hguards i phase hbefore hstays
      · exact start_holdsPermit job
    · rcases Pool.getElem?_set_cases hphase with ⟨rfl, rfl⟩ | ⟨-, hstays⟩
      · exact (hacts.silent hsilent (hguards i old hbefore hold)).2.2.2
      · exact hguards i phase hbefore hstays

/-! ## Leaving the acts out -/

theorem Unnoticed.shared_eq (h : Unnoticed quiet s t) :
    t.shared = { s.shared with
      clock := t.shared.clock
      log := s.shared.log.filter fun e => !quiet e.owner } := by
  obtain ⟨⟨state, permits, clock, log⟩, tasks⟩ := t
  obtain ⟨rfl, rfl, -, rfl, -, -, -⟩ := h
  rfl

theorem Unnoticed.canWrite (h : Unnoticed quiet s t) {tick : Tick} (hwrite : CanWrite s tick) :
    CanWrite t tick := by
  obtain ⟨hfree, hnow, hstamp⟩ := hwrite
  refine ⟨?_, h.clock.trans hnow, hstamp⟩
  rw [List.any_eq_false] at hfree ⊢
  intro phase hmem
  obtain ⟨i, hphase⟩ := List.getElem?_of_mem hmem
  cases hquiet : quiet i with
  | false =>
      rw [h.others i hquiet] at hphase
      exact hfree phase (List.mem_of_getElem? hphase)
  | true =>
      obtain ⟨job, rfl⟩ := h.unmoved i phase hquiet hphase
      cases job <;> simp [Phase.start, Phase.reads]

theorem Unnoticed.skip (h : Unnoticed quiet s t) (hi : quiet i = true)
    (hsilent : ∀ e ∈ shared.log, e.marks i = false) (hpermit : phase.holdsPermit = false)
    (hacts : Acts config s i phase a shared phase') :
    Unnoticed quiet { shared := shared, tasks := s.tasks.set i phase' } t := by
  obtain ⟨hstate, hpermits, hclock, -⟩ := hacts.silent hsilent hpermit
  refine ⟨h.state.trans hstate.symm, h.permits.trans hpermits.symm, h.clock.trans hclock, ?_, ?_,
    fun j hj => ?_, h.unmoved⟩
  · rcases hacts.log_grows with heq | ⟨e, rfl, heq⟩
    · rw [heq]
      exact h.log
    · rw [heq, List.filter_cons_of_neg (by simp [hi])]
      exact h.log
  · rw [List.length_set]
    exact h.length
  · have hne : i ≠ j := by
      rintro rfl
      rw [hi] at hj
      cases hj
    dsimp only
    rw [List.getElem?_set_ne hne]
    exact h.others j hj

theorem Unnoticed.act_eq (h : Unnoticed quiet s t) (hi : quiet i = false)
    (hact : act config s i phase a = some (shared, phase')) :
    ∃ clock, clock ≤ shared.clock ∧ act config t i phase a =
      some ({ shared with
        clock := clock
        log := shared.log.filter fun e => !quiet e.owner }, phase') := by
  have hshared := h.shared_eq
  have hcons : ∀ e : Event, e.owner = i →
      (e :: s.shared.log).filter (fun e => !quiet e.owner) = e :: t.shared.log := by
    intro e hown
    rw [List.filter_cons_of_pos (by simp [hown, hi]), h.log]
  have hadmitted := fun permit => hcons (.admitted i permit) rfl
  have hwrote := fun op tick prev next => hcons (.wrote i op tick prev next) rfl
  unfold act at hact
  split at hact
  · split_ifs at hact with hclock
    have hclock' := h.clock.trans hclock
    dsimp only at hact
    split at hact
    all_goals
      rename_i hcurrent
      cases hact
    · exact ⟨_, le_rfl, by simp only [act, if_pos hclock', h.state, hcurrent, h.permits, h.log]⟩
    · exact ⟨_, le_rfl, by simp only [act, if_pos hclock', h.state, hcurrent, h.permits, h.log]⟩
    · exact ⟨_, le_rfl, by
        simp only [act, if_pos hclock', h.state, hcurrent, h.permits, hadmitted]⟩
  · cases hact
    exact ⟨_, h.clock, by simp only [act, h.permits, ← hshared]⟩
  · split_ifs at hact with hfree
    · cases hact
      exact ⟨_, h.clock, by simp only [act, h.permits, if_pos hfree, h.state, hadmitted]⟩
    · cases hact
      exact ⟨_, h.clock, by simp only [act, h.permits, if_neg hfree, ← hshared]⟩
  · split at hact
    · rename_i hfinish
      cases hact
      exact ⟨_, h.clock, by simp only [act, hfinish, ← hshared]⟩
    · cases hact
  · split_ifs at hact with hwrite
    cases hact
    exact ⟨_, le_rfl, by
      simp only [act, if_pos (h.canWrite hwrite), write, h.state, h.permits, hwrote]⟩
  · rename_i pair _
    cases hact
    have hcalled := hcons (.called i pair) rfl
    exact ⟨_, h.clock, by simp only [act, h.state, h.permits, hcalled]⟩
  · rename_i permit answer
    cases hact
    have hreleased := hcons (.released i) rfl
    cases permit with
    | false =>
        exact ⟨_, h.clock, by simp only [act, drop, Bool.false_eq_true, if_false, ← hshared]⟩
    | true =>
        exact ⟨_, h.clock, by simp only [act, drop, if_true, h.state, h.permits, hreleased]⟩
  · split_ifs at hact with hclock
    cases hact
    exact ⟨_, le_rfl, by
      simp only [act, if_pos (h.clock.trans hclock), h.state, h.permits, h.log]⟩
  · split_ifs at hact with hwrite
    cases hact
    exact ⟨_, le_rfl, by
      simp only [act, if_pos (h.canWrite hwrite), write, h.state, h.permits, hwrote]⟩
  · cases hact

theorem unnoticed_runs {draw : Draw} {start : System ε}
    {actions : List (PoolAction Job (TaskAction ε))} (hnew : new config draw = some start)
    (hrun : Runs (Step config) start actions s) (hquiet : ∀ i, quiet i = true → Silent s i) :
    ∃ t, Runs (Step config) start (actions.filter (stays quiet)) t ∧ Unnoticed quiet s t := by
  induction hrun with
  | refl =>
      obtain ⟨state, -, rfl⟩ := Option.map_eq_some_iff.mp hnew
      exact ⟨_, .refl _, rfl, rfl, le_rfl, rfl, rfl, fun _ _ => rfl, by simp⟩
  | @snoc r s actions action hprefix hlast ih =>
      obtain ⟨t, hleft, hsame⟩ := ih fun i hi => (hquiet i hi).of_step hlast
      have hreach : Reachable config r := ⟨draw, start, hnew, actions, hprefix⟩
      rw [List.filter_append]
      rcases Pool.step_cases hlast with
        ⟨job, rfl, rfl⟩ | ⟨i, a, phase, shared, phase', rfl, hphase, hact, rfl⟩
      · refine ⟨_, hleft.snoc (Pool.step_spawn t job), hsame.state, hsame.permits, hsame.clock,
          hsame.log, ?_, fun i hi => ?_, fun i phase hi hphase => ?_⟩
        · simp [hsame.length]
        · dsimp only
          rw [List.getElem?_append, List.getElem?_append, hsame.length, hsame.others i hi]
        · rcases Pool.getElem?_concat_cases hphase with hold | ⟨-, rfl⟩
          · exact hsame.unmoved i phase hi hold
          · exact ⟨job, rfl⟩
      · have hacts := acts_of_act hact
        cases hi : quiet i with
        | true =>
            have hsilent := hquiet i hi
            have hpermit := hreach.silent_holdsPermit i phase (hsilent.of_step hlast) hphase
            refine ⟨t, ?_, hsame.skip hi hsilent hpermit hacts⟩
            simpa [stays, hi] using hleft
        | false =>
            obtain ⟨clock, hclock, hact'⟩ := hsame.act_eq hi hact
            have hphase' := (hsame.others i hi).trans hphase
            have hstep : Step config t (.act i a) _ := Pool.step_act hphase' hact'
            have hkept : [PoolAction.act i a].filter (stays quiet) = [PoolAction.act i a] := by
              simp [stays, hi]
            rw [hkept]
            refine ⟨_, hleft.snoc hstep, rfl, rfl, hclock, rfl, ?_, fun j hj => ?_,
              fun j other hj hother => ?_⟩
            · simp [hsame.length]
            · dsimp only
              by_cases hij : i = j
              · subst hij
                rw [Pool.getElem?_set_own hphase, Pool.getElem?_set_own hphase']
              · rw [List.getElem?_set_ne hij, List.getElem?_set_ne hij, hsame.others j hj]
            · rcases Pool.getElem?_set_cases hother with ⟨rfl, -⟩ | ⟨-, hold⟩
              · rw [hi] at hj
                cases hj
              · exact hsame.unmoved j other hj hold

end System

/-! ## Refused calls -/

def Phase.unadmitted : Phase ε → Bool
  | idle | loading | acquiring _ => true
  | done answer => answer.refusal
  | running _ | recording .. | announcing .. | leaving .. | forcing _ | forced .. => false

namespace System

variable {config : CircuitBreakerConfig arith ε} {s : System ε} {i : Nat} {phase phase' : Phase ε}
  {a : TaskAction ε} {shared : Shared}

theorem Acts.unadmitted (h : Acts config s i phase a shared phase')
    (hadmitted : Admitted phase) (hrefused : phase'.unadmitted = true) :
    phase.unadmitted = true ∧ shared.log = s.shared.log := by
  cases h with
  | refuse => exact ⟨rfl, rfl⟩
  | inspect => exact ⟨rfl, rfl⟩
  | load => exact ⟨rfl, rfl⟩
  | retry => exact ⟨rfl, rfl⟩
  | finish hfinish =>
      obtain ⟨answer, -, ⟨failed, rfl⟩ | rfl⟩ := finish_cases hfinish <;> cases hrefused
  | record =>
      unfold afterRecord at hrefused
      split at hrefused <;> cases hrefused
  | force =>
      unfold afterForce at hrefused
      split at hrefused <;> cases hrefused
  | @release permit answer =>
      have hanswer : answer.refusal = false := hadmitted answer rfl
      exact absurd hrefused (by simp [Phase.unadmitted, hanswer])
  | enter => cases hrefused
  | acquire => cases hrefused
  | announce => cases hrefused
  | observe => cases hrefused

theorem Reachable.silent_unadmitted (h : Reachable config s) :
    (∀ i, s.tasks.length ≤ i → Silent s i) ∧
      ∀ i phase, s.tasks[i]? = some phase → phase.unadmitted = true → Silent s i := by
  apply h.invariant
  · intro draw start hnew
    obtain ⟨state, -, rfl⟩ := Option.map_eq_some_iff.mp hnew
    exact ⟨fun i _ => by simp [Silent], fun i phase hphase => by simp at hphase⟩
  · rintro s action s' hreach ⟨hfresh, hearly⟩ hstep
    rcases step_cases hstep with
      ⟨job, -, rfl⟩ | ⟨j, a, old, shared, phase', -, hold, hacts, rfl⟩
    · refine ⟨fun i hi => hfresh i ?_, fun i phase hphase hunadmitted => ?_⟩
      · rw [List.length_append] at hi
        exact (Nat.le_add_right _ _).trans hi
      · rcases Pool.getElem?_concat_cases hphase with hstays | ⟨rfl, -⟩
        · exact hearly i phase hstays hunadmitted
        · exact hfresh _ le_rfl
    · have hothers : ∀ i, i ≠ j → Silent s i →
          Silent { shared := shared, tasks := s.tasks.set j phase' } i := by
        intro i hne hsilent e hmem
        rcases hacts.log_grows with heq | ⟨e', hown, heq⟩
        · exact hsilent e (heq ▸ hmem)
        · rcases List.mem_cons.mp (heq ▸ hmem) with rfl | hmem
          · by_contra hmarks
            rw [Bool.not_eq_false] at hmarks
            exact hne ((Event.owner_of_marks hmarks).symm.trans hown)
          · exact hsilent e hmem
      have hlt := (List.getElem?_eq_some_iff.mp hold).1
      refine ⟨fun i hi => ?_, fun i phase hphase hunadmitted => ?_⟩
      · rw [List.length_set] at hi
        exact hothers i (by omega) (hfresh i hi)
      · rcases Pool.getElem?_set_cases hphase with ⟨rfl, rfl⟩ | ⟨hne, hstays⟩
        · obtain ⟨hbefore, hlog⟩ :=
            hacts.unadmitted (hreach.admitted old (List.mem_of_getElem? hold)) hunadmitted
          intro e hmem
          exact hearly i old hold hbefore e (hlog ▸ hmem)
        · exact hothers i hne (hearly i phase hstays hunadmitted)

/--
The acts of any silent tasks can be left out of an interleaving: the other tasks
still make theirs, with the same phases and answers, and the breaker ends with
the same machine and the same permits.  The refused calls are silent.
-/
theorem silent_tasks_unnoticed {draw : Draw} {start : System ε}
    {actions : List (PoolAction Job (TaskAction ε))} (hnew : new config draw = some start)
    (hrun : Runs (Step config) start actions s) :
    (∀ quiet : Nat → Bool, (∀ i, quiet i = true → Silent s i) →
      ∃ t, Runs (Step config) start (actions.filter (stays quiet)) t ∧ Unnoticed quiet s t) ∧
    ∀ i answer, s.tasks[i]? = some (.done answer) → answer.refusal = true → Silent s i := by
  refine ⟨fun quiet => unnoticed_runs hnew hrun, fun i answer hdone hrefusal => ?_⟩
  have hreach : Reachable config s := ⟨draw, start, hnew, actions, hrun⟩
  exact hreach.silent_unadmitted.2 i (.done answer) hdone hrefusal

/-- A third call is refused, and leaves no trace. -/
theorem silent_tasks_unnoticed_outage : ∃ start s t, new hairTrigger.build 0 = some start ∧
    Runs (Step hairTrigger.build) start (outageRun ++ [.spawn .call, .act 2 (.check 0)]) s ∧
    Runs (Step hairTrigger.build) start (outageRun ++ [.spawn .call]) t ∧
    Unnoticed (fun i => i == 2) s t := by
  have hrefused := @silent_tasks_unnoticed _ Unit hairTrigger.build _ 0 _
    (outageRun ++ [.spawn .call, .act 2 (.check 0)]) rfl (runs_of_execute rfl)
  obtain ⟨t, hleft, hsame⟩ := hrefused.1 (fun i => i == 2) fun i hi => by
    rw [beq_iff_eq] at hi
    subst hi
    exact hrefused.2 2 .circuitOpen rfl rfl
  exact ⟨_, _, t, rfl, runs_of_execute rfl, hleft, hsame⟩

end System

end Breaker
