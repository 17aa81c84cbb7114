import Breaker.Foundation.Simulation
import Breaker.Tasks.Lock
import Breaker.Tasks.Permits

/-!
# Admission in one step

Between the admission check of a call and the end of `acquire` other tasks read
the circuit, take permits and give them back.  `decideAdmission` decides it
at one instant, and the system that admits in one step has the same runs: a call
is admitted or refused as if at the one step of its own that decides it, a
refusal by an `Open` circuit at the check, every other answer at the last load
or exchange.  In the other direction each admission in one step is a check, a
load and an exchange with nothing in between.
-/

namespace Breaker

open Foundation

universe u

variable {arith : RateArithmetic} {ε : Type u}

namespace Phase

/-- The phase without the reads of an admission that is not decided yet. -/
def outside : Phase ε → Phase ε
  | loading | acquiring _ => idle
  | phase => phase

theorem outside_start (job : Job) : (start job : Phase ε).outside = start job := by
  cases job <;> rfl

theorem outside_reads (phase : Phase ε) : phase.outside.reads = false := by
  cases phase <;> rfl

theorem outside_eq_self {phase : Phase ε} (h : phase.reads = false) : phase.outside = phase := by
  cases phase <;> first | rfl | cases h

end Phase

namespace System

section Atomic

variable (config : CircuitBreakerConfig arith ε)

/-- `call` up to the guard, all at one instant. -/
def decideAdmission (shared : Shared) (i now : Nat) : Shared × Phase ε :=
  let shared := { shared with clock := now }
  match shared.state.currentAt now with
  | .opened => (shared, .done .circuitOpen)
  | .halfOpen =>
      if config.halfOpenMaxCalls ≤ shared.halfOpenPermits then (shared, .done .rejected)
      else
        ({ shared with
          halfOpenPermits := shared.halfOpenPermits + 1
          log := .admitted i true :: shared.log }, .running true)
  | .closed => ({ shared with log := .admitted i false :: shared.log }, .running false)

variable {config} {shared : Shared} {i now : Nat}

theorem decide_opened (h : shared.state.currentAt now = .opened) :
    decideAdmission config shared i now = ({ shared with clock := now }, .done .circuitOpen) := by
  simp only [decideAdmission, h]

theorem decide_closed (h : shared.state.currentAt now = .closed) :
    decideAdmission config shared i now =
      ({ shared with clock := now, log := .admitted i false :: shared.log }, .running false) := by
  simp only [decideAdmission, h]

theorem decide_full (h : shared.state.currentAt now = .halfOpen)
    (hfull : config.halfOpenMaxCalls ≤ shared.halfOpenPermits) :
    decideAdmission config shared i now = ({ shared with clock := now }, .done .rejected) := by
  simp only [decideAdmission, h, if_pos hfull]

theorem decide_free (h : shared.state.currentAt now = .halfOpen)
    (hfree : shared.halfOpenPermits < config.halfOpenMaxCalls) :
    decideAdmission config shared i now =
      ({ shared with
        clock := now
        halfOpenPermits := shared.halfOpenPermits + 1
        log := .admitted i true :: shared.log }, .running true) := by
  simp only [decideAdmission, h, if_neg (not_le.mpr hfree)]

variable (config)

def atomicAct (s : System ε) (i : Nat) : Phase ε → TaskAction ε → Option (Shared × Phase ε)
  | .idle, .check now =>
      if s.shared.clock ≤ now then some (decideAdmission config s.shared i now) else none
  | .loading, _ | .acquiring _, _ => none
  | phase, a => act config s i phase a

abbrev AtomicStep : System ε → PoolAction Job (TaskAction ε) → System ε → Prop :=
  Pool.Step Phase.start (atomicAct config)

end Atomic

/-- The step decides as the other does, or it is the one that decides an admission. -/
inductive Decides : PoolAction Job (TaskAction ε) → PoolAction Job (TaskAction ε) → Prop
  | same (action : PoolAction Job (TaskAction ε)) : Decides action action
  | load (i now : Nat) : Decides (.act i .load) (.act i (.check now))
  | exchange (i now : Nat) (spurious : Bool) :
      Decides (.act i (.exchange spurious)) (.act i (.check now))

structure Linearized (s t : System ε) : Prop where
  state : t.shared.state = s.shared.state
  permits : t.shared.halfOpenPermits = s.shared.halfOpenPermits
  log : t.shared.log = s.shared.log
  clock : t.shared.clock ≤ s.shared.clock
  tasks : t.tasks = s.tasks.map Phase.outside

variable {config : CircuitBreakerConfig arith ε} {s s' t : System ε} {i : Nat}
  {phase phase' : Phase ε}
  {a : TaskAction ε} {shared : Shared}

theorem Linearized.shared_eq (h : Linearized s t) :
    t.shared = { s.shared with clock := t.shared.clock } := by
  obtain ⟨⟨state, permits, clock, log⟩, tasks⟩ := t
  obtain ⟨rfl, rfl, rfl, -, -⟩ := h
  rfl

theorem Linearized.task (h : Linearized s t) (hphase : s.tasks[i]? = some phase) :
    t.tasks[i]? = some phase.outside := by
  rw [h.tasks, List.getElem?_map, hphase]
  rfl

theorem Linearized.canWrite (h : Linearized s t) {tick : Tick} (hwrite : CanWrite s tick) :
    CanWrite t tick := by
  obtain ⟨-, hnow, hstamp⟩ := hwrite
  refine ⟨?_, h.clock.trans hnow, hstamp⟩
  rw [h.tasks, List.any_map, List.any_eq_false]
  intro phase _
  simp [Phase.outside_reads]

/-! ## One step -/

theorem Linearized.stay (h : Linearized s t) (hphase : s.tasks[i]? = some phase)
    (houtside : phase'.outside = phase.outside) {clock : Nat} (hclock : s.shared.clock ≤ clock) :
    Linearized { shared := { s.shared with clock := clock }, tasks := s.tasks.set i phase' } t where
  state := h.state
  permits := h.permits
  log := h.log
  clock := h.clock.trans hclock
  tasks := by
    obtain ⟨hlt, heq⟩ := List.getElem?_eq_some_iff.mp (h.task hphase)
    dsimp only
    rw [List.map_set, houtside, ← h.tasks, ← heq, List.set_getElem_self]

theorem Linearized.step (h : Linearized s t) (hphase : s.tasks[i]? = some phase)
    {b : TaskAction ε} {clock : Nat} (hclock : clock ≤ shared.clock)
    (hact : atomicAct config t i phase.outside b =
      some ({ shared with clock := clock }, phase'.outside)) :
    ∃ t', AtomicStep config t (.act i b) t' ∧
      Linearized { shared := shared, tasks := s.tasks.set i phase' } t' := by
  refine ⟨_, Pool.step_act (h.task hphase) hact, rfl, rfl, rfl, hclock, ?_⟩
  rw [List.map_set, ← h.tasks]

theorem Linearized.admitted (h : Linearized s t) (hphase : s.tasks[i]? = some phase)
    (houtside : phase.outside = .idle) {now : Nat} (hnow : s.shared.clock ≤ now)
    (hdecided : decideAdmission config s.shared i now = (shared, phase'))
    (hreads : phase'.reads = false) :
    ∃ t', AtomicStep config t (.act i (.check now)) t' ∧
      Linearized { shared := shared, tasks := s.tasks.set i phase' } t' := by
  have hsame : decideAdmission config t.shared i now = (shared, phase') := by
    rw [← hdecided, h.shared_eq]
    rfl
  have hact : atomicAct config t i phase.outside (.check now) =
      some (shared, phase'.outside) := by
    rw [houtside, atomicAct, if_pos (h.clock.trans hnow), hsame, Phase.outside_eq_self hreads]
  exact h.step hphase le_rfl hact

theorem Linearized.loopHead (h : Linearized s t) (hreach : Reachable config s)
    (hphase : s.tasks[i]? = some phase) (hreads : phase.reads = true) :
    Linearized { s with tasks := s.tasks.set i (loopHead config s.shared.halfOpenPermits) } t ∨
      ∃ t', AtomicStep config t (.act i (.check s.shared.clock)) t' ∧ Linearized
        { s with tasks := s.tasks.set i (loopHead config s.shared.halfOpenPermits) } t' := by
  have houtside : phase.outside = .idle := by
    cases phase <;> first | rfl | cases hreads
  by_cases hfull : config.halfOpenMaxCalls ≤ s.shared.halfOpenPermits
  · right
    rw [System.loopHead, if_pos hfull]
    have hhalf := hreach.reading phase (List.mem_of_getElem? hphase) hreads
    exact h.admitted hphase houtside le_rfl (decide_full hhalf hfull) rfl
  · left
    rw [System.loopHead, if_neg hfull]
    have hundecided : (Phase.acquiring s.shared.halfOpenPermits : Phase ε).outside =
        phase.outside := houtside.symm
    exact h.stay hphase hundecided le_rfl

theorem Linearized.acts (h : Linearized s t) (hreach : Reachable config s)
    (hphase : s.tasks[i]? = some phase) (hacts : Acts config s i phase a shared phase') :
    Linearized { shared := shared, tasks := s.tasks.set i phase' } t ∨
      ∃ b t', Decides (.act i a) (.act i b) ∧ AtomicStep config t (.act i b) t' ∧
        Linearized { shared := shared, tasks := s.tasks.set i phase' } t' := by
  have hsame : ∀ {clock : Nat}, clock ≤ shared.clock →
      atomicAct config t i phase.outside a =
        some ({ shared with clock := clock }, phase'.outside) →
      ∃ b t', Decides (.act i a) (.act i b) ∧ AtomicStep config t (.act i b) t' ∧
        Linearized { shared := shared, tasks := s.tasks.set i phase' } t' := by
    intro clock hclock hact
    obtain ⟨t', hstep, hlinear⟩ := h.step hphase hclock hact
    exact ⟨a, t', .same _, hstep, hlinear⟩
  cases hacts with
  | refuse hclock hopen =>
      obtain ⟨t', hstep, hlinear⟩ := h.admitted hphase rfl hclock (decide_opened hopen) rfl
      exact .inr ⟨_, t', .same _, hstep, hlinear⟩
  | enter hclock hclosed =>
      obtain ⟨t', hstep, hlinear⟩ := h.admitted hphase rfl hclock (decide_closed hclosed) rfl
      exact .inr ⟨_, t', .same _, hstep, hlinear⟩
  | inspect hclock =>
      have houtside : (Phase.loading : Phase ε).outside = .idle := rfl
      exact .inl (h.stay hphase houtside hclock)
  | load =>
      rcases h.loopHead hreach hphase rfl with hstay | ⟨t', hstep, hlinear⟩
      · exact .inl hstay
      · exact .inr ⟨_, t', .load i _, hstep, hlinear⟩
  | @retry current spurious =>
      rcases h.loopHead hreach hphase rfl with hstay | ⟨t', hstep, hlinear⟩
      · exact .inl hstay
      · exact .inr ⟨_, t', .exchange i _ spurious, hstep, hlinear⟩
  | acquire hcurrent =>
      subst hcurrent
      have hlt := hreach.permits.observed _ (List.mem_of_getElem? hphase) _ rfl
      have hhalf := hreach.reading _ (List.mem_of_getElem? hphase) rfl
      obtain ⟨t', hstep, hlinear⟩ := h.admitted hphase rfl le_rfl (decide_free hhalf hlt) rfl
      exact .inr ⟨_, t', .exchange i _ false, hstep, hlinear⟩
  | finish hfinish =>
      right
      apply hsame h.clock
      rw [Phase.outside_eq_self (finish_reads hfinish), ← h.shared_eq]
      simp only [Phase.outside, atomicAct, act, hfinish]
  | record hwrite =>
      right
      apply hsame le_rfl
      rw [Phase.outside_eq_self (afterRecord_reads _ _ _)]
      simp only [Phase.outside, atomicAct, act, if_pos (h.canWrite hwrite), write, h.state, h.log,
        h.permits]
  | announce =>
      right
      apply hsame h.clock
      simp only [Phase.outside, atomicAct, act, h.state, h.log, h.permits]
  | @release permit =>
      right
      cases permit with
      | false =>
          apply hsame h.clock
          simp only [Phase.outside, atomicAct, act, drop, Bool.false_eq_true, ↓reduceIte,
            ← h.shared_eq]
      | true =>
          apply hsame h.clock
          simp only [Phase.outside, atomicAct, act, drop, ↓reduceIte, h.state, h.log, h.permits]
  | observe hclock =>
      right
      apply hsame le_rfl
      simp only [Phase.outside, atomicAct, act, if_pos (h.clock.trans hclock), h.state, h.log,
        h.permits]
  | force hwrite =>
      right
      apply hsame le_rfl
      rw [Phase.outside_eq_self (afterForce_reads _ _ _)]
      simp only [Phase.outside, atomicAct, act, if_pos (h.canWrite hwrite), write, h.state, h.log,
        h.permits]

/-! ## Runs -/

def LinearizedFrom (config : CircuitBreakerConfig arith ε) (s t : System ε) : Prop :=
  Reachable config s ∧ Linearized s t

theorem simulates_atomic (config : CircuitBreakerConfig arith ε) :
    Simulates (Step config) (AtomicStep config) Decides (LinearizedFrom config) := by
  rintro s t action s' ⟨hreach, hlinear⟩ hstep
  have hreach' := hreach.step hstep
  rcases step_cases hstep with
    ⟨job, rfl, rfl⟩ | ⟨i, a, phase, shared, phase', rfl, hphase, hacts, rfl⟩
  · refine .inr ⟨_, _, .same _, Pool.step_spawn t job, hreach', ?_⟩
    obtain ⟨hstate, hpermits, hlog, hclock, htasks⟩ := hlinear
    exact ⟨hstate, hpermits, hlog, hclock, by simp [htasks, Phase.outside_start]⟩
  · rcases hlinear.acts hreach hphase hacts with hstay | ⟨b, t', hdecides, hstep', hlinear'⟩
    · exact .inl ⟨hreach', hstay⟩
    · exact .inr ⟨_, t', hdecides, hstep', hreach', hlinear'⟩

theorem runs_of_decide {now : Nat} (hphase : s.tasks[i]? = some .idle)
    (hclock : s.shared.clock ≤ now)
    (hdecided : decideAdmission config s.shared i now = (shared, phase')) :
    ∃ labels, Runs (Step config) s labels
      { shared := shared, tasks := s.tasks.set i phase' } := by
  cases hcurrent : s.shared.state.currentAt now with
  | opened =>
      rw [decide_opened hcurrent] at hdecided
      cases hdecided
      have hcheck : act config s i .idle (.check now) =
          some ({ s.shared with clock := now }, .done .circuitOpen) := by
        simp [act, hclock, hcurrent]
      exact ⟨_, .single (Pool.step_act hphase hcheck)⟩
  | closed =>
      rw [decide_closed hcurrent] at hdecided
      cases hdecided
      have hcheck : act config s i .idle (.check now) =
          some ({ s.shared with clock := now, log := .admitted i false :: s.shared.log },
            .running false) := by
        simp [act, hclock, hcurrent]
      exact ⟨_, .single (Pool.step_act hphase hcheck)⟩
  | halfOpen =>
      have hcheck : Step config s (.act i (.check now))
          { shared := { s.shared with clock := now }, tasks := s.tasks.set i .loading } :=
        Pool.step_act hphase (by simp [act, hclock, hcurrent])
      have hloading : (s.tasks.set i .loading)[i]? = some (.loading : Phase ε) :=
        Pool.getElem?_set_own hphase _
      have hload : Step config
          { shared := { s.shared with clock := now }, tasks := s.tasks.set i .loading }
          (.act i .load)
          { shared := { s.shared with clock := now }
            tasks := (s.tasks.set i .loading).set i (loopHead config s.shared.halfOpenPermits) } :=
        Pool.step_act hloading rfl
      rw [List.set_set] at hload
      by_cases hfull : config.halfOpenMaxCalls ≤ s.shared.halfOpenPermits
      · rw [decide_full hcurrent hfull] at hdecided
        cases hdecided
        rw [loopHead, if_pos hfull] at hload
        exact ⟨_, (Runs.single hcheck).snoc hload⟩
      · rw [decide_free hcurrent (not_le.mp hfull)] at hdecided
        cases hdecided
        rw [loopHead, if_neg hfull] at hload
        have hacquiring : (s.tasks.set i (.acquiring s.shared.halfOpenPermits))[i]? =
            some (.acquiring s.shared.halfOpenPermits : Phase ε) :=
          Pool.getElem?_set_own hphase _
        have hexchange : Step config
            { shared := { s.shared with clock := now }
              tasks := s.tasks.set i (.acquiring s.shared.halfOpenPermits) }
            (.act i (.exchange false))
            { shared := { s.shared with
                clock := now
                halfOpenPermits := s.shared.halfOpenPermits + 1
                log := .admitted i true :: s.shared.log }
              tasks := (s.tasks.set i (.acquiring s.shared.halfOpenPermits)).set i
                (.running true) } :=
          Pool.step_act hacquiring (if_pos ⟨rfl, rfl⟩)
        rw [List.set_set] at hexchange
        exact ⟨_, ((Runs.single hcheck).snoc hload).snoc hexchange⟩

theorem runs_of_atomicStep {action : PoolAction Job (TaskAction ε)}
    (h : AtomicStep config t action s) : ∃ labels, Runs (Step config) t labels s := by
  rcases Pool.step_cases h with
    ⟨job, rfl, rfl⟩ | ⟨i, a, phase, shared, phase', rfl, hphase, hact, rfl⟩
  · exact ⟨_, .single (Pool.step_spawn t job)⟩
  · unfold atomicAct at hact
    split at hact
    · split_ifs at hact with hclock
      exact runs_of_decide hphase hclock (Option.some.inj hact)
    · cases hact
    · cases hact
    · exact ⟨_, .single (Pool.step_act hphase hact)⟩

/--
Admission is linearizable.  The loop of `acquire`, interleaved in any way with
other tasks, leaves what deciding at one instant would leave, at a step of the
call that is admitted or refused; and deciding at one instant is a special case.
-/
theorem admission_linearizable {draw : Draw} {start : System ε}
    (hnew : new config draw = some start) :
    (∀ labels s, Runs (Step config) start labels s →
      ∃ labels' t, Runs (AtomicStep config) start labels' t ∧ Linearized s t ∧
        Matches Decides labels labels') ∧
    (∀ labels t, Runs (AtomicStep config) start labels t →
      ∃ labels', Runs (Step config) start labels' t) := by
  constructor
  · intro labels s hrun
    have hstart : LinearizedFrom config start start := by
      obtain ⟨state, -, rfl⟩ := Option.map_eq_some_iff.mp hnew
      exact ⟨⟨draw, _, hnew, .refl _⟩, rfl, rfl, rfl, le_rfl, rfl⟩
    obtain ⟨labels', t, hrun', ⟨-, hlinear⟩, hmatches⟩ := (simulates_atomic config).runs hstart hrun
    exact ⟨labels', t, hrun', hlinear, hmatches⟩
  · intro labels t hrun
    induction hrun with
    | refl => exact ⟨[], .refl _⟩
    | snoc _ hlast ih =>
        obtain ⟨before, hbefore⟩ := ih
        obtain ⟨after, hafter⟩ := runs_of_atomicStep hlast
        exact ⟨before ++ after, hbefore.trans hafter⟩

theorem admission_linearizable_probing :
    ∃ start labels t, new hairTrigger.build 0 = some start ∧
      Runs (AtomicStep hairTrigger.build) start labels t ∧ Linearized probing t := by
  obtain ⟨hatomic, -⟩ := @admission_linearizable _ _ hairTrigger.build 0 _ rfl
  obtain ⟨labels, t, hrun, hlinear, -⟩ := hatomic (outageRun ++ probeRun) probing
    (runs_of_execute rfl)
  exact ⟨_, labels, t, rfl, hrun, hlinear⟩

end System

end Breaker
