import Breaker.Tasks.Lock
import Breaker.Tasks.Permits

/-!
# No permanent lockout

When every guard has been dropped and an `Open` circuit has waited, calls that
run alone and succeed get through.  One call moves the circuit by one success,
or finds it `Closed` and leaves it so; after `successThreshold` of them it is
`Closed`.  A call that runs alone also comes to its end, as each of its steps
lowers its rank, unless another task holds the read lock of the state.
-/

namespace Breaker

open Foundation

universe u

variable {arith : RateArithmetic} {ε : Type u}

namespace StateMachine

variable {config : CircuitBreakerConfig arith ε} {s s' : StateMachine} {now now' k : Nat}

/-- The circuit lets calls in; it is `Closed`, or has counted `k` successful probes. -/
def Recovering (s : StateMachine) (now k : Nat) : Prop :=
  s.currentAt now = .closed ∨ s.currentAt now = .halfOpen ∧ k ≤ s.successCount

theorem Recovering.ne_opened (h : s.Recovering now k) : s.currentAt now ≠ .opened := by
  rcases h with hclosed | ⟨hhalf, -⟩
  · simp [hclosed]
  · simp [hhalf]

theorem Recovering.mono (h : s.Recovering now k) (hle : now ≤ now') : s.Recovering now' k := by
  rcases h with hclosed | ⟨hhalf, hcount⟩
  · exact .inl (currentAt_closed_iff.mpr (currentAt_closed_iff.mp hclosed))
  · exact .inr ⟨currentAt_halfOpen_mono hhalf hle, hcount⟩

theorem recovering_zero (hshape : s.Shape config)
    (hdue : s.current = .opened → ∀ since ∈ s.openSince,
      since + s.waitDuration.nanos ≤ now) : s.Recovering now 0 := by
  cases hcurrent : s.current with
  | closed => exact .inl (currentAt_closed_iff.mpr hcurrent)
  | halfOpen => exact .inr ⟨currentAt_halfOpen_iff.mpr (.inl hcurrent), Nat.zero_le _⟩
  | opened =>
      obtain ⟨since, hsince⟩ := Option.isSome_iff_exists.mp (hshape.since_iff.mpr hcurrent)
      have hwait := hdue hcurrent since hsince
      refine .inr ⟨currentAt_of_due ⟨hcurrent, since, hsince, ?_⟩, Nat.zero_le _⟩
      omega

theorem Recovering.recorded (h : s.Recovering now k)
    (hrecorded : Recorded config s (s.currentAt now) false s') : s'.Recovering now' (k + 1) := by
  cases hrecorded with
  | counted _ hclosed => exact .inl (currentAt_closed_iff.mpr hclosed)
  | recovered _ _ _ hclosed => exact .inl (currentAt_closed_iff.mpr hclosed)
  | waiting hopen => exact absurd hopen h.ne_opened
  | probed hhalf _ _ hcurrent hcount =>
      rcases h with hclosed | ⟨-, hle⟩
      · cases hclosed.symm.trans hhalf
      · exact .inr ⟨currentAt_halfOpen_iff.mpr (.inl hcurrent), by omega⟩
  | tripped _ hfailed => cases hfailed
  | retripped _ hfailed => cases hfailed

theorem Recovering.closed (h : s.Recovering now config.successThreshold)
    (hconfig : config.WellFormed) (hshape : s.Shape config) : s.current = .closed := by
  have hpos := hconfig.success_pos
  rcases h with hclosed | ⟨hhalf, hcount⟩
  · exact currentAt_closed_iff.mp hclosed
  · rcases currentAt_halfOpen_iff.mp hhalf with hcurrent | ⟨hopen, -⟩
    · have := (hshape.halfOpen hcurrent).2.1
      omega
    · have := (hshape.opened hopen).2.1
      omega

theorem recordSuccess_ok (config : CircuitBreakerConfig arith ε) (s : StateMachine) (tick : Tick) :
    ∃ report, (s.recordSuccess config tick).2 = .ok report := by
  rcases settleSuccess_cases config tick (s.countSuccess.maybeTransitionToHalfOpen tick.now) with
    ⟨-, heq⟩ | ⟨-, heq⟩ | ⟨-, -, heq⟩ | ⟨-, -, heq⟩
  all_goals exact ⟨_, congrArg Prod.snd heq⟩

end StateMachine

namespace System

variable {config : CircuitBreakerConfig arith ε} {s s' : System ε} {i k : Nat}
  {phase phase' : Phase ε}
  {a : TaskAction ε} {shared : Shared} {value : ε} {tasks : List (Phase ε)}

/-! ## One call alone -/

/-- A call runs from its start to its end, its operation returns `Ok`, and nothing else runs. -/
def SoloCall (config : CircuitBreakerConfig arith ε) (s : System ε) (value : ε) (s' : System ε) :
    Prop :=
  ∃ actions : List (TaskAction ε),
    Runs (Step config) s (.spawn .call :: actions.map (.act s.tasks.length)) s' ∧
    (∀ outcome, .finish outcome ∈ actions → outcome = .ok value) ∧
    ∃ answer, s'.tasks[s.tasks.length]? = some (.done answer)

/-- How far a call has come that runs alone and started after `k` successes. -/
def Solo (value : ε) (k : Nat) (shared : Shared) : Phase ε → Prop
  | .idle | .loading | .running _ => shared.state.Recovering shared.clock k
  | .acquiring current => current = 0 ∧ shared.state.Recovering shared.clock k
  | .recording _ failed answer =>
      failed = false ∧ answer = .ok value ∧ shared.state.Recovering shared.clock k
  | .announcing _ _ answer | .leaving _ answer | .done answer =>
      answer = .ok value ∧ shared.state.Recovering shared.clock (k + 1)
  | .forcing _ | .forced .. => False

theorem solo_loopHead (hconfig : config.WellFormed)
    (h : shared.state.Recovering shared.clock k) : Solo value k shared (loopHead config 0) := by
  rw [loopHead, if_neg (not_le.mpr hconfig.halfOpen_pos)]
  exact ⟨rfl, h⟩

theorem Solo.acts (h : Solo value k s.shared phase) (hconfig : config.WellFormed)
    (hreach : Reachable config s) (hpermits : s.shared.halfOpenPermits = phase.holdsPermit.toNat)
    (hacts : Acts config s i phase a shared phase')
    (hok : ∀ outcome, a = .finish outcome → outcome = .ok value) :
    Solo value k shared phase' := by
  cases hacts with
  | refuse hclock hopen => exact absurd hopen (h.mono hclock).ne_opened
  | inspect hclock => exact h.mono hclock
  | enter hclock => exact h.mono hclock
  | load =>
      rw [hpermits]
      exact solo_loopHead hconfig h
  | acquire => exact h.2
  | retry =>
      rw [hpermits]
      exact solo_loopHead hconfig h.2
  | finish hfinish =>
      cases hok _ rfl
      cases hfinish
      exact ⟨rfl, rfl, h⟩
  | @record permit failed answer tick hwrite =>
      obtain ⟨rfl, rfl, hrecovering⟩ := h
      have hrecorded := (hreach.machine.shape hconfig).recorded false tick
      rw [← StateMachine.apply_recordOp] at hrecorded
      have hnext : (s.shared.state.apply config (recordOp false, tick)).1.Recovering tick.stamp
          (k + 1) := (hrecovering.mono hwrite.2.1).recorded hrecorded
      obtain ⟨report, hreport⟩ := StateMachine.recordSuccess_ok config s.shared.state tick
      have hresult : (s.shared.state.apply config (recordOp false, tick)).2 = .ok report := hreport
      rw [hresult]
      cases report with
      | none => exact ⟨rfl, hnext⟩
      | some pair => exact ⟨rfl, hnext⟩
  | announce => exact h
  | @release permit => cases permit <;> exact h
  | observe => exact h.elim
  | force => exact h.elim

structure Alone (config : CircuitBreakerConfig arith ε) (tasks : List (Phase ε)) (value : ε)
    (k : Nat) (s : System ε) (phase : Phase ε) : Prop where
  reachable : Reachable config s
  tasks_eq : s.tasks = tasks ++ [phase]
  unguarded : ∀ phase ∈ tasks, phase.holdsPermit = false
  solo : Solo value k s.shared phase

theorem Alone.task (h : Alone config tasks value k s phase) :
    s.tasks[tasks.length]? = some phase := by
  simp [h.tasks_eq]

theorem Alone.permits (h : Alone config tasks value k s phase) :
    s.shared.halfOpenPermits = phase.holdsPermit.toNat := by
  have hnone : tasks.countP Phase.holdsPermit = 0 :=
    List.countP_eq_zero.mpr fun phase hmem => by simp [h.unguarded phase hmem]
  rw [h.reachable.permits.count, h.tasks_eq, List.countP_append, hnone, Nat.zero_add]
  cases hholds : phase.holdsPermit <;> simp [hholds]

theorem Alone.step (h : Alone config tasks value k s phase) (hconfig : config.WellFormed)
    (hstep : Step config s (.act tasks.length a) s')
    (hok : ∀ outcome, a = .finish outcome → outcome = .ok value) :
    ∃ phase', Alone config tasks value k s' phase' := by
  have hreach := h.reachable.step hstep
  rcases step_cases hstep with
    ⟨job, heq, -⟩ | ⟨i, b, before, shared, phase', heq, hphase, hacts, rfl⟩
  · cases heq
  · cases heq
    rw [h.task, Option.some.injEq] at hphase
    subst hphase
    refine ⟨phase', hreach, ?_, h.unguarded, ?_⟩
    · simp [h.tasks_eq]
    · exact h.solo.acts hconfig h.reachable h.permits hacts hok

theorem Alone.runs {actions : List (TaskAction ε)} (h : Alone config tasks value k s phase)
    (hconfig : config.WellFormed)
    (hrun : Runs (Step config) s (actions.map (.act tasks.length)) s')
    (hok : ∀ outcome, .finish outcome ∈ actions → outcome = .ok value) :
    ∃ phase', Alone config tasks value k s' phase' := by
  apply hrun.invariant (I := fun s => ∃ phase, Alone config tasks value k s phase) ⟨phase, h⟩
  rintro s action s' hmem ⟨phase, halone⟩ hstep
  obtain ⟨a, ha, rfl⟩ := List.mem_map.mp hmem
  exact halone.step hconfig hstep fun outcome heq => hok outcome (heq ▸ ha)

/-! ## Calls one after another -/

structure Recovers (config : CircuitBreakerConfig arith ε) (k : Nat) (s : System ε) : Prop where
  reachable : Reachable config s
  unguarded : ∀ phase ∈ s.tasks, phase.holdsPermit = false
  recovering : s.shared.state.Recovering s.shared.clock k

theorem Recovers.alone (h : Recovers config k s) (value : ε) :
    Alone config s.tasks value k { s with tasks := s.tasks ++ [.idle] } .idle where
  reachable := h.reachable.step (Pool.step_spawn s Job.call)
  tasks_eq := rfl
  unguarded := h.unguarded
  solo := h.recovering

theorem SoloCall.recovers (hcall : SoloCall config s value s') (hconfig : config.WellFormed)
    (h : Recovers config k s) :
    Recovers config (k + 1) s' ∧ s'.tasks = s.tasks ++ [.done (.ok value)] := by
  obtain ⟨actions, hrun, hok, answer, hdone⟩ := hcall
  obtain ⟨spawned, hspawn, hrest⟩ := hrun.uncons
  cases hspawn
  obtain ⟨phase, halone⟩ := (h.alone value).runs hconfig hrest hok
  rw [halone.task, Option.some.injEq] at hdone
  subst hdone
  obtain ⟨rfl, hrecovering⟩ := halone.solo
  refine ⟨⟨halone.reachable, ?_, hrecovering⟩, halone.tasks_eq⟩
  intro phase hmem
  rw [halone.tasks_eq] at hmem
  rcases List.mem_append.mp hmem with hold | hlast
  · exact h.unguarded phase hold
  · rw [List.mem_singleton] at hlast
    exact hlast ▸ rfl

theorem Recovers.calls {values : List ε} (h : Recovers config 0 s) (hconfig : config.WellFormed)
    (hrun : Runs (SoloCall config) s values s') :
    Recovers config values.length s' ∧
      s'.tasks = s.tasks ++ values.map fun value => .done (.ok value) := by
  induction hrun with
  | refl => exact ⟨h, by simp⟩
  | snoc _ hcall ih =>
      obtain ⟨hbefore, htasks⟩ := ih
      obtain ⟨hafter, hlast⟩ := hcall.recovers hconfig hbefore
      refine ⟨by simpa using hafter, ?_⟩
      rw [hlast, htasks]
      simp

/-! ## A call alone comes to its end -/

def rank : Phase ε → Nat
  | .idle => 7
  | .loading => 6
  | .acquiring _ => 5
  | .running _ => 4
  | .recording .. => 3
  | .announcing .. => 2
  | .leaving .. => 1
  | .forcing _ | .forced .. | .done _ => 0

theorem Alone.progress (h : Alone config tasks value k s phase) (hconfig : config.WellFormed)
    (hfree : tasks.any Phase.reads = false) (hrank : 0 < rank phase) :
    ∃ a shared phase', act config s tasks.length phase a = some (shared, phase') ∧
      (∀ outcome, a = .finish outcome → outcome = .ok value) ∧ rank phase' < rank phase := by
  have hsolo := h.solo
  have hpermits := h.permits
  cases phase with
  | idle =>
      rcases hsolo with hclosed | ⟨hhalf, -⟩
      · refine ⟨.check s.shared.clock,
          { s.shared with log := .admitted tasks.length false :: s.shared.log }, .running false,
          ?_, by simp, by simp [rank]⟩
        simp [act, hclosed]
      · refine ⟨.check s.shared.clock, s.shared, .loading, ?_, by simp, by simp [rank]⟩
        simp [act, hhalf]
  | loading =>
      refine ⟨.load, _, _, rfl, by simp, ?_⟩
      rw [hpermits]
      simp [loopHead, Phase.holdsPermit, Nat.ne_of_gt hconfig.halfOpen_pos, rank]
  | acquiring current =>
      obtain ⟨rfl, -⟩ := hsolo
      have hzero : s.shared.halfOpenPermits = 0 := hpermits
      refine ⟨.exchange false,
        { s.shared with
          halfOpenPermits := 1
          log := .admitted tasks.length true :: s.shared.log },
        .running true, ?_, by simp, by simp [rank]⟩
      simp [act, hzero]
  | running permit =>
      exact ⟨.finish (.ok value), _, _, rfl, by simp, by simp [rank]⟩
  | recording permit failed answer =>
      have hwrite : CanWrite s ⟨s.shared.clock, s.shared.clock, 0⟩ := by
        refine ⟨?_, le_rfl, le_rfl⟩
        rw [h.tasks_eq, List.any_append, hfree]
        rfl
      refine ⟨.record ⟨s.shared.clock, s.shared.clock, 0⟩, _, _, if_pos hwrite, by simp, ?_⟩
      unfold afterRecord
      split <;> simp [rank]
  | announcing permit pair answer => exact ⟨.announce, _, _, rfl, by simp, by simp [rank]⟩
  | leaving permit answer => exact ⟨.release, _, _, rfl, by simp, by simp [rank]⟩
  | forcing f => exact hsolo.elim
  | forced f prev => exact hsolo.elim
  | done answer => simp [rank] at hrank

theorem Alone.completes (hconfig : config.WellFormed) (hfree : tasks.any Phase.reads = false)
    (h : Alone config tasks value k s phase) :
    ∃ (actions : List (TaskAction ε)) (s' : System ε),
      Runs (Step config) s (actions.map (.act tasks.length)) s' ∧
      (∀ outcome, .finish outcome ∈ actions → outcome = .ok value) ∧
      ∃ answer, s'.tasks[tasks.length]? = some (.done answer) := by
  -- Every step of the call lowers its rank, and only an ended call has rank zero.
  induction hn : rank phase using Nat.strong_induction_on generalizing s phase with
  | _ n ih =>
      subst hn
      rcases Nat.eq_zero_or_pos (rank phase) with hzero | hpos
      · refine ⟨[], s, .refl s, by simp, ?_⟩
        have hsolo := h.solo
        cases phase with
        | done answer => exact ⟨answer, h.task⟩
        | forcing f => exact hsolo.elim
        | forced f prev => exact hsolo.elim
        | _ => simp [rank] at hzero
      · obtain ⟨a, shared, next, hact, hok, hlt⟩ := h.progress hconfig hfree hpos
        have hstep : Step config s (.act tasks.length a)
            { shared := shared, tasks := s.tasks.set tasks.length next } :=
          Pool.step_act h.task hact
        obtain ⟨phase', halone⟩ := h.step hconfig hstep hok
        have hnext : phase' = next := by
          have htask := halone.task
          simpa [h.tasks_eq, eq_comm] using htask
        subst hnext
        obtain ⟨actions, s', hrun, hrest, hdone⟩ := ih _ hlt halone rfl
        refine ⟨a :: actions, s', hrun.cons hstep, ?_, hdone⟩
        intro outcome hmem
        rcases List.mem_cons.mp hmem with heq | hmem
        · exact hok outcome heq.symm
        · exact hrest outcome hmem

theorem Recovers.exists_soloCall (h : Recovers config k s) (hconfig : config.WellFormed)
    (hfree : s.tasks.any Phase.reads = false) (value : ε) :
    ∃ s', SoloCall config s value s' := by
  obtain ⟨actions, s', hrun, hok, hdone⟩ := (h.alone value).completes hconfig hfree
  exact ⟨s', actions, hrun.cons (Pool.step_spawn s Job.call), hok, hdone⟩

theorem Recovers.exists_calls (h : Recovers config k s) (hconfig : config.WellFormed)
    (hfree : s.tasks.any Phase.reads = false) (values : List ε) :
    ∃ s', Runs (SoloCall config) s values s' := by
  induction values generalizing k s with
  | nil => exact ⟨s, .refl s⟩
  | cons value values ih =>
      obtain ⟨t, hcall⟩ := h.exists_soloCall hconfig hfree value
      obtain ⟨hrecovers, htasks⟩ := hcall.recovers hconfig h
      obtain ⟨s', hrest⟩ := ih hrecovers (by simp [htasks, hfree, Phase.reads])
      exact ⟨s', hrest.cons hcall⟩

/--
No permanent lockout.  From any reachable system in which nobody owns a guard
and an `Open` circuit has waited, `successThreshold` calls that run alone one
after another all return their values and leave the circuit `Closed`; and they
do run to their ends unless another task is still at its admission.
-/
theorem no_lockout (b : CircuitBreakerConfigBuilder arith ε) (h : Reachable b.build s)
    (hunguarded : ∀ phase ∈ s.tasks, phase.holdsPermit = false)
    (hdue : s.shared.state.current = .opened → ∀ since ∈ s.shared.state.openSince,
      since + s.shared.state.waitDuration.nanos ≤ s.shared.clock)
    (values : List ε) (hlength : values.length = b.build.successThreshold) :
    (∀ s', Runs (SoloCall b.build) s values s' →
      s'.tasks = s.tasks ++ values.map (fun value => .done (.ok value)) ∧
        s'.shared.state.current = .closed) ∧
    (s.tasks.any Phase.reads = false → ∃ s', Runs (SoloCall b.build) s values s') := by
  have hconfig := build_wellFormed b
  have hstart : Recovers b.build 0 s :=
    ⟨h, hunguarded, StateMachine.recovering_zero (h.machine.shape hconfig) hdue⟩
  refine ⟨fun s' hrun => ?_, fun hfree => hstart.exists_calls hconfig hfree values⟩
  obtain ⟨hend, htasks⟩ := hstart.calls hconfig hrun
  rw [hlength] at hend
  exact ⟨htasks, hend.recovering.closed hconfig (hend.reachable.machine.shape hconfig)⟩

def cancelled : System Unit where
  shared := { outage.shared with
    clock := 1
    log := .released 2 :: .admitted 2 true :: outage.shared.log }
  tasks := outage.tasks ++ [.done .cancelled]

theorem no_lockout_cancelled :
    ∃ s', Runs (SoloCall hairTrigger.build) cancelled [()] s' ∧
      s'.shared.state.current = .closed := by
  have hreach : Reachable hairTrigger.build cancelled :=
    @Reachable.of_execute _ _ _ 0 _ _ (outageRun ++ [.spawn .call, .act 2 (.check 1), .act 2 .load,
      .act 2 (.exchange false), .act 2 (.finish .dropped), .act 2 .release]) rfl rfl
  obtain ⟨hclosed, hruns⟩ := no_lockout hairTrigger hreach (by decide) (by decide) [()] rfl
  obtain ⟨s', hrun⟩ := hruns rfl
  exact ⟨s', hrun, (hclosed s' hrun).2⟩

end System

end Breaker
