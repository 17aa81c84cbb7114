import Breaker.Foundation.Simulation
import Breaker.Tasks.System
import Mathlib.Algebra.Order.BigOperators.Group.List

/-!
# Progress of every task

The loop of `acquire` has no bound of its own, and the write lock waits for the
readers.  Yet an exchange fails only when another task has moved the counter in
the meantime, and a call moves it twice at most; so the steps of a run are
bounded by a number of the tasks alone, but for the spurious failures that the
weak exchange is allowed.  Nothing waits for an operation either: as long as
some task is neither done nor awaiting its operation, some such task can go on.
-/

namespace Breaker

open Foundation

universe u

variable {arith : RateArithmetic} {ε : Type u}

namespace Phase

def remaining : Phase ε → Nat
  | idle => 7
  | loading => 6
  | acquiring _ => 5
  | running _ | forcing _ => 4
  | recording .. | forced .. => 3
  | announcing .. => 2
  | leaving .. => 1
  | done _ => 0

/-- How often the task may still move the counter of permits. -/
def moves : Phase ε → Nat
  | idle | loading | acquiring _ => 2
  | running permit | recording permit _ _ | announcing permit _ _ | leaving permit _ =>
      permit.toNat
  | forcing _ | forced .. | done _ => 0

/-- A move of the counter may fail one exchange of each of the `n` tasks. -/
def weight (n : Nat) (phase : Phase ε) : Nat := phase.remaining + n * phase.moves

def stale (permits : Nat) : Phase ε → Bool
  | acquiring current => decide (permits ≠ current)
  | idle | loading | running _ | recording .. | announcing .. | leaving .. | forcing _ | forced .. |
    done _ => false

/-- The task is done, or awaits its operation. -/
def settled : Phase ε → Bool
  | running _ | done _ => true
  | idle | loading | acquiring _ | recording .. | announcing .. | leaving .. | forcing _ |
    forced .. => false

theorem weight_le (n : Nat) (phase : Phase ε) : phase.weight n ≤ 2 * n + 7 := by
  have hguard : ∀ permit : Bool, n * permit.toNat ≤ n := by
    intro permit
    cases permit <;> simp
  cases phase with
  | running permit | recording permit | announcing permit | leaving permit =>
      have := hguard permit
      simp only [weight, remaining, moves]
      omega
  | _ =>
      simp only [weight, remaining, moves]
      omega

theorem stale_start (permits : Nat) (job : Job) : stale permits (start job : Phase ε) = false := by
  cases job <;> rfl

end Phase

namespace System

variable {config : CircuitBreakerConfig arith ε} {s s' : System ε} {i n : Nat}
  {phase phase' : Phase ε}
  {a : TaskAction ε} {shared : Shared}

/-! ## Phases that an act leads to -/

theorem weight_loopHead_le (config : CircuitBreakerConfig arith ε) (n current observed : Nat) :
    (loopHead config current).weight n ≤ (Phase.acquiring observed : Phase ε).weight n := by
  unfold loopHead
  split_ifs <;> simp [Phase.weight, Phase.remaining, Phase.moves]

theorem weight_finish_le (n : Nat) {permit : Bool} {outcome : Outcome ε}
    (h : finish config permit outcome = some phase) :
    phase.weight n + 1 ≤ (Phase.running permit : Phase ε).weight n := by
  obtain ⟨answer, -, ⟨failed, rfl⟩ | rfl⟩ := finish_cases h <;>
    simp only [Phase.weight, Phase.remaining, Phase.moves] <;> omega

theorem weight_afterRecord_le (n : Nat) (permit : Bool) (answer : Answer ε)
    (result : Except Panic (Option (State × State))) :
    (afterRecord permit answer result).weight n ≤ 2 + n * permit.toNat := by
  unfold afterRecord
  split <;> simp [Phase.weight, Phase.remaining, Phase.moves]

theorem weight_afterForce_le (n : Nat) (prev next : State)
    (result : Except Panic (Option (State × State))) :
    (afterForce (ε := ε) prev next result).weight n ≤ 2 := by
  unfold afterForce
  split <;> simp [Phase.weight, Phase.remaining, Phase.moves]

theorem Acts.stale_eq_false (h : Acts config s i phase a shared phase') :
    phase'.stale shared.halfOpenPermits = false := by
  have hhead : (loopHead config s.shared.halfOpenPermits).stale s.shared.halfOpenPermits =
      false := by
    unfold loopHead
    split_ifs <;> simp [Phase.stale]
  cases h with
  | load => exact hhead
  | retry => exact hhead
  | finish hfinish =>
      obtain ⟨answer, -, ⟨failed, rfl⟩ | rfl⟩ := finish_cases hfinish <;> rfl
  | record =>
      unfold afterRecord
      split <;> rfl
  | force =>
      unfold afterForce
      split <;> rfl
  | _ => rfl

theorem Acts.weight_lt (n : Nat) (h : Acts config s i phase a shared phase') :
    (shared.halfOpenPermits = s.shared.halfOpenPermits ∧ phase'.weight n + 1 ≤ phase.weight n) ∨
      phase'.weight n + n + 1 ≤ phase.weight n ∨
      ∃ current, phase = .acquiring current ∧ shared = s.shared ∧
        phase' = loopHead config s.shared.halfOpenPermits := by
  cases h with
  | refuse | inspect | enter | announce | observe =>
      refine .inl ⟨rfl, ?_⟩
      simp only [Phase.weight, Phase.remaining, Phase.moves, Bool.toNat_false]
      omega
  | load =>
      have hhead := weight_loopHead_le config n s.shared.halfOpenPermits 0
      refine .inl ⟨rfl, ?_⟩
      simp only [Phase.weight, Phase.remaining, Phase.moves] at hhead ⊢
      omega
  | acquire =>
      refine .inr (.inl ?_)
      simp only [Phase.weight, Phase.remaining, Phase.moves, Bool.toNat_true]
      omega
  | retry => exact .inr (.inr ⟨_, rfl, rfl, rfl⟩)
  | finish hfinish => exact .inl ⟨rfl, weight_finish_le n hfinish⟩
  | record =>
      refine .inl ⟨rfl, (Nat.succ_le_succ (weight_afterRecord_le n _ _ _)).trans ?_⟩
      simp only [Phase.weight, Phase.remaining, Phase.moves]
      omega
  | @release permit =>
      cases permit with
      | false => exact .inl ⟨rfl, by simp [Phase.weight, Phase.remaining, Phase.moves]⟩
      | true =>
          refine .inr (.inl ?_)
          simp only [Phase.weight, Phase.remaining, Phase.moves, Bool.toNat_true]
          omega
  | force =>
      refine .inl ⟨rfl, (Nat.succ_le_succ (weight_afterForce_le n _ _ _)).trans ?_⟩
      simp [Phase.weight, Phase.remaining, Phase.moves]

/-! ## The measure -/

def workload (n : Nat) (s : System ε) : Nat :=
  (s.tasks.map (Phase.weight n)).sum + s.tasks.countP (Phase.stale s.shared.halfOpenPermits)

/-- The step is a failure of an exchange that finds the value it expects. -/
def spurious (s : System ε) : PoolAction Job (TaskAction ε) → Bool
  | .act i (.exchange true) =>
      match s.tasks[i]? with
      | some (.acquiring current) => decide (s.shared.halfOpenPermits = current)
      | _ => false
  | _ => false

theorem workload_act (hn : s.tasks.length ≤ n) (hphase : s.tasks[i]? = some phase)
    (hact : act config s i phase a = some (shared, phase')) :
    workload n { shared := shared, tasks := s.tasks.set i phase' } + 1 ≤
      workload n s + (spurious s (.act i a)).toNat := by
  have hacts := acts_of_act hact
  have hsum := sum_map_set_add (Phase.weight n) hphase phase'
  have hstale := Pool.countP_set (Phase.stale shared.halfOpenPermits) hphase phase'
  rw [hacts.stale_eq_false, Bool.toNat_false] at hstale
  unfold workload
  dsimp only
  rcases hacts.weight_lt n with ⟨hsame, hlt⟩ | hlt | ⟨current, rfl, rfl, rfl⟩
  · rw [hsame] at hstale ⊢
    omega
  · have hall : s.tasks.countP (Phase.stale shared.halfOpenPermits) ≤ s.tasks.length :=
      List.countP_le_length
    omega
  · have hle := weight_loopHead_le config n s.shared.halfOpenPermits current
    -- The exchange fails because it is stale, or else for no reason.
    have hfails : 1 ≤ ((Phase.acquiring current : Phase ε).stale s.shared.halfOpenPermits).toNat +
        (spurious s (.act i a)).toNat := by
      cases a with
      | exchange weak =>
          by_cases hcurrent : s.shared.halfOpenPermits = current
          · cases weak with
            | true => simp [spurious, hphase, hcurrent]
            | false =>
                simp only [act, hcurrent, and_self, if_true, Option.some.injEq,
                  Prod.mk.injEq] at hact
                have hhead := hact.2
                unfold loopHead at hhead
                split_ifs at hhead
          · simp [Phase.stale, hcurrent]
      | _ => cases hact
    omega

theorem workload_spawn_le (n : Nat) (s : System ε) (job : Job) :
    workload n { s with tasks := s.tasks ++ [Phase.start job] } ≤ workload n s + (2 * n + 7) := by
  have hstart := Phase.weight_le n (Phase.start job : Phase ε)
  simp only [workload, List.map_append, List.map_cons, List.map_nil, List.sum_append,
    List.sum_cons, List.sum_nil, List.countP_append, List.countP_singleton, Phase.stale_start]
  simp
  omega

theorem workload_le (n : Nat) (s : System ε) : workload n s ≤ s.tasks.length * (2 * n + 8) := by
  have hsum : (s.tasks.map (Phase.weight n)).sum ≤ s.tasks.length * (2 * n + 7) := by
    have hle := List.sum_le_card_nsmul (s.tasks.map (Phase.weight n)) (2 * n + 7) (by
      intro w hmem
      obtain ⟨phase, -, rfl⟩ := List.mem_map.mp hmem
      exact phase.weight_le n)
    simpa using hle
  have hstale : s.tasks.countP (Phase.stale s.shared.halfOpenPermits) ≤ s.tasks.length :=
    List.countP_le_length
  calc workload n s
      ≤ s.tasks.length * (2 * n + 7) + s.tasks.length := Nat.add_le_add hsum hstale
    _ = s.tasks.length * (2 * n + 8) := rfl

/-! ## Bounded work -/

/-- What is left to do when `n` tasks have been started, with those still to start. -/
def budget (n : Nat) (s : System ε) : Nat :=
  workload n s + (n - s.tasks.length) * (2 * n + 8)

theorem budget_le (hn : s.tasks.length ≤ n) : budget n s ≤ n * (2 * n + 8) := by
  calc budget n s
      ≤ s.tasks.length * (2 * n + 8) + (n - s.tasks.length) * (2 * n + 8) :=
        Nat.add_le_add_right (workload_le n s) _
    _ = n * (2 * n + 8) := by rw [← Nat.add_mul, Nat.add_sub_cancel' hn]

theorem budget_step (hn : s'.tasks.length ≤ n) {action : PoolAction Job (TaskAction ε)}
    (hstep : Step config s action s') :
    s.tasks.length ≤ n ∧ budget n s' + 1 ≤ budget n s + (spurious s action).toNat := by
  rcases Pool.step_cases hstep with
    ⟨job, rfl, rfl⟩ | ⟨i, a, phase, shared, phase', rfl, hphase, hact, rfl⟩
  · rw [List.length_append, List.length_singleton] at hn
    have hspawn := workload_spawn_le n s job
    have hleft : n - s.tasks.length = n - (s.tasks.length + 1) + 1 := by omega
    refine ⟨by omega, ?_⟩
    simp only [budget, List.length_append, List.length_singleton]
    rw [hleft, Nat.add_mul]
    omega
  · rw [List.length_set] at hn
    have hlt := workload_act hn hphase hact
    refine ⟨hn, ?_⟩
    simp only [budget, List.length_set]
    omega

/--
No livelock.  In any interleaving the loops of `acquire` cost at most two failed
exchanges for every pair of tasks: a run that ends with `n` tasks has at most
`n * (2 * n + 8)` steps, but for the exchanges that fail spuriously.
-/
theorem bounded_work (config : CircuitBreakerConfig arith ε)
    {labels : List (PoolAction Job (TaskAction ε))} (hrun : Runs (Step config) s labels s') :
    labels.length ≤ s'.tasks.length * (2 * s'.tasks.length + 8) +
      countSteps (Pool.step Phase.start (act config)) spurious s labels := by
  have hlength : s.tasks.length ≤ s'.tasks.length ∧
      labels.length + budget s'.tasks.length s' ≤ budget s'.tasks.length s +
        countSteps (Pool.step Phase.start (act config)) spurious s labels :=
    length_le_of_measure (I := fun t => t.tasks.length ≤ s'.tasks.length)
      (fun _ _ _ hn hstep => budget_step hn hstep) hrun le_rfl
  have hbudget := budget_le hlength.1
  omega

theorem bounded_work_probing : (outageRun ++ probeRun).length ≤ 3 * (2 * 3 + 8) +
    countSteps (Pool.step Phase.start (act hairTrigger.build)) spurious
      { shared := ⟨StateMachine.fresh hairTrigger.build (.fromNanos 1), 0, 0, []⟩, tasks := [] }
      (outageRun ++ probeRun) :=
  @bounded_work _ _ _ probing hairTrigger.build _ (runs_of_execute rfl)

/-! ## Nobody waits for an operation -/

/-- The step neither starts a task nor ends an operation. -/
def Unattended : PoolAction Job (TaskAction ε) → Prop
  | .spawn _ | .act _ (.finish _) => False
  | .act .. => True

theorem Step.length_tasks {action : PoolAction Job (TaskAction ε)} (haction : Unattended action)
    (hstep : Step config s action s') : s'.tasks.length = s.tasks.length := by
  rcases step_cases hstep with
    ⟨job, rfl, rfl⟩ | ⟨i, a, phase, shared, phase', rfl, -, -, rfl⟩
  · exact haction.elim
  · exact List.length_set

theorem Step.running {action : PoolAction Job (TaskAction ε)} {permit : Bool}
    (haction : Unattended action) (hstep : Step config s action s')
    (hrunning : s.tasks[i]? = some (.running permit)) :
    s'.tasks[i]? = some (.running permit) := by
  rcases step_cases hstep with
    ⟨job, rfl, rfl⟩ | ⟨j, a, phase, shared, phase', rfl, hphase, hacts, rfl⟩
  · exact haction.elim
  · by_cases hij : j = i
    · subst hij
      rw [hphase, Option.some.injEq] at hrunning
      subst hrunning
      cases hacts
      exact haction.elim
    · rw [List.getElem?_set_ne hij]
      exact hrunning

theorem exists_check (config : CircuitBreakerConfig arith ε) (s : System ε) (i : Nat) :
    ∃ shared phase', act config s i .idle (.check s.shared.clock) = some (shared, phase') := by
  simp only [act, le_refl, if_true]
  split <;> exact ⟨_, _, rfl⟩

theorem exists_act_of_reads (hphase : s.tasks[i]? = some phase) (hreads : phase.reads = true) :
    ∃ a shared phase', act config s i phase a = some (shared, phase') ∧
      Unattended (.act i a) ∧ spurious s (.act i a) = false := by
  cases phase with
  | loading => exact ⟨.load, _, _, rfl, trivial, rfl⟩
  | acquiring current =>
      by_cases hcurrent : s.shared.halfOpenPermits = current
      · exact ⟨.exchange false, _, _, if_pos ⟨hcurrent, rfl⟩, trivial, rfl⟩
      · exact ⟨.exchange false, _, _, if_neg fun h => hcurrent h.1, trivial, rfl⟩
  | _ => cases hreads

theorem exists_act_of_unsettled (hphase : s.tasks[i]? = some phase)
    (hunsettled : phase.settled = false) (hfree : s.tasks.any Phase.reads = false) :
    ∃ a shared phase', act config s i phase a = some (shared, phase') ∧
      Unattended (.act i a) ∧ spurious s (.act i a) = false := by
  have hwrite : CanWrite s ⟨s.shared.clock, s.shared.clock, 0⟩ := ⟨hfree, le_rfl, le_rfl⟩
  have hreads := List.any_eq_false.mp hfree _ (List.mem_of_getElem? hphase)
  cases phase with
  | idle =>
      obtain ⟨shared, phase', hcheck⟩ := exists_check config s i
      exact ⟨_, shared, phase', hcheck, trivial, rfl⟩
  | loading | acquiring => exact absurd rfl hreads
  | recording permit failed answer =>
      exact ⟨.record ⟨s.shared.clock, s.shared.clock, 0⟩, _, _, if_pos hwrite, trivial, rfl⟩
  | announcing permit pair answer => exact ⟨.announce, _, _, rfl, trivial, rfl⟩
  | leaving permit answer => exact ⟨.release, _, _, rfl, trivial, rfl⟩
  | forcing f => exact ⟨.observe s.shared.clock, _, _, if_pos le_rfl, trivial, rfl⟩
  | forced f prev =>
      exact ⟨.force ⟨s.shared.clock, s.shared.clock, 0⟩, _, _, if_pos hwrite, trivial, rfl⟩
  | running | done => cases hunsettled

theorem exists_unattended (config : CircuitBreakerConfig arith ε) (s : System ε)
    (h : ¬ ∀ phase ∈ s.tasks, phase.settled = true) :
    ∃ action s', Unattended action ∧ Step config s action s' ∧ spurious s action = false := by
  have hacts : ∃ i phase a shared phase', s.tasks[i]? = some phase ∧
      act config s i phase a = some (shared, phase') ∧
      Unattended (.act i a) ∧ spurious s (.act i a) = false := by
    cases hfree : s.tasks.any Phase.reads with
    | false =>
        simp only [not_forall, Bool.not_eq_true] at h
        obtain ⟨phase, hmem, hunsettled⟩ := h
        obtain ⟨i, hphase⟩ := List.mem_iff_getElem?.mp hmem
        obtain ⟨a, shared, phase', hact⟩ := exists_act_of_unsettled hphase hunsettled hfree
        exact ⟨i, phase, a, shared, phase', hphase, hact⟩
    | true =>
        obtain ⟨phase, hmem, hreads⟩ := List.any_eq_true.mp hfree
        obtain ⟨i, hphase⟩ := List.mem_iff_getElem?.mp hmem
        obtain ⟨a, shared, phase', hact⟩ := exists_act_of_reads hphase hreads
        exact ⟨i, phase, a, shared, phase', hphase, hact⟩
  obtain ⟨i, phase, a, shared, phase', hphase, hact, hunattended, hspurious⟩ := hacts
  exact ⟨.act i a, _, hunattended, Pool.step_act hphase hact, hspurious⟩

theorem exists_run_settled (config : CircuitBreakerConfig arith ε) (s : System ε) :
    ∃ labels s', Runs (Step config) s labels s' ∧ (∀ action ∈ labels, Unattended action) ∧
      ∀ phase ∈ s'.tasks, phase.settled = true := by
  have hprogress : ∀ t : System ε, t.tasks.length ≤ s.tasks.length →
      ¬ (∀ phase ∈ t.tasks, phase.settled = true) →
      ∃ action t', Unattended action ∧ Step config t action t' ∧
        t'.tasks.length ≤ s.tasks.length ∧
        budget s.tasks.length t' < budget s.tasks.length t := by
    intro t hn hunsettled
    obtain ⟨action, t', haction, hstep, hspurious⟩ := exists_unattended config t hunsettled
    have hlength : t'.tasks.length ≤ s.tasks.length := (Step.length_tasks haction hstep).trans_le hn
    obtain ⟨-, hlt⟩ := budget_step hlength hstep
    rw [hspurious, Bool.toNat_false] at hlt
    exact ⟨action, t', haction, hstep, hlength, hlt⟩
  obtain ⟨labels, s', hrun, hlabels, -, hsettled⟩ := exists_run_of_measure hprogress le_rfl
  exact ⟨labels, s', hrun, hlabels, hsettled⟩

/--
A hung operation blocks nobody.  While no operation ends, the tasks whose
operations run stay as they are; the others can be brought to their ends, or to
the await of an operation of their own, whatever they have done before; and no
schedule gets stuck short of that.
-/
theorem operations_block_nobody (config : CircuitBreakerConfig arith ε)
    {labels : List (PoolAction Job (TaskAction ε))} (hrun : Runs (Step config) s labels s')
    (hlabels : ∀ action ∈ labels, Unattended action) :
    (∀ (i : Nat) (permit : Bool), s.tasks[i]? = some (.running permit) →
      s'.tasks[i]? = some (.running permit)) ∧
    ((∀ action t, Unattended action → Step config s' action t → spurious s' action = true) →
      ∀ phase ∈ s'.tasks, phase.settled = true) ∧
    ∃ rest t, Runs (Step config) s' rest t ∧ (∀ action ∈ rest, Unattended action) ∧
      ∀ phase ∈ t.tasks, phase.settled = true := by
  refine ⟨fun i permit hrunning => ?_, fun hstuck => ?_, exists_run_settled config s'⟩
  · apply hrun.invariant (I := fun t => t.tasks[i]? = some (.running permit)) hrunning
    exact fun t action t' hmem h hstep => Step.running (hlabels action hmem) hstep h
  · by_contra hunsettled
    obtain ⟨action, t, haction, hstep, hspurious⟩ := exists_unattended config s' hunsettled
    rw [hstuck action t haction hstep] at hspurious
    cases hspurious

theorem operations_block_nobody_probing :
    ∃ rest t, Runs (Step hairTrigger.build) probing rest t ∧
      (∀ action ∈ rest, Unattended action) ∧ ∀ phase ∈ t.tasks, phase.settled = true := by
  obtain ⟨-, -, hsettled⟩ := operations_block_nobody hairTrigger.build (.refl probing) (by simp)
  exact hsettled

end System

end Breaker
