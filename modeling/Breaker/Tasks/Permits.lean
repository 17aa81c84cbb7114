import Breaker.Config.Builder
import Breaker.Tasks.System

/-!
# The permit protocol

The counter of half-open permits is an atomic outside the lock.  It is taken by
a compare-exchange whose expected value was checked against the limit one step
before, and given back by the drop of a guard, in whatever episode that happens.
`Permits` is the invariant that every atomic step keeps: the counter is the
number of live guards, and no task waits to exchange a value at the limit.
-/

namespace Breaker

open Foundation

universe u

variable {arith : RateArithmetic} {ε : Type u}

namespace System

variable {config : CircuitBreakerConfig arith ε}

/-! ## Guards and phases -/

@[simp] theorem loopHead_holdsPermit (current : Nat) :
    (loopHead config current).holdsPermit = false := by
  unfold loopHead
  split_ifs <;> rfl

@[simp] theorem afterRecord_holdsPermit (permit : Bool) (answer : Answer ε)
    (result : Except Panic (Option (State × State))) :
    (afterRecord permit answer result).holdsPermit = permit := by
  unfold afterRecord
  split <;> rfl

@[simp] theorem afterForce_holdsPermit (prev next : State)
    (result : Except Panic (Option (State × State))) :
    (afterForce (ε := ε) prev next result).holdsPermit = false := by
  unfold afterForce
  split <;> rfl

@[simp] theorem start_holdsPermit (job : Job) :
    (Phase.start (ε := ε) job).holdsPermit = false := by
  cases job <;> rfl

theorem finish_holdsPermit {permit : Bool} {outcome : Outcome ε} {phase : Phase ε}
    (h : finish config permit outcome = some phase) : phase.holdsPermit = permit := by
  obtain ⟨answer, -, ⟨failed, rfl⟩ | rfl⟩ := finish_cases h <;> rfl

def Observed (config : CircuitBreakerConfig arith ε) (phase : Phase ε) : Prop :=
  ∀ current, phase = .acquiring current → current < config.halfOpenMaxCalls

theorem observed_loopHead (current : Nat) : Observed config (loopHead config current) := by
  intro value heq
  unfold loopHead at heq
  split_ifs at heq with hfull
  cases heq
  exact not_le.mp hfull

/-! ## The invariant -/

structure Permits (config : CircuitBreakerConfig arith ε) (s : System ε) : Prop where
  count : s.shared.halfOpenPermits = s.tasks.countP Phase.holdsPermit
  le_max : s.shared.halfOpenPermits ≤ config.halfOpenMaxCalls
  observed : ∀ phase ∈ s.tasks, Observed config phase

variable {s s' : System ε}

theorem permits_new {draw : Draw} (h : new config draw = some s) : Permits config s := by
  obtain ⟨state, -, rfl⟩ := Option.map_eq_some_iff.mp h
  exact ⟨rfl, Nat.zero_le _, by simp⟩

theorem Permits.pos (h : Permits config s) {i : Nat} {phase : Phase ε}
    (hphase : s.tasks[i]? = some phase) (hholds : phase.holdsPermit = true) :
    0 < s.shared.halfOpenPermits := by
  rw [h.count, List.countP_pos_iff]
  exact ⟨phase, List.mem_of_getElem? hphase, hholds⟩

theorem Permits.acts (h : Permits config s) {i : Nat} {phase phase' : Phase ε}
    {a : TaskAction ε} {shared : Shared} (hphase : s.tasks[i]? = some phase)
    (hacts : Acts config s i phase a shared phase') :
    shared.halfOpenPermits + phase.holdsPermit.toNat =
        s.shared.halfOpenPermits + phase'.holdsPermit.toNat ∧
      shared.halfOpenPermits ≤ config.halfOpenMaxCalls := by
  have hle := h.le_max
  cases hacts with
  | refuse => exact ⟨rfl, hle⟩
  | inspect => exact ⟨rfl, hle⟩
  | enter => exact ⟨rfl, hle⟩
  | load => exact ⟨by rw [loopHead_holdsPermit]; rfl, hle⟩
  | acquire hcurrent =>
      have hlt := h.observed _ (List.mem_of_getElem? hphase) _ rfl
      exact ⟨by simp [hcurrent, Phase.holdsPermit], hlt⟩
  | retry => exact ⟨by rw [loopHead_holdsPermit]; rfl, hle⟩
  | finish hfinish => exact ⟨by rw [finish_holdsPermit hfinish]; rfl, hle⟩
  | record => exact ⟨by rw [afterRecord_holdsPermit]; rfl, hle⟩
  | announce => exact ⟨rfl, hle⟩
  | @release permit =>
      cases permit with
      | false => exact ⟨rfl, hle⟩
      | true =>
          have hpos := h.pos hphase rfl
          simp only [drop, ↓reduceIte, fetchSub, hpos.ne', Phase.holdsPermit, Bool.toNat_true,
            Bool.toNat_false]
          omega
  | observe => exact ⟨rfl, hle⟩
  | force => exact ⟨by rw [afterForce_holdsPermit]; rfl, hle⟩

theorem Acts.observed {i : Nat} {phase phase' : Phase ε} {a : TaskAction ε} {shared : Shared}
    (hacts : Acts config s i phase a shared phase') : Observed config phase' := by
  cases hacts with
  | load => exact observed_loopHead _
  | retry => exact observed_loopHead _
  | finish hfinish =>
      intro current heq
      obtain ⟨answer, -, ⟨failed, rfl⟩ | rfl⟩ := finish_cases hfinish <;> cases heq
  | record =>
      intro current heq
      unfold afterRecord at heq
      split at heq <;> cases heq
  | force =>
      intro current heq
      unfold afterForce at heq
      split at heq <;> cases heq
  | _ => exact fun current heq => by cases heq

theorem Permits.step (h : Permits config s) {action : PoolAction Job (TaskAction ε)}
    (hstep : Step config s action s') : Permits config s' := by
  rcases step_cases hstep with
    ⟨job, -, rfl⟩ | ⟨i, a, phase, shared, phase', -, hphase, hacts, rfl⟩
  · refine ⟨by simp [h.count], h.le_max, ?_⟩
    intro phase hmem
    rcases List.mem_append.mp hmem with hold | hnew
    · exact h.observed phase hold
    · rw [List.mem_singleton] at hnew
      subst hnew
      cases job <;> exact fun current heq => by cases heq
  · obtain ⟨hcount, hle⟩ := h.acts hphase hacts
    refine ⟨?_, hle, ?_⟩
    · have hset := Pool.countP_set Phase.holdsPermit hphase phase'
      have := h.count
      dsimp only
      omega
    · intro other hmem
      rcases List.mem_or_eq_of_mem_set hmem with hold | rfl
      · exact h.observed other hold
      · exact hacts.observed

theorem Reachable.permits (h : Reachable config s) : Permits config s := by
  obtain ⟨draw, start, hnew, hrun⟩ := h
  exact hrun.invariant (permits_new hnew) fun _ _ _ _ hpermits hstep => hpermits.step hstep

/-! ## Refusals are decided before admission -/

def Admitted (phase : Phase ε) : Prop := ∀ answer ∈ phase.pending, answer.refusal = false

theorem admitted_loopHead (current : Nat) : Admitted (loopHead config current) := by
  unfold loopHead
  split_ifs <;> simp [Admitted, Phase.pending]

theorem admitted_finish {permit : Bool} {outcome : Outcome ε} {phase : Phase ε}
    (h : finish config permit outcome = some phase) : Admitted phase := by
  obtain ⟨answer, hrefusal, ⟨failed, rfl⟩ | rfl⟩ := finish_cases h <;>
    simpa [Admitted, Phase.pending] using hrefusal

theorem admitted_afterRecord {permit : Bool} {answer : Answer ε}
    (h : answer.refusal = false) (result : Except Panic (Option (State × State))) :
    Admitted (afterRecord permit answer result) := by
  have hunwound : (Answer.unwound : Answer ε).refusal = false := rfl
  unfold afterRecord
  split <;> simp [Admitted, Phase.pending, h, hunwound]

theorem admitted_afterForce (prev next : State)
    (result : Except Panic (Option (State × State))) :
    Admitted (afterForce (ε := ε) prev next result) := by
  unfold afterForce
  split <;> simp [Admitted, Phase.pending, Answer.refusal]

theorem Acts.admitted {i : Nat} {phase phase' : Phase ε} {a : TaskAction ε} {shared : Shared}
    (h : Admitted phase) (hacts : Acts config s i phase a shared phase') : Admitted phase' := by
  cases hacts with
  | load => exact admitted_loopHead _
  | retry => exact admitted_loopHead _
  | finish hfinish => exact admitted_finish hfinish
  | record => exact admitted_afterRecord (h _ rfl) _
  | announce => exact fun answer heq => h answer heq
  | force => exact admitted_afterForce _ _ _
  | _ => simp [Admitted, Phase.pending]

theorem Reachable.admitted (h : Reachable config s) : ∀ phase ∈ s.tasks, Admitted phase := by
  refine h.tasks (fun job => ?_) fun _ _ _ _ _ _ hacts hadmitted => hacts.admitted hadmitted
  cases job <;> simp [Admitted, Phase.start, Phase.pending, Answer.refusal]

theorem Permits.rejected (h : Permits config s) (hadmitted : ∀ phase ∈ s.tasks, Admitted phase)
    {action : PoolAction Job (TaskAction ε)} (hstep : Step config s action s') {i : Nat}
    (hrejected : s'.tasks[i]? = some (.done .rejected)) :
    s.tasks[i]? = some (.done .rejected) ∨
      (s.tasks[i]? = some .loading ∨ ∃ current, s.tasks[i]? = some (.acquiring current)) ∧
        s.tasks.countP Phase.holdsPermit = config.halfOpenMaxCalls := by
  rcases step_cases hstep with
    ⟨job, -, rfl⟩ | ⟨j, a, phase, shared, phase', -, hphase, hacts, rfl⟩
  · rcases Pool.getElem?_concat_cases hrejected with hold | ⟨-, hstart⟩
    · exact .inl hold
    · cases job <;> cases hstart
  · rcases Pool.getElem?_set_cases hrejected with ⟨rfl, rfl⟩ | ⟨-, hold⟩
    · right
      rcases hacts.done with ⟨-, hopen⟩ | ⟨hreader, -, hfull⟩ | ⟨permit, rfl⟩
      · cases hopen
      · refine ⟨?_, h.count.symm.trans (le_antisymm h.le_max hfull)⟩
        rcases hreader with rfl | ⟨current, rfl⟩
        · exact .inl hphase
        · exact .inr ⟨current, hphase⟩
      · have hrefusal := hadmitted _ (List.mem_of_getElem? hphase) .rejected rfl
        cases hrefusal
    · exact .inl hold

/--
The permit protocol, at every step of every interleaving: the counter is the
number of live guards and within the limit, no drop makes it wrap, a call is
rejected only while every permit is taken, and nothing leaks.
-/
theorem permit_protocol (config : CircuitBreakerConfig arith ε) {s : System ε}
    (h : Reachable config s) :
    s.shared.halfOpenPermits = s.tasks.countP Phase.holdsPermit ∧
    s.shared.halfOpenPermits ≤ config.halfOpenMaxCalls ∧
    (∀ (i : Nat) (answer : Answer ε), s.tasks[i]? = some (.leaving true answer) →
      0 < s.shared.halfOpenPermits) ∧
    (∀ (action : PoolAction Job (TaskAction ε)) (s' : System ε) (i : Nat),
      Step config s action s' → s'.tasks[i]? = some (.done .rejected) →
      s.tasks[i]? = some (.done .rejected) ∨
        (s.tasks[i]? = some .loading ∨ ∃ current, s.tasks[i]? = some (.acquiring current)) ∧
          s.tasks.countP Phase.holdsPermit = config.halfOpenMaxCalls) ∧
    ((∀ phase ∈ s.tasks, phase.holdsPermit = false) → s.shared.halfOpenPermits = 0) := by
  have hpermits := h.permits
  refine ⟨hpermits.count, hpermits.le_max, fun _ _ hphase => hpermits.pos hphase rfl,
    fun _ _ _ hstep hrejected => hpermits.rejected h.admitted hstep hrejected, fun hnone => ?_⟩
  rw [hpermits.count, List.countP_eq_zero]
  intro phase hmem
  simp [hnone phase hmem]

theorem permit_protocol_probing :
    1 = probing.tasks.countP Phase.holdsPermit ∧ 1 ≤ hairTrigger.build.halfOpenMaxCalls := by
  obtain ⟨hcount, hle, -⟩ := permit_protocol hairTrigger.build probing_reachable
  exact ⟨hcount, hle⟩

end System

end Breaker
