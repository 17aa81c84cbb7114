import Breaker.Config.Doubles
import Breaker.State.Progression

/-!
# The waits of an outage

Every wait that a machine stores is one of its strategy.  With a bound that a
double reads back exactly, no stored wait is longer than the bound, none is
longer than the wait of its attempt without jitter, and from the first entry into
`Open` of an outage to the end of that outage none is shorter than the one before.
-/

namespace Breaker

open Foundation

universe u

variable {arith : RateArithmetic} {ε : Type u}

namespace StateMachine

variable {config : CircuitBreakerConfig arith ε} {s start : StateMachine}

variable (config) in
def StoresWait (s : StateMachine) : Prop :=
  ∃ attempt draw, config.backoff.waitFor binary64 attempt draw = some s.waitDuration

theorem StoresWait.step (hcomputes : ∀ attempt, config.backoff.Computes attempt)
    (h : s.StoresWait config) (input : Op × Tick) :
    (s.apply config input).1.StoresWait config := by
  have hstep : StepsBackoff config s input.2 (s.apply config input) := stepsBackoff_apply s input
  cases hstep with
  | entered _ _ _ hstored =>
      obtain ⟨wait, hwait⟩ := Option.isSome_iff_exists.mp
        ((nextWait_isSome_iff config s input.2).mpr (hcomputes _))
      refine ⟨saturatingSucc s.openAttempts, input.2.draw, ?_⟩
      rw [hstored wait hwait]
      exact hwait
  | recovered _ _ _ hkept => rwa [StoresWait, hkept]
  | kept _ _ _ hkept => rwa [StoresWait, hkept]

theorem storesWait_run {draw : Draw} (hnew : new config draw = some start)
    (hcomputes : ∀ attempt, config.backoff.Computes attempt) (inputs : List (Op × Tick)) :
    (runFrom (apply config) start inputs).StoresWait config := by
  refine runFrom_invariant ?_ fun s input _ h => h.step hcomputes input
  obtain ⟨wait, hwait, rfl⟩ := new_eq hnew
  exact ⟨1, draw, hwait⟩

theorem computes_new {draw : Draw} (hnew : new config draw = some start)
    (hbound : config.backoff.BoundReads) (attempt : Nat) : config.backoff.Computes attempt := by
  obtain ⟨wait, hwait, -⟩ := new_eq hnew
  exact BackoffStrategy.computes_of_boundReads hbound (Option.isSome_of_eq_some hwait) attempt

theorem waitDuration_le_longest {draw : Draw} (hnew : new config draw = some start)
    (hbound : config.backoff.BoundReads) (inputs : List (Op × Tick)) :
    (runFrom (apply config) start inputs).waitDuration.nanos ≤ config.backoff.longest.nanos := by
  obtain ⟨attempt, draw', hwait⟩ := storesWait_run hnew (computes_new hnew hbound) inputs
  obtain ⟨base, hbase, hle, -⟩ := BackoffStrategy.waitFor_le_withoutJitter hbound hwait 0
  exact hle.trans (BackoffStrategy.withoutJitter_le_longest hbound hbase)

theorem openAttempts_le_run {inputs : List (Op × Tick)}
    (hattempts : s.openAttempts < 2 ^ 32)
    (houtage : ∀ result ∈ results config s inputs, entersClosed result = false) :
    s.openAttempts ≤ (runFrom (apply config) s inputs).openAttempts := by
  induction inputs generalizing s with
  | nil => exact le_rfl
  | cons input inputs ih =>
      have hhead : entersClosed (s.apply config input).2 = false := houtage _ (by simp [results])
      have hstep : StepsBackoff config s input.2 (s.apply config input) :=
        stepsBackoff_apply s input
      have hgrows : s.openAttempts ≤ (s.apply config input).1.openAttempts ∧
          (s.apply config input).1.openAttempts < 2 ^ 32 := by
        cases hstep with
        | entered _ _ hcount _ =>
            rw [hcount]
            unfold saturatingSucc
            omega
        | recovered _ hclosed => simp [hhead] at hclosed
        | kept _ _ hcount _ => omega
      refine hgrows.1.trans (ih hgrows.2 fun result hresult => houtage result ?_)
      simp only [results, trace_cons, List.map_cons, List.mem_cons]
      exact .inr hresult

variable (config) in
/-- What a maintainer may assume of the wait that a state has stored. -/
structure WaitsInOrder (s : StateMachine) : Prop where
  bounded : s.waitDuration.nanos ≤ config.backoff.longest.nanos
  unjittered : 1 ≤ s.openAttempts → ∃ base,
    config.backoff.withoutJitter.waitFor binary64 s.openAttempts 0 = some base ∧
      s.waitDuration.nanos ≤ base.nanos ∧ (config.backoff.NoJitter → s.waitDuration = base)
  growing : 1 ≤ s.openAttempts → config.backoff.NoJitter → config.backoff.FactorGrows →
    ∀ more, (∀ result ∈ results config s more, entersClosed result = false) →
      s.waitDuration.nanos ≤ (runFrom (apply config) s more).waitDuration.nanos

theorem unjittered_run {draw : Draw} (hnew : new config draw = some start)
    (hbound : config.backoff.BoundReads) (hcomputes : ∀ attempt, config.backoff.Computes attempt)
    {inputs : List (Op × Tick)} (hrun : runFrom (apply config) start inputs = s)
    (hpos : 1 ≤ s.openAttempts) : ∃ base,
      config.backoff.withoutJitter.waitFor binary64 s.openAttempts 0 = some base ∧
        s.waitDuration.nanos ≤ base.nanos ∧
        (config.backoff.NoJitter → s.waitDuration = base) := by
  subst hrun
  have hprogress := progresses_run hnew inputs
  have hentries : 1 ≤ entries (results config start inputs) := by
    have hattempts := hprogress.attempts
    omega
  obtain ⟨draw', hwait⟩ := (hprogress.wait hentries).mpr (hcomputes _)
  exact BackoffStrategy.waitFor_le_withoutJitter hbound hwait 0

/--
No stored wait is longer than the bound of the strategy.  In an outage it is at
most the wait of its attempt without jitter, and while the outage lasts it never
becomes shorter where the factor is at least one and there is no jitter.
-/
theorem outage_waits (b : CircuitBreakerConfigBuilder arith ε) (hbound : b.build.backoff.BoundReads)
    {draw : Draw} {start : StateMachine} (hnew : new b.build draw = some start)
    (inputs : List (Op × Tick)) :
    WaitsInOrder b.build (runFrom (apply b.build) start inputs) := by
  have hcomputes := computes_new hnew hbound
  refine ⟨?_, unjittered_run hnew hbound hcomputes rfl, fun hpos hnone hgrows more hmore => ?_⟩
  · exact waitDuration_le_longest hnew hbound inputs
  · have hattempts : (runFrom (apply b.build) start inputs).openAttempts < 2 ^ 32 := by
      rw [(progresses_run hnew inputs).attempts]
      omega
    have hlater := openAttempts_le_run hattempts hmore
    obtain ⟨v, hv, -, heq⟩ := unjittered_run hnew hbound hcomputes rfl hpos
    obtain ⟨w, hw, -, heq'⟩ :=
      unjittered_run hnew hbound hcomputes (runFrom_append ..) (hpos.trans hlater)
    rw [heq hnone, heq' hnone]
    exact BackoffStrategy.withoutJitter_le_later hgrows hlater hv hw

def doublingWait : CircuitBreakerConfigBuilder .single Unit :=
  hairTrigger.setBackoff (.exponential (.fromSecs 1) (.fromSecs 60) (.finite 2))

theorem outage_waits_doublingWait : ∃ start, new doublingWait.build 0 = some start ∧
    WaitsInOrder doublingWait.build (runFrom (apply doublingWait.build) start doubleTrip) := by
  have hbound : doublingWait.build.backoff.BoundReads := by
    change (Duration.fromSecs 60).secs ≤ 2 ^ 23
    rw [fromSecs_secs]
    decide
  have hnew : (new doublingWait.build 0).isSome := by decide +kernel
  obtain ⟨start, hstart⟩ := Option.isSome_iff_exists.mp hnew
  exact ⟨start, hstart, outage_waits doublingWait hbound hstart doubleTrip⟩

end StateMachine

end Breaker
