import Breaker.Config.Exact
import Breaker.State.Counters
import Breaker.State.Unwinding

/-!
# Backoff progression within an outage

`entries` counts the transitions into `Open` since the last one into `Closed`,
from nothing but the results that a run has returned.  The machine keeps the same
number, saturated, in `openAttempts`, and the wait of that attempt wherever it
can be computed.  A transition that unwinds is an entry too: the state and the
attempt are set, and the wait is the one before.
-/

namespace Breaker

open Foundation

universe u

variable {arith : RateArithmetic} {ε : Type u}

/-- The waits of one outage in exact arithmetic, the attempts saturated as the machine counts. -/
def BackoffStrategy.ProgressesExactly : BackoffStrategy → Prop
  | fixed _ => True
  | exponential initial max factor =>
      FloatValue.le (.finite 1) factor = true → ∀ k later draw, k ≤ later →
        ∃ v w, waitFor .finite (exponential initial max factor) (min k (2 ^ 32 - 1)) draw = some v ∧
          waitFor .finite (exponential initial max factor) (min later (2 ^ 32 - 1)) draw = some w ∧
          v.nanos ≤ w.nanos ∧ w.nanos ≤ max.nanos
  | exponentialJitter initial max factor jitter =>
      jitter ≠ .nan → ∀ k draw, ∃ base w,
        waitFor .finite (exponential initial max factor) (min k (2 ^ 32 - 1)) draw = some base ∧
          waitFor .finite (exponentialJitter initial max factor jitter) (min k (2 ^ 32 - 1)) draw =
            some w ∧
          w.nanos ≤ base.nanos ∧ (jitter.le (.finite 0) = true → w = base)

theorem BackoffStrategy.progressesExactly (strategy : BackoffStrategy) :
    strategy.ProgressesExactly := by
  cases strategy with
  | fixed => trivial
  | exponential initial max factor =>
      intro hfactor k later draw hle
      exact exponentialWait_le initial max hfactor (min_le_min_right _ hle)
  | exponentialJitter initial max factor jitter =>
      intro hjitter k draw
      obtain ⟨base, hbase, -⟩ := exponentialWait_total initial max factor (min k (2 ^ 32 - 1))
      obtain ⟨w, hw⟩ := jitter_exact hjitter hbase draw
      exact ⟨base, w, hbase, hw⟩

namespace StateMachine

/-! ## Entries into `Open` -/

/-- The result is that of a transition into `Open`, which only such a transition unwinds. -/
def entersOpen : Except Panic (Option (State × State)) → Bool
  | .ok (some (_, .opened)) | .error _ => true
  | .ok (some (_, .closed)) | .ok (some (_, .halfOpen)) | .ok none => false

/-- The entries into `Open` since `Closed` was last entered. -/
def entries (results : List (Except Panic (Option (State × State)))) : Nat :=
  (results.rtakeWhile fun result => !entersClosed result).countP entersOpen

theorem entries_concat (results : List (Except Panic (Option (State × State))))
    (result : Except Panic (Option (State × State))) :
    entries (results ++ [result]) =
      if entersClosed result then 0 else entries results + (entersOpen result).toNat := by
  unfold entries
  by_cases hclosed : entersClosed result = true
  · simp [hclosed]
  · rw [List.rtakeWhile_concat_pos _ _ _ (by simpa using hclosed)]
    cases hopen : entersOpen result <;> simp [hclosed, hopen]

variable (config : CircuitBreakerConfig arith ε)

def results (start : StateMachine) (inputs : List (Op × Tick)) :
    List (Except Panic (Option (State × State))) :=
  (trace (apply config) start inputs).map Prod.snd

theorem results_concat (start : StateMachine) (inputs : List (Op × Tick)) (input : Op × Tick) :
    results config start (inputs ++ [input]) =
      results config start inputs ++
        [((runFrom (apply config) start inputs).apply config input).2] := by
  simp [results, trace_concat]

/-! ## What an operation does to the backoff -/

/-- The attempts and the wait that a step leaves behind. -/
inductive StepsBackoff (s : StateMachine) (tick : Tick)
    (step : StateMachine × Except Panic (Option (State × State))) : Prop
  | entered : entersOpen step.2 = true → entersClosed step.2 = false →
      step.1.openAttempts = saturatingSucc s.openAttempts →
      (∀ wait, s.nextWait config tick = some wait → step.1.waitDuration = wait) →
      StepsBackoff s tick step
  | recovered : entersOpen step.2 = false → entersClosed step.2 = true →
      step.1.openAttempts = 0 → step.1.waitDuration = s.waitDuration → StepsBackoff s tick step
  | kept : entersOpen step.2 = false → entersClosed step.2 = false →
      step.1.openAttempts = s.openAttempts → step.1.waitDuration = s.waitDuration →
      StepsBackoff s tick step

variable {config} {s : StateMachine} {tick : Tick}

theorem StepsBackoff.congr {t : StateMachine}
    {step : StateMachine × Except Panic (Option (State × State))}
    (h : StepsBackoff config t tick step) (hattempts : t.openAttempts = s.openAttempts)
    (hwait : t.waitDuration = s.waitDuration) : StepsBackoff config s tick step := by
  have hnext : t.nextWait config tick = s.nextWait config tick := by
    rw [nextWait, nextWait, hattempts]
  cases h with
  | entered hopen hclosed hcount hstored =>
      exact .entered hopen hclosed (hattempts ▸ hcount) (hnext ▸ hstored)
  | recovered hopen hclosed hcount hkept =>
      exact .recovered hopen hclosed hcount (hkept.trans hwait)
  | kept hopen hclosed hcount hkept =>
      exact .kept hopen hclosed (hcount.trans hattempts) (hkept.trans hwait)

theorem stepsBackoff_opened (s : StateMachine) (tick : Tick) (prev : State) :
    StepsBackoff config s tick
      (forced prev .opened (s.transition .opened config tick)) := by
  cases hnext : s.nextWait config tick with
  | none =>
      rw [transition_opened_none config tick hnext]
      exact .entered rfl rfl rfl (by simp [hnext])
  | some wait =>
      rw [transition_opened_some config tick hnext]
      refine .entered rfl rfl rfl fun other hother => ?_
      rw [hnext] at hother
      exact Option.some.inj hother

theorem stepsBackoff_settleSuccess (s : StateMachine) (tick : Tick) :
    StepsBackoff config s tick (s.settleSuccess config tick) := by
  rcases s.settleSuccess_cases config tick with
    ⟨-, heq⟩ | ⟨-, heq⟩ | ⟨-, -, heq⟩ | ⟨-, -, heq⟩
  · rw [heq]
    exact .kept rfl rfl rfl rfl
  · rw [heq]
    exact .kept rfl rfl rfl rfl
  · rw [heq]
    exact .kept rfl rfl rfl rfl
  · rw [heq]
    exact .recovered rfl rfl rfl rfl

theorem stepsBackoff_settleFailure (s : StateMachine) (tick : Tick) :
    StepsBackoff config s tick (s.settleFailure config tick) := by
  cases hcurrent : s.current with
  | opened =>
      rw [settleFailure_opened hcurrent]
      exact .kept rfl rfl rfl rfl
  | halfOpen =>
      rw [settleFailure_halfOpen hcurrent]
      exact stepsBackoff_opened s tick .halfOpen
  | closed =>
      cases htrip : s.failed.shouldTrip config with
      | false =>
          rw [settleFailure_closed_stay hcurrent htrip]
          exact .kept rfl rfl rfl rfl
      | true =>
          rw [settleFailure_closed_trip hcurrent htrip]
          exact (stepsBackoff_opened s.failed tick .closed).congr rfl rfl

theorem maybeTransition_backoff (s : StateMachine) (now : Nat) :
    (s.maybeTransitionToHalfOpen now).openAttempts = s.openAttempts ∧
      (s.maybeTransitionToHalfOpen now).waitDuration = s.waitDuration := by
  by_cases hdue : s.Due now
  · rw [maybeTransitionToHalfOpen_of_due hdue]
    exact ⟨rfl, rfl⟩
  · rw [maybeTransitionToHalfOpen_of_not_due hdue]
    exact ⟨rfl, rfl⟩

theorem stepsBackoff_apply (s : StateMachine) (input : Op × Tick) :
    StepsBackoff config s input.2 (s.apply config input) := by
  obtain ⟨op, tick⟩ := input
  cases op with
  | success =>
      obtain ⟨hattempts, hwait⟩ := s.countSuccess.maybeTransition_backoff tick.now
      exact (stepsBackoff_settleSuccess _ tick).congr hattempts hwait
  | failure =>
      obtain ⟨hattempts, hwait⟩ := s.countFailure.maybeTransition_backoff tick.now
      exact (stepsBackoff_settleFailure _ tick).congr hattempts hwait
  | forceOpen => exact stepsBackoff_opened s tick _
  | forceClosed => exact .recovered rfl rfl rfl rfl

/-! ## The run -/

variable (config) in
/-- The attempts are the entries of the outage, and the last one has stored its wait. -/
structure Progresses (k : Nat) (s : StateMachine) : Prop where
  attempts : s.openAttempts = min k (2 ^ 32 - 1)
  wait : 1 ≤ k → ((∃ draw, config.backoff.waitFor binary64 s.openAttempts draw =
    some s.waitDuration) ↔ config.backoff.Computes s.openAttempts)

theorem saturatingSucc_min (k : Nat) :
    saturatingSucc (min k (2 ^ 32 - 1)) = min (k + 1) (2 ^ 32 - 1) := by
  unfold saturatingSucc
  omega

theorem Progresses.step {k : Nat} (h : Progresses config k s)
    {step : StateMachine × Except Panic (Option (State × State))}
    (hstep : StepsBackoff config s tick step) :
    Progresses config (if entersClosed step.2 then 0 else k + (entersOpen step.2).toNat)
      step.1 := by
  cases hstep with
  | entered hopen hclosed hcount hstored =>
      simp only [hopen, hclosed, Bool.false_eq_true, ↓reduceIte, Bool.toNat_true]
      refine ⟨by rw [hcount, h.attempts, saturatingSucc_min], fun _ => ?_⟩
      rw [hcount]
      constructor
      · rintro ⟨draw, hwait⟩
        exact (config.backoff.waitFor_isSome_iff _ draw).mp (Option.isSome_of_eq_some hwait)
      · intro hcomputes
        obtain ⟨wait, hwait⟩ :=
          Option.isSome_iff_exists.mp ((nextWait_isSome_iff config s tick).mpr hcomputes)
        rw [hstored wait hwait]
        exact ⟨tick.draw, hwait⟩
  | recovered hopen hclosed hcount hkept =>
      simp only [hclosed, ↓reduceIte]
      exact ⟨by simpa using hcount, fun hpos => by omega⟩
  | kept hopen hclosed hcount hkept =>
      simp only [hopen, hclosed, Bool.false_eq_true, ↓reduceIte, Bool.toNat_false, Nat.add_zero]
      exact ⟨hcount.trans h.attempts, by rw [hcount, hkept]; exact h.wait⟩

theorem progresses_new {draw : Draw} (h : new config draw = some s) : Progresses config 0 s := by
  obtain ⟨wait, -, rfl⟩ := new_eq h
  exact ⟨rfl, fun hpos => by omega⟩

theorem progresses_run {draw : Draw} (h : new config draw = some s) (inputs : List (Op × Tick)) :
    Progresses config (entries (results config s inputs))
      (runFrom (StateMachine.apply config) s inputs) := by
  induction inputs using List.reverseRecOn with
  | nil => exact progresses_new h
  | append_singleton inputs input ih =>
      rw [results_concat, entries_concat, runFrom_append]
      exact ih.step (stepsBackoff_apply _ input)

theorem waitDuration_of_not_entersOpen {input : Op × Tick}
    (h : entersOpen (s.apply config input).2 = false) :
    (s.apply config input).1.waitDuration = s.waitDuration := by
  have hstep : StepsBackoff config s input.2 (s.apply config input) := stepsBackoff_apply s input
  cases hstep with
  | entered hopen => simp [h] at hopen
  | recovered _ _ _ hkept => exact hkept
  | kept _ _ _ hkept => exact hkept

/--
The `k`-th entry into `Open` of an outage is attempt `k`, saturated.  The stored
wait is one of that attempt exactly where it can be computed; it stays until the
next entry.
-/
theorem backoff_progression (b : CircuitBreakerConfigBuilder arith ε) {draw : Draw}
    {start : StateMachine} (hnew : new b.build draw = some start) (inputs : List (Op × Tick)) :
    Progresses b.build (entries (results b.build start inputs))
        (runFrom (apply b.build) start inputs) ∧
      (∀ input, entersOpen ((runFrom (apply b.build) start inputs).apply b.build input).2 = false →
        ((runFrom (apply b.build) start inputs).apply b.build input).1.waitDuration =
          (runFrom (apply b.build) start inputs).waitDuration) ∧
      b.build.backoff.ProgressesExactly :=
  ⟨progresses_run hnew inputs, fun _ => waitDuration_of_not_entersOpen,
    b.build.backoff.progressesExactly⟩

def doubleTrip : List (Op × Tick) := [(.forceOpen, ⟨0, 0, 0⟩), (.forceOpen, ⟨0, 0, 0⟩)]

theorem backoff_progression_doubleTrip :
    ∃ start, new hairTrigger.build 0 = some start ∧
      entries (results hairTrigger.build start doubleTrip) = 2 ∧
      Progresses hairTrigger.build (entries (results hairTrigger.build start doubleTrip))
        (runFrom (apply hairTrigger.build) start doubleTrip) ∧
      (∀ input, entersOpen ((runFrom (apply hairTrigger.build) start doubleTrip).apply
          hairTrigger.build input).2 = false →
        ((runFrom (apply hairTrigger.build) start doubleTrip).apply
            hairTrigger.build input).1.waitDuration =
          (runFrom (apply hairTrigger.build) start doubleTrip).waitDuration) ∧
      hairTrigger.build.backoff.ProgressesExactly :=
  ⟨_, rfl, rfl, @backoff_progression _ _ hairTrigger 0 _ rfl doubleTrip⟩

/-- The second entry unwinds and keeps the wait of the first attempt. -/
theorem backoff_progression_overlongWait :
    ¬ ∀ (b : CircuitBreakerConfigBuilder .single Unit) (draw : Draw) (start : StateMachine)
      (inputs : List (Op × Tick)), new b.build draw = some start →
      1 ≤ entries (results b.build start inputs) →
      ∃ draw', b.build.backoff.waitFor binary64
        (runFrom (apply b.build) start inputs).openAttempts draw' =
          some (runFrom (apply b.build) start inputs).waitDuration := by
  intro hlaw
  have hend : (new overlongWait.build 0).map (fun start =>
      (entries (results overlongWait.build start doubleTrip),
        (runFrom (apply overlongWait.build) start doubleTrip).openAttempts)) = some (2, 2) := by
    decide +kernel
  obtain ⟨start, hnew, hvalues⟩ := Option.map_eq_some_iff.mp hend
  rw [Prod.mk.injEq] at hvalues
  obtain ⟨draw, hwait⟩ := hlaw overlongWait 0 start doubleTrip hnew (by omega)
  rw [hvalues.2] at hwait
  have hsecond := BackoffStrategy.waitFor_isSome (Option.isSome_of_eq_some hwait) 0
  exact absurd hsecond (by decide +kernel)

end StateMachine

end Breaker
