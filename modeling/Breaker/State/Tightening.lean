import Breaker.State.TripCheck
import Breaker.State.Unwinding

/-!
# Tightening a configuration

Two machines over windows of one size record the same outcomes.  As long as both
are `Closed` their windows and streaks are the same, so that the thresholds alone
decide which of them trips first.  A rate threshold of zero is the loosest of
all, as it disables the rule.
-/

namespace Breaker

open Foundation

universe u

variable {arith : RateArithmetic} {ε : Type u}

/-- `a` is at least as strict as `b`, over the same window. -/
structure CircuitBreakerConfig.Tightens (a b : CircuitBreakerConfig arith ε) : Prop where
  window : a.slidingWindowSize = b.slidingWindowSize
  consecutive : a.consecutiveFailures ≤ b.consecutiveFailures
  minimum : a.minimumCalls ≤ b.minimumCalls
  /-- The rate rule of `b` is disabled, or that of `a` is enabled and asks for no more. -/
  rate : FloatValue.lt (.finite 0) b.failureRateThreshold = false ∨
    FloatValue.lt (.finite 0) a.failureRateThreshold = true ∧
      FloatValue.le a.failureRateThreshold b.failureRateThreshold = true

namespace StateMachine

def OpensAt (steps : List (StateMachine × Except Panic (Option (State × State)))) (j : Nat) :
    Prop :=
  ∃ prev, steps[j]?.map Prod.snd = some (.ok (some (prev, .opened)))

/-- Both circuits are `Closed`, with the same window and the same streak. -/
structure Level (s t : StateMachine) : Prop where
  left : s.current = .closed
  right : t.current = .closed
  window : s.window = t.window
  streak : s.failureCount = t.failureCount

variable {a b : CircuitBreakerConfig arith ε} {s t : StateMachine}

/-! ## One outcome -/

theorem Level.rateTrips (htight : a.Tightens b) (h : Level s t)
    (htrip : t.rateTrips b = true) : s.rateTrips a = true := by
  simp only [StateMachine.rateTrips, Bool.and_eq_true, decide_eq_true_eq] at htrip ⊢
  obtain ⟨⟨henabled, hfilled⟩, hrate⟩ := htrip
  rw [h.window]
  rcases htight.rate with hdisabled | ⟨hpos, hle⟩
  · rw [hdisabled] at henabled
    cases henabled
  · exact ⟨⟨hpos, htight.minimum.trans hfilled⟩, FloatValue.le_trans hle hrate⟩

theorem Level.shouldTrip (htight : a.Tightens b) (h : Level s t)
    (htrip : t.shouldTrip b = true) : s.shouldTrip a = true := by
  unfold StateMachine.shouldTrip at htrip ⊢
  split_ifs with hstreak
  · rfl
  · have hbelow : ¬ b.consecutiveFailures ≤ t.failureCount := by
      have := htight.consecutive
      rw [h.streak] at hstreak
      omega
    rw [if_neg hbelow] at htrip
    exact h.rateTrips htight htrip

theorem Level.succeeded (h : Level s t) :
    Level s.countSuccess.succeeded t.countSuccess.succeeded where
  left := h.left
  right := h.right
  window := congrArg (Window.record · false) h.window
  streak := rfl

theorem Level.failed (h : Level s t) : Level s.countFailure.failed t.countFailure.failed where
  left := h.left
  right := h.right
  window := congrArg (Window.record · true) h.window
  streak := congrArg (· + 1) h.streak

theorem opensAt_trip (hclosed : s.current = .closed) (hattempts : s.openAttempts = 0)
    (hwait : a.backoff.Computes 1) (htrip : s.countFailure.failed.shouldTrip a = true)
    (tick : Tick) (inputs : List (Bool × Tick)) :
    OpensAt (trace (record a) s ((true, tick) :: inputs)) 0 := by
  have hnext : (s.countFailure.failed.nextWait a tick).isSome := by
    rw [nextWait_isSome_iff]
    have hfirst : saturatingSucc s.countFailure.failed.openAttempts = 1 := by
      change saturatingSucc s.openAttempts = 1
      rw [hattempts]
      rfl
    rwa [hfirst]
  obtain ⟨wait, heq⟩ := transitionFrom_opened a tick s.countFailure.failed .closed
  rw [(tripReport_eq_ok_iff a tick .closed).mpr hnext] at heq
  refine ⟨.closed, ?_⟩
  have hstep : record a s (true, tick) = _ := recordFailure_closed_trip hclosed htrip tick
  rw [trace_cons, List.getElem?_cons_zero, hstep, heq]
  rfl

/-! ## The run -/

theorem Level.opens (htight : a.Tightens b) (hwait : a.backoff.Computes 1) (h : Level s t)
    (hattempts : s.openAttempts = 0) {inputs inputs' : List (Bool × Tick)}
    (hsame : inputs.map Prod.fst = inputs'.map Prod.fst) {j : Nat}
    (hopens : OpensAt (trace (record b) t inputs') j) :
    ∃ i ≤ j, OpensAt (trace (record a) s inputs) i ∧
      ∀ k ≤ i, Level (runFrom (record a) s (inputs.take k))
        (runFrom (record b) t (inputs'.take k)) := by
  induction inputs' generalizing inputs s t j with
  | nil =>
      obtain ⟨_, hstep⟩ := hopens
      cases hstep
  | cons input' inputs' ih =>
      obtain ⟨input, inputs, rfl, hinput, hrest⟩ := List.map_eq_cons_iff.mp hsame
      obtain ⟨failed, tick⟩ := input
      obtain ⟨failed', tick'⟩ := input'
      obtain rfl : failed = failed' := hinput
      have hstay : ∀ s' t', Level s' t' → s'.openAttempts = 0 →
          record a s (failed, tick) = (s', .ok none) →
          record b t (failed, tick') = (t', .ok none) →
          ∃ i ≤ j, OpensAt (trace (record a) s ((failed, tick) :: inputs)) i ∧
            ∀ k ≤ i, Level (runFrom (record a) s (((failed, tick) :: inputs).take k))
              (runFrom (record b) t (((failed, tick') :: inputs').take k)) := by
        intro s' t' hlevel hzero hs ht
        obtain ⟨prev, hstep⟩ := hopens
        rw [trace_cons, ht] at hstep
        cases j with
        | zero => cases hstep
        | succ j =>
            obtain ⟨i, hle, hopen, hbefore⟩ := ih hlevel hzero hrest ⟨prev, hstep⟩
            refine ⟨i + 1, by omega, ?_, fun k hk => ?_⟩
            · rw [trace_cons, hs]
              exact hopen
            · cases k with
              | zero => exact h
              | succ k =>
                  rw [List.take_succ_cons, List.take_succ_cons, runFrom_cons, runFrom_cons, hs, ht]
                  exact hbefore k (by omega)
      cases failed with
      | false =>
          exact hstay _ _ h.succeeded hattempts (recordSuccess_closed h.left tick)
            (recordSuccess_closed h.right tick')
      | true =>
          cases htrip : s.countFailure.failed.shouldTrip a with
          | true =>
              refine ⟨0, Nat.zero_le j, opensAt_trip h.left hattempts hwait htrip tick inputs, ?_⟩
              intro k hk
              obtain rfl := Nat.le_zero.mp hk
              exact h
          | false =>
              have hother : t.countFailure.failed.shouldTrip b = false :=
                Bool.eq_false_iff.mpr fun hb => by
                  rw [h.failed.shouldTrip htight hb] at htrip
                  cases htrip
              exact hstay _ _ h.failed hattempts (recordFailure_closed_stay h.left htrip tick)
                (recordFailure_closed_stay h.right hother tick')

/--
A machine that is at least as strict opens no later than the other, and until
then the two have the same window and the same streak.
-/
theorem tightening (a b : CircuitBreakerConfigBuilder arith ε)
    (htight : a.build.Tightens b.build) {draw draw' : Draw}
    (hs : new a.build draw = some s) (ht : new b.build draw' = some t)
    {inputs inputs' : List (Bool × Tick)}
    (hsame : inputs.map Prod.fst = inputs'.map Prod.fst) {j : Nat}
    (hopens : OpensAt (trace (record b.build) t inputs') j) :
    ∃ i ≤ j, OpensAt (trace (record a.build) s inputs) i ∧
      ∀ k ≤ i, Level (runFrom (record a.build) s (inputs.take k))
        (runFrom (record b.build) t (inputs'.take k)) := by
  have hwait : a.build.backoff.Computes 1 := by
    rw [← new_isSome_iff a.build draw, hs]
    rfl
  obtain ⟨wait, -, rfl⟩ := new_eq hs
  obtain ⟨wait', -, rfl⟩ := new_eq ht
  have hlevel : Level (fresh a.build wait) (fresh b.build wait') :=
    ⟨rfl, rfl, congrArg Window.new htight.window, rfl⟩
  exact hlevel.opens htight hwait rfl hsame hopens

theorem hairTrigger_tightens : hairTrigger.build.Tightens doubleTrigger.build where
  window := rfl
  consecutive := by decide
  minimum := le_rfl
  rate := .inr (by decide +kernel)

def twoFailures (later : Nat) : List (Bool × Tick) :=
  [(true, ⟨0, 0, 0⟩), (true, ⟨later, later, 0⟩)]

theorem tightening_doubleTrigger :
    ∃ s t, new hairTrigger.build 0 = some s ∧ new doubleTrigger.build 0 = some t ∧
      ∃ i ≤ 1, OpensAt (trace (record hairTrigger.build) s (twoFailures 1)) i ∧
        ∀ k ≤ i, Level
          (runFrom (record hairTrigger.build) s ((twoFailures 1).take k))
          (runFrom (record doubleTrigger.build) t ((twoFailures 5).take k)) := by
  refine ⟨_, _, rfl, rfl, @tightening _ _ _ _ hairTrigger doubleTrigger hairTrigger_tightens 0 0
    rfl rfl (twoFailures 1) (twoFailures 5) rfl 1 ⟨.closed, ?_⟩⟩
  decide +kernel

end StateMachine

end Breaker
