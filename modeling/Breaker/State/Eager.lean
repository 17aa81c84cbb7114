import Breaker.State.Reachable

/-!
# The eager timer

The code upgrades an expired `Open` circuit to `HalfOpen` when it next records
an outcome, and every read recomputes the upgrade in passing.  In the eager
machine of this module a timer applies the upgrade at the end of the wait, and no
operation looks at the clock before it acts on the stored state.  The code
refines it: but for the number of transitions, every observation agrees at every
reading of the clock.
-/

namespace Breaker

open Foundation

universe u

variable {arith : RateArithmetic} {ε : Type u}

inductive Query where
  | read
  | apply (op : Op)

inductive Observation where
  | state (current : State)
  | pair (result : Except Panic (Option (State × State)))

namespace StateMachine

/-! ## Two machines -/

/-- The timer: an `Open` circuit leaves `Open` at the end of its wait. -/
def fire (s : StateMachine) (now : Nat) : StateMachine :=
  match s.current, s.openSince with
  | .opened, some openSince =>
      if openSince + s.waitDuration.nanos ≤ now then s.upgraded else s
  | _, _ => s

variable (config : CircuitBreakerConfig arith ε)

def lazyStep (s : StateMachine) (input : Query × Tick) : StateMachine × Observation :=
  match input.1 with
  | .read => (s, .state (s.currentAt input.2.now))
  | .apply op =>
      let (s, result) := s.apply config (op, input.2)
      (s, .pair result)

def eagerApply (s : StateMachine) (input : Op × Tick) :
    StateMachine × Except Panic (Option (State × State)) :=
  match input.1 with
  | .success => s.countSuccess.settleSuccess config input.2
  | .failure => s.countFailure.settleFailure config input.2
  | .forceOpen => forced s.current .opened (s.forceOpen config input.2)
  | .forceClosed => forced s.current .closed (s.forceClosed config input.2)

def eagerStep (s : StateMachine) (input : Query × Tick) : StateMachine × Observation :=
  let s := s.fire input.2.now
  match input.1 with
  | .read => (s, .state s.current)
  | .apply op =>
      let (s, result) := s.eagerApply config (op, input.2)
      (s, .pair result)

/-- The lazy machine `s` and the eager machine `t` look the same at `now`. -/
structure AgreesAt (now : Nat) (s t : StateMachine) : Prop where
  current : s.currentAt now = (t.fire now).current
  failureCount : s.failureCount = (t.fire now).failureCount
  successCount : s.successCount = (t.fire now).successCount
  openAttempts : s.openAttempts = (t.fire now).openAttempts
  window : s.window = (t.fire now).window
  totalSuccesses : s.totalSuccesses = (t.fire now).totalSuccesses
  totalFailures : s.totalFailures = (t.fire now).totalFailures
  waitDuration : s.waitDuration = (t.fire now).waitDuration

variable {config} {s t : StateMachine} {clock now now' : Nat}

/-! ## The timer and the elapsed test -/

theorem fire_eq_maybeTransition (h : s.OpenedBy now) :
    s.fire now = s.maybeTransitionToHalfOpen now := by
  by_cases hopen : s.current = .opened
  · cases hsince : s.openSince with
    | none => simp [fire, maybeTransitionToHalfOpen, hopen, hsince]
    | some since =>
        have hle : since ≤ now := h since hsince
        have hiff : since + s.waitDuration.nanos ≤ now ↔ s.waitDuration.nanos ≤ now - since := by
          omega
        simp only [fire, maybeTransitionToHalfOpen, hopen, hsince, hiff, ↓reduceIte]
        rfl
  · have hdue : ¬ s.Due now := fun hdue => hopen hdue.1
    rw [maybeTransitionToHalfOpen_of_not_due hdue, fire]
    split
    · contradiction
    · rfl

theorem fire_of_ne_opened (h : s.current ≠ .opened) : s.fire now = s := by
  rw [fire]
  split
  · contradiction
  · rfl

/-! ## Equality but for the number of transitions -/

def uncounted (s : StateMachine) : StateMachine := { s with transitions := 0 }

def SameButTransitions (s t : StateMachine) : Prop := s.uncounted = t.uncounted

def SameResult {α : Type*} (p q : StateMachine × α) : Prop :=
  SameButTransitions p.1 q.1 ∧ p.2 = q.2

theorem SameButTransitions.field {α : Type*} (h : SameButTransitions s t)
    (field : StateMachine → α) (hfield : ∀ s, field s.uncounted = field s) :
    field s = field t := by
  rw [← hfield s, h, hfield]

theorem SameResult.symm {α : Type*} {p q : StateMachine × α} (h : SameResult p q) :
    SameResult q p :=
  ⟨Eq.symm h.1, h.2.symm⟩

theorem SameResult.trans {α : Type*} {p q r : StateMachine × α} (h : SameResult p q)
    (h' : SameResult q r) : SameResult p r :=
  ⟨Eq.trans h.1 h'.1, h.2.trans h'.2⟩

theorem SameButTransitions.congr {α : Type*} {f : StateMachine → StateMachine × α}
    (h : SameButTransitions s t) (hblind : ∀ s, SameResult (f s.uncounted) (f s)) :
    SameResult (f s) (f t) := by
  have hs := hblind s
  rw [h] at hs
  exact hs.symm.trans (hblind t)

theorem maybeTransition_uncounted (s : StateMachine) (now : Nat) :
    SameButTransitions (s.uncounted.maybeTransitionToHalfOpen now)
      (s.maybeTransitionToHalfOpen now) := by
  by_cases hdue : s.Due now
  · have hdue' : s.uncounted.Due now := hdue
    rw [maybeTransitionToHalfOpen_of_due hdue, maybeTransitionToHalfOpen_of_due hdue']
    rfl
  · have hdue' : ¬ s.uncounted.Due now := hdue
    rw [maybeTransitionToHalfOpen_of_not_due hdue, maybeTransitionToHalfOpen_of_not_due hdue']
    rfl

variable (config) in
theorem transition_same (h : s.openAttempts = t.openAttempts) (hwindow : s.window = t.window)
    (hwait : s.waitDuration = t.waitDuration) (hsuccesses : s.totalSuccesses = t.totalSuccesses)
    (hfailures : s.totalFailures = t.totalFailures) (next : State) (tick : Tick) :
    SameResult (s.transition next config tick) (t.transition next config tick) := by
  cases next with
  | closed => simp [SameResult, SameButTransitions, transition, uncounted, *]
  | halfOpen => simp [SameResult, SameButTransitions, transition, uncounted, *]
  | opened =>
      simp only [SameResult, SameButTransitions, transition, h]
      split
      · simp [uncounted, *]
      · simp [uncounted, *]

variable (config) in
theorem SameButTransitions.transition (h : SameButTransitions s t) (next : State) (tick : Tick) :
    SameResult (s.transition next config tick) (t.transition next config tick) :=
  transition_same config (h.field openAttempts fun _ => rfl)
    (h.field StateMachine.window fun _ => rfl) (h.field waitDuration fun _ => rfl)
    (h.field totalSuccesses fun _ => rfl) (h.field totalFailures fun _ => rfl) next tick

theorem transition_maybeTransition (s : StateMachine) (now : Nat) (next : State) (tick : Tick) :
    SameResult (s.transition next config tick)
      ((s.maybeTransitionToHalfOpen now).transition next config tick) := by
  by_cases hdue : s.Due now
  · rw [maybeTransitionToHalfOpen_of_due hdue]
    exact transition_same config (s := s) (t := s.upgraded) rfl rfl rfl rfl rfl next tick
  · rw [maybeTransitionToHalfOpen_of_not_due hdue]
    exact ⟨rfl, rfl⟩

theorem SameResult.forced {p q : StateMachine × Except Panic Unit} (h : SameResult p q)
    (prev next : State) : SameResult (forced prev next p) (forced prev next q) :=
  ⟨h.1, by simp only [StateMachine.forced, h.2]⟩

theorem transitionFrom_uncounted (s : StateMachine) (prev next : State) (tick : Tick) :
    SameResult (s.uncounted.transitionFrom prev next config tick)
      (s.transitionFrom prev next config tick) := by
  obtain ⟨hstate, hresult⟩ :=
    transition_same config (s := s.uncounted) (t := s) rfl rfl rfl rfl rfl next tick
  exact ⟨hstate, by simp only [transitionFrom, hresult]⟩

theorem settleSuccess_uncounted (s : StateMachine) (tick : Tick) :
    SameResult (s.uncounted.settleSuccess config tick) (s.settleSuccess config tick) := by
  cases hcurrent : s.current with
  | closed =>
      rw [settleSuccess_closed hcurrent, settleSuccess_closed (s := s.uncounted) hcurrent]
      exact ⟨rfl, rfl⟩
  | opened =>
      rw [settleSuccess_opened hcurrent, settleSuccess_opened (s := s.uncounted) hcurrent]
      exact ⟨rfl, rfl⟩
  | halfOpen =>
      by_cases hlt : s.successCount + 1 < config.successThreshold
      · rw [settleSuccess_halfOpen_lt hcurrent hlt,
          settleSuccess_halfOpen_lt (s := s.uncounted) hcurrent hlt]
        exact ⟨rfl, rfl⟩
      · rw [settleSuccess_halfOpen_ge hcurrent (not_lt.mp hlt),
          settleSuccess_halfOpen_ge (s := s.uncounted) hcurrent (not_lt.mp hlt)]
        exact ⟨rfl, rfl⟩

theorem settleFailure_uncounted (s : StateMachine) (tick : Tick) :
    SameResult (s.uncounted.settleFailure config tick) (s.settleFailure config tick) := by
  cases hcurrent : s.current with
  | opened =>
      rw [settleFailure_opened hcurrent, settleFailure_opened (s := s.uncounted) hcurrent]
      exact ⟨rfl, rfl⟩
  | halfOpen =>
      rw [settleFailure_halfOpen hcurrent, settleFailure_halfOpen (s := s.uncounted) hcurrent]
      exact transitionFrom_uncounted s _ _ tick
  | closed =>
      cases htrip : s.failed.shouldTrip config with
      | false =>
          rw [settleFailure_closed_stay hcurrent htrip,
            settleFailure_closed_stay (s := s.uncounted) hcurrent htrip]
          exact ⟨rfl, rfl⟩
      | true =>
          rw [settleFailure_closed_trip hcurrent htrip,
            settleFailure_closed_trip (s := s.uncounted) hcurrent htrip]
          exact transitionFrom_uncounted s.failed _ _ tick

/-! ## The simulation -/

/--
The eager machine `t` simulates the lazy machine `s` at `clock`: they are the
same, or the timer has fired and the lazy upgrade is due.
-/
structure Simulates (clock : Nat) (s t : StateMachine) : Prop where
  openedBy : s.OpenedBy clock
  same : SameButTransitions s t ∨ s.Due clock ∧ SameButTransitions s.upgraded t

theorem Simulates.mono (h : Simulates clock s t) (hle : clock ≤ now) : Simulates now s t :=
  ⟨h.openedBy.mono hle, h.same.imp_right fun hsame => ⟨hsame.1.mono hle, hsame.2⟩⟩

theorem Simulates.fire (h : Simulates clock s t) (hle : clock ≤ now) :
    SameButTransitions (s.maybeTransitionToHalfOpen now) (t.fire now) := by
  rcases h.same with hsame | ⟨hdue, hsame⟩
  · have hsince : s.openSince = t.openSince := hsame.field openSince fun _ => rfl
    have hopened : t.OpenedBy now := by
      have := h.openedBy.mono hle
      rwa [OpenedBy, hsince] at this
    rw [fire_eq_maybeTransition hopened]
    have hs := maybeTransition_uncounted s now
    rw [hsame] at hs
    exact Eq.trans hs.symm (maybeTransition_uncounted t now)
  · have hcurrent : State.halfOpen = t.current := hsame.field StateMachine.current fun _ => rfl
    rw [maybeTransitionToHalfOpen_of_due (hdue.mono hle), fire_of_ne_opened (by simp [← hcurrent])]
    exact hsame

theorem Simulates.read (h : Simulates clock s t) (hle : clock ≤ now) :
    Simulates now s (t.fire now) := by
  have hfire := h.fire hle
  refine ⟨h.openedBy.mono hle, ?_⟩
  by_cases hdue : s.Due now
  · rw [maybeTransitionToHalfOpen_of_due hdue] at hfire
    exact .inr ⟨hdue, hfire⟩
  · rw [maybeTransitionToHalfOpen_of_not_due hdue] at hfire
    exact .inl hfire

variable (config) in
theorem Simulates.apply {tick : Tick} (h : Simulates clock s t) (hle : clock ≤ tick.now)
    (hstamp : tick.now ≤ tick.stamp) (op : Op) :
    Simulates tick.stamp (s.apply config (op, tick)).1
        ((t.fire tick.now).eagerApply config (op, tick)).1 ∧
      (s.apply config (op, tick)).2 = ((t.fire tick.now).eagerApply config (op, tick)).2 := by
  have hfire := h.fire hle
  have hopened : (s.apply config (op, tick)).1.OpenedBy tick.stamp :=
    (h.openedBy.mono (hle.trans hstamp)).apply op
  have hresult : SameResult (s.apply config (op, tick))
      ((t.fire tick.now).eagerApply config (op, tick)) := by
    -- Behind the timer the two machines differ in the number of transitions only.
    generalize t.fire tick.now = u at hfire
    have hcurrent : s.currentAt tick.now = u.current := by
      rw [currentAt_eq]
      exact hfire.field StateMachine.current fun _ => rfl
    cases op with
    | success =>
        have hrecord := hfire.congr
          (f := fun s => s.countSuccess.settleSuccess config tick)
          fun s => settleSuccess_uncounted s.countSuccess tick
        simpa only [StateMachine.apply, eagerApply, recordSuccess,
          countSuccess_maybeTransition] using hrecord
    | failure =>
        have hrecord := hfire.congr
          (f := fun s => s.countFailure.settleFailure config tick)
          fun s => settleFailure_uncounted s.countFailure tick
        simpa only [StateMachine.apply, eagerApply, recordFailure,
          countFailure_maybeTransition] using hrecord
    | forceOpen =>
        have hforced := (transition_maybeTransition s tick.now .opened tick).trans
          (hfire.transition config .opened tick)
        simpa only [StateMachine.apply, eagerApply, forceOpen, hcurrent] using
          hforced.forced u.current .opened
    | forceClosed =>
        have hforced := (transition_maybeTransition s tick.now .closed tick).trans
          (hfire.transition config .closed tick)
        simpa only [StateMachine.apply, eagerApply, forceClosed, hcurrent] using
          hforced.forced u.current .closed
  exact ⟨⟨hopened, .inl hresult.1⟩, hresult.2⟩

theorem simulates_new {draw : Draw} (h : new config draw = some s) : Simulates 0 s s := by
  obtain ⟨wait, -, rfl⟩ := new_eq h
  exact ⟨openedBy_of_none rfl, .inl rfl⟩

theorem Simulates.run (h : Simulates clock s t) {inputs : List (Query × Tick)}
    (hordered : Tick.OrderedFrom clock (inputs.map Prod.snd))
    (hnow : ∀ input ∈ inputs, input.2.stamp ≤ now) (hclock : clock ≤ now) :
    (trace (lazyStep config) s inputs).map Prod.snd =
        (trace (eagerStep config) t inputs).map Prod.snd ∧
      Simulates now (runFrom (lazyStep config) s inputs)
        (runFrom (eagerStep config) t inputs) := by
  induction inputs generalizing clock s t with
  | nil => exact ⟨rfl, h.mono hclock⟩
  | cons input inputs ih =>
      obtain ⟨query, tick⟩ := input
      obtain ⟨hle, hstamp, hrest⟩ := hordered
      have hhead : (lazyStep config s (query, tick)).2 =
            (eagerStep config t (query, tick)).2 ∧
          Simulates tick.stamp (lazyStep config s (query, tick)).1
            (eagerStep config t (query, tick)).1 := by
        cases query with
        | read =>
            have hcurrent : s.currentAt tick.now = (t.fire tick.now).current := by
              rw [currentAt_eq]
              exact (h.fire hle).field StateMachine.current fun _ => rfl
            exact ⟨congrArg Observation.state hcurrent, (h.read hle).mono hstamp⟩
        | apply op =>
            obtain ⟨hsim, hresult⟩ := h.apply config hle hstamp op
            exact ⟨congrArg Observation.pair hresult, hsim⟩
      have htail := ih hhead.2 hrest (fun input hinput => hnow input (by simp [hinput]))
        (hnow (query, tick) (by simp))
      exact ⟨by simp only [trace_cons, List.map_cons, hhead.1, htail.1], htail.2⟩

theorem Simulates.agreesAt (h : Simulates now s t) (hshape : s.Shape config) :
    AgreesAt now s t := by
  have hfire := h.fire le_rfl
  have hcurrent := currentAt_eq s now
  by_cases hdue : s.Due now
  · rw [maybeTransitionToHalfOpen_of_due hdue] at hfire hcurrent
    obtain ⟨-, hsuccess, hfailure⟩ := hshape.opened hdue.1
    exact {
      current := hcurrent.trans (hfire.field StateMachine.current fun _ => rfl)
      failureCount := hfailure.trans (hfire.field StateMachine.failureCount fun _ => rfl)
      successCount := hsuccess.trans (hfire.field StateMachine.successCount fun _ => rfl)
      openAttempts := hfire.field StateMachine.openAttempts fun _ => rfl
      window := hfire.field StateMachine.window fun _ => rfl
      totalSuccesses := hfire.field StateMachine.totalSuccesses fun _ => rfl
      totalFailures := hfire.field StateMachine.totalFailures fun _ => rfl
      waitDuration := hfire.field StateMachine.waitDuration fun _ => rfl }
  · rw [maybeTransitionToHalfOpen_of_not_due hdue] at hfire hcurrent
    exact {
      current := hcurrent.trans (hfire.field StateMachine.current fun _ => rfl)
      failureCount := hfire.field StateMachine.failureCount fun _ => rfl
      successCount := hfire.field StateMachine.successCount fun _ => rfl
      openAttempts := hfire.field StateMachine.openAttempts fun _ => rfl
      window := hfire.field StateMachine.window fun _ => rfl
      totalSuccesses := hfire.field StateMachine.totalSuccesses fun _ => rfl
      totalFailures := hfire.field StateMachine.totalFailures fun _ => rfl
      waitDuration := hfire.field StateMachine.waitDuration fun _ => rfl }

theorem shape_lazyStep (hconfig : config.WellFormed) (h : s.Shape config)
    (input : Query × Tick) : (lazyStep config s input).1.Shape config := by
  obtain ⟨query, tick⟩ := input
  cases query with
  | read => exact h
  | apply op => exact h.apply hconfig (op, tick)

/--
The lazy upgrade refines the eager timer.  The runs start together, and their
operations read the same clock and make the same draws.
-/
theorem lazy_refines_eager (b : CircuitBreakerConfigBuilder arith ε) {draw : Draw}
    (hnew : new b.build draw = some s) {inputs : List (Query × Tick)}
    (hordered : Tick.OrderedFrom 0 (inputs.map Prod.snd))
    (hnow : ∀ input ∈ inputs, input.2.stamp ≤ now) :
    (trace (lazyStep b.build) s inputs).map Prod.snd =
        (trace (eagerStep b.build) s inputs).map Prod.snd ∧
      AgreesAt now (runFrom (lazyStep b.build) s inputs)
        (runFrom (eagerStep b.build) s inputs) := by
  obtain ⟨hanswers, hsim⟩ := (simulates_new hnew).run hordered hnow (Nat.zero_le now)
  have hconfig := build_wellFormed b
  have hshape : (runFrom (lazyStep b.build) s inputs).Shape b.build :=
    runFrom_invariant (shape_new hconfig hnew) fun _ input _ hshape =>
      shape_lazyStep hconfig hshape input
  exact ⟨hanswers, hsim.agreesAt hshape⟩

theorem lazy_refines_eager_hairTrigger :
    (trace (lazyStep hairTrigger.build) (fresh hairTrigger.build (.fromNanos 1))
          [(.apply .failure, ⟨0, 0, 0⟩), (.read, ⟨1, 1, 0⟩)]).map Prod.snd =
        (trace (eagerStep hairTrigger.build) (fresh hairTrigger.build (.fromNanos 1))
          [(.apply .failure, ⟨0, 0, 0⟩), (.read, ⟨1, 1, 0⟩)]).map Prod.snd ∧
      AgreesAt 1
        (runFrom (lazyStep hairTrigger.build) (fresh hairTrigger.build (.fromNanos 1))
          [(.apply .failure, ⟨0, 0, 0⟩), (.read, ⟨1, 1, 0⟩)])
        (runFrom (eagerStep hairTrigger.build) (fresh hairTrigger.build (.fromNanos 1))
          [(.apply .failure, ⟨0, 0, 0⟩), (.read, ⟨1, 1, 0⟩)]) := by
  have hnew : new hairTrigger.build 0 = some (fresh hairTrigger.build (.fromNanos 1)) := rfl
  exact lazy_refines_eager hairTrigger hnew (by simp [Tick.OrderedFrom]) (by simp)

end StateMachine

end Breaker
