import Breaker.Foundation.Circuit
import Breaker.State.Progression
import Breaker.State.Tripping

/-!
# The machine as a circuit

The machine keeps an evicting window, a streak, a count of probes and a lazily
applied upgrade.  The circuit keeps whole histories and consults the policy on
them.  Every operation of the machine reports what the circuit reports, and both
read the same at every reading of the clock.  What can be told from outside about
a configuration is therefore its policy on the histories that leave the circuit
closed, and nothing else.
-/

namespace Breaker

open Foundation

universe u

variable {arith : RateArithmetic} {ε : Type u}

def State.standing : State → Standing
  | closed => .closed
  | opened => .opened
  | halfOpen => .halfOpen

def CircuitBreakerConfig.policy (config : CircuitBreakerConfig arith ε) :
    Policy Bool Nat Duration Draw where
  trips := TripsAt config
  verdict probes :=
    if true ∈ probes then some false
    else if config.successThreshold ≤ probes.length then some true
    else none
  nextAttempt := saturatingSucc
  waitFor := config.backoff.waitFor binary64
  elapsed since wait now := wait.nanos ≤ now - since

namespace StateMachine

def signal : Op × Tick → Signal Bool × Moment Nat Draw
  | (.success, tick) => (.record false, ⟨tick.now, tick.stamp, tick.draw⟩)
  | (.failure, tick) => (.record true, ⟨tick.now, tick.stamp, tick.draw⟩)
  | (.forceOpen, tick) => (.forceOpen, ⟨tick.now, tick.stamp, tick.draw⟩)
  | (.forceClosed, tick) => (.forceClosed, ⟨tick.now, tick.stamp, tick.draw⟩)

def report : Except Panic (Option (State × State)) → Report
  | .ok none => .silent
  | .ok (some (prev, next)) => .moved prev.standing next.standing
  | .error _ => .failed

/-! ## The machine shows the circuit -/

variable (config : CircuitBreakerConfig arith ε)

def Shows (s : StateMachine) : Mode Bool Nat → Prop
  | .closed history => Watching config history s
  | .opened since => s.current = .opened ∧ s.openSince = some since
  | .halfOpen probes =>
      s.current = .halfOpen ∧ s.successCount = probes.length ∧ true ∉ probes

structure Implements (s : StateMachine) (c : Circuit Bool Nat Duration) : Prop where
  attempts : c.attempts = s.openAttempts
  wait : c.wait = s.waitDuration
  mode : Shows config s c.mode

/-- The step of the machine and the step of the circuit, with what they report. -/
def Answers (step : StateMachine × Except Panic (Option (State × State)))
    (step' : Circuit Bool Nat Duration × Report) : Prop :=
  step'.2 = report step.2 ∧ Implements config step.1 step'.1

variable {config} {s : StateMachine} {c : Circuit Bool Nat Duration} {tick : Tick}

theorem Shows.standing {mode : Mode Bool Nat} (h : Shows config s mode) :
    mode.standing = s.current.standing := by
  cases mode with
  | closed history => rw [Watching.current h]; rfl
  | opened since => rw [h.1]; rfl
  | halfOpen probes => rw [h.1]; rfl

theorem implements_new (hconfig : config.WellFormed) {draw : Draw} (h : new config draw = some s) :
    Implements config s (Circuit.fresh s.waitDuration) := by
  refine ⟨?_, rfl, (EntersClosed.constructed h).watching hconfig⟩
  obtain ⟨wait, -, rfl⟩ := new_eq h
  rfl

variable (config) in
theorem elapsed_iff_due {since : Nat} (hopen : s.current = .opened)
    (hsince : s.openSince = some since) (now : Nat) :
    config.policy.elapsed since s.waitDuration now ↔ s.Due now := by
  simp [CircuitBreakerConfig.policy, Due, hopen, hsince]

theorem Implements.ripen (h : Implements config s c) (now : Nat) :
    (c.ripen config.policy now).attempts = (s.maybeTransitionToHalfOpen now).openAttempts ∧
      (c.ripen config.policy now).wait = (s.maybeTransitionToHalfOpen now).waitDuration ∧
      (c.mode.standing ≠ .closed →
        Shows config (s.maybeTransitionToHalfOpen now) (c.ripen config.policy now).mode) ∧
      (c.ripen config.policy now).mode.standing = (s.currentAt now).standing := by
  obtain ⟨hattempts, hwait, hmode⟩ := h
  rw [currentAt_eq]
  unfold Circuit.ripen
  cases hc : c.mode with
  | closed history =>
      rw [hc] at hmode
      have hclosed : s.current = .closed := Watching.current hmode
      rw [maybeTransitionToHalfOpen_of_not_due (not_due_of_closed hclosed now)]
      exact ⟨hattempts, hwait, fun habsurd => absurd rfl habsurd, by rw [hc]; exact hmode.standing⟩
  | opened since =>
      rw [hc] at hmode
      obtain ⟨hopen, hsince⟩ := hmode
      by_cases hdue : s.Due now
      · have helapsed := (elapsed_iff_due config hopen hsince now).mpr hdue
        rw [← hwait] at helapsed
        rw [maybeTransitionToHalfOpen_of_due hdue]
        dsimp only
        rw [if_pos helapsed]
        exact ⟨hattempts, hwait, fun _ => ⟨rfl, rfl, by simp⟩, rfl⟩
      · have helapsed := mt (elapsed_iff_due config hopen hsince now).mp hdue
        rw [← hwait] at helapsed
        rw [maybeTransitionToHalfOpen_of_not_due hdue]
        dsimp only
        rw [if_neg helapsed, hc]
        exact ⟨hattempts, hwait, fun _ => ⟨hopen, hsince⟩, by rw [hopen]; rfl⟩
  | halfOpen probes =>
      rw [hc] at hmode
      have hdue : ¬ s.Due now := fun hdue => by
        have habsurd := hmode.1.symm.trans hdue.1
        cases habsurd
      rw [maybeTransitionToHalfOpen_of_not_due hdue]
      dsimp only
      rw [hc]
      exact ⟨hattempts, hwait, fun _ => hmode, hmode.standing⟩

/-! ## One operation -/

theorem answers_trip (hattempts : c.attempts = s.openAttempts) (hwait : c.wait = s.waitDuration)
    (tick : Tick) (prev : State) :
    Answers config (s.transitionFrom prev .opened config tick)
      (c.trip config.policy ⟨tick.now, tick.stamp, tick.draw⟩ prev.standing) := by
  have hnext : config.policy.waitFor (config.policy.nextAttempt c.attempts) tick.draw =
      s.nextWait config tick := by
    rw [hattempts]
    rfl
  unfold Circuit.trip transitionFrom
  rw [hnext]
  cases hstored : s.nextWait config tick with
  | none =>
      rw [transition_opened_none config tick hstored]
      exact ⟨rfl, congrArg saturatingSucc hattempts, hwait, rfl, rfl⟩
  | some wait =>
      rw [transition_opened_some config tick hstored]
      exact ⟨rfl, congrArg saturatingSucc hattempts, rfl, rfl, rfl⟩

theorem answers_settleSuccess (h : Implements config s c) (hne : c.mode.standing ≠ .closed)
    (hrecovers : (s.settleSuccess config tick).2 = .ok (some (.halfOpen, .closed)) →
      Watching config [] (s.settleSuccess config tick).1) :
    Answers config (s.settleSuccess config tick)
      (c.settle config.policy false ⟨tick.now, tick.stamp, tick.draw⟩) := by
  obtain ⟨hattempts, hwait, hmode⟩ := h
  unfold Circuit.settle
  cases hc : c.mode with
  | closed history =>
      rw [hc] at hne
      exact absurd rfl hne
  | opened since =>
      rw [hc] at hmode
      rw [settleSuccess_opened hmode.1]
      exact ⟨rfl, hattempts, hwait, by rw [hc]; exact hmode⟩
  | halfOpen probes =>
      rw [hc] at hmode
      obtain ⟨hhalf, hcount, hnone⟩ := hmode
      have hnone' : true ∉ probes ++ [false] := by simpa using hnone
      have hlength : (probes ++ [false]).length = s.successCount + 1 := by simp [hcount]
      by_cases hlt : s.successCount + 1 < config.successThreshold
      · have hverdict : config.policy.verdict (probes ++ [false]) = none := by
          simp only [CircuitBreakerConfig.policy, if_neg hnone', hlength, if_neg (not_le.mpr hlt)]
        rw [settleSuccess_halfOpen_lt hhalf hlt]
        dsimp only
        rw [hverdict]
        exact ⟨rfl, hattempts, hwait, hhalf, hlength.symm, hnone'⟩
      · have hge := not_lt.mp hlt
        have hverdict : config.policy.verdict (probes ++ [false]) = some true := by
          simp only [CircuitBreakerConfig.policy, if_neg hnone', hlength, if_pos hge]
        have hstep : s.settleSuccess config tick = _ := settleSuccess_halfOpen_ge hhalf hge
        rw [hstep] at hrecovers ⊢
        dsimp only
        rw [hverdict]
        exact ⟨rfl, rfl, hwait, hrecovers rfl⟩

theorem answers_settleFailure (h : Implements config s c) (hne : c.mode.standing ≠ .closed) :
    Answers config (s.settleFailure config tick)
      (c.settle config.policy true ⟨tick.now, tick.stamp, tick.draw⟩) := by
  obtain ⟨hattempts, hwait, hmode⟩ := h
  unfold Circuit.settle
  cases hc : c.mode with
  | closed history =>
      rw [hc] at hne
      exact absurd rfl hne
  | opened since =>
      rw [hc] at hmode
      rw [settleFailure_opened hmode.1]
      exact ⟨rfl, hattempts, hwait, by rw [hc]; exact hmode⟩
  | halfOpen probes =>
      rw [hc] at hmode
      have hverdict : config.policy.verdict (probes ++ [true]) = some false := by
        simp [CircuitBreakerConfig.policy]
      rw [settleFailure_halfOpen hmode.1]
      dsimp only
      rw [hverdict]
      exact answers_trip hattempts hwait tick .halfOpen

theorem answers_recordSuccess_closed {history : List Bool} (h : Implements config s c)
    (hc : c.mode = .closed history) (tick : Tick) :
    Answers config (s.recordSuccess config tick)
      (c.settle config.policy false ⟨tick.now, tick.stamp, tick.draw⟩) := by
  obtain ⟨hattempts, hwait, hmode⟩ := h
  rw [hc] at hmode
  obtain ⟨-, hwatching⟩ := Watching.recordSuccess hmode tick
  have hstep : s.recordSuccess config tick = (s.countSuccess.succeeded, .ok none) :=
    recordSuccess_closed (Watching.current hmode) tick
  have hstay : ¬ config.policy.trips (history ++ [false]) := not_tripsAt_success config history
  rw [hstep] at hwatching ⊢
  unfold Circuit.settle
  rw [hc]
  dsimp only
  rw [if_neg hstay]
  exact ⟨rfl, hattempts, hwait, hwatching⟩

theorem answers_recordFailure_closed (hconfig : config.WellFormed) {history : List Bool}
    (h : Implements config s c) (hc : c.mode = .closed history) (tick : Tick) :
    Answers config (s.recordFailure config tick)
      (c.settle config.policy true ⟨tick.now, tick.stamp, tick.draw⟩) := by
  obtain ⟨hattempts, hwait, hmode⟩ := h
  rw [hc] at hmode
  have hcurrent : s.current = .closed := Watching.current hmode
  have hcheck := Watching.shouldTrip_iff hconfig hmode
  rw [← Watching.countFailure_failed_shouldTrip] at hcheck
  unfold Circuit.settle
  rw [hc]
  dsimp only
  by_cases htrip : TripsAt config (history ++ [true])
  · have hpolicy : config.policy.trips (history ++ [true]) := htrip
    rw [if_pos hpolicy, recordFailure_closed_trip hcurrent (hcheck.mpr htrip)]
    exact answers_trip (s := s.countFailure.failed) hattempts hwait tick .closed
  · have hpolicy : ¬ config.policy.trips (history ++ [true]) := htrip
    obtain ⟨-, hwatching⟩ := Watching.recordFailure_stay hconfig hmode htrip tick
    have hstep := recordFailure_closed_stay hcurrent
      (Bool.eq_false_iff.mpr (mt hcheck.mp htrip)) tick
    rw [if_neg hpolicy]
    rw [hstep] at hwatching ⊢
    exact ⟨rfl, hattempts, hwait, hwatching⟩

theorem Implements.ripened (h : Implements config s c) (hne : c.mode.standing ≠ .closed)
    {t : StateMachine} (ht : Shows config t c.mode) (hattempts : t.openAttempts = s.openAttempts)
    (hwait : t.waitDuration = s.waitDuration) (now : Nat) :
    Implements config (t.maybeTransitionToHalfOpen now) (c.ripen config.policy now) ∧
      (c.ripen config.policy now).mode.standing ≠ .closed := by
  have hcounted : Implements config t c :=
    ⟨h.attempts.trans hattempts.symm, h.wait.trans hwait.symm, ht⟩
  obtain ⟨hattempts', hwait', hmode, hstanding⟩ := hcounted.ripen now
  refine ⟨⟨hattempts', hwait', hmode hne⟩, fun hclosed => ?_⟩
  rw [hstanding] at hclosed
  have hcurrent : t.currentAt now = .closed := by
    cases hstate : t.currentAt now <;> rw [hstate] at hclosed <;> first | rfl | cases hclosed
  rw [ht.standing, currentAt_closed_iff.mp hcurrent] at hne
  exact hne rfl

theorem Shows.congr {mode : Mode Bool Nat} (h : Shows config s mode)
    (hne : mode.standing ≠ .closed) {t : StateMachine} (hcurrent : t.current = s.current)
    (hsince : t.openSince = s.openSince) (hcount : t.successCount = s.successCount) :
    Shows config t mode := by
  cases mode with
  | closed history => exact absurd rfl hne
  | opened since => exact ⟨hcurrent.trans h.1, hsince.trans h.2⟩
  | halfOpen probes => exact ⟨hcurrent.trans h.1, hcount.trans h.2.1, h.2.2⟩

theorem ripen_of_closed {history : List Bool} (hc : c.mode = .closed history) (now : Nat) :
    c.ripen config.policy now = c := by
  unfold Circuit.ripen
  rw [hc]

theorem Implements.apply (hconfig : config.WellFormed) (hreach : Reachable config s)
    (h : Implements config s c) (input : Op × Tick) :
    Answers config (s.apply config input) (c.step config.policy (signal input)) := by
  obtain ⟨op, tick⟩ := input
  have hreading := (h.ripen tick.now).2.2.2
  cases op with
  | forceOpen =>
      rw [signal, Circuit.step, Circuit.reading, hreading]
      exact answers_trip h.attempts h.wait tick (s.currentAt tick.now)
  | forceClosed =>
      have hwatching : Watching config [] (s.forceClosed config tick).1 :=
        (EntersClosed.reset hreach).watching hconfig
      rw [signal, Circuit.step, Circuit.reading, hreading]
      exact ⟨rfl, rfl, h.wait, hwatching⟩
  | success =>
      rw [signal, Circuit.step]
      by_cases hclosed : c.mode.standing = .closed
      · obtain ⟨history, hc⟩ := Mode.standing_closed_iff.mp hclosed
        rw [ripen_of_closed hc]
        exact answers_recordSuccess_closed h hc tick
      · obtain ⟨himplements, hne⟩ :=
          h.ripened (t := s.countSuccess) hclosed (h.mode.congr hclosed rfl rfl rfl) rfl rfl
            tick.now
        refine answers_settleSuccess himplements hne fun hrecovers => ?_
        exact (EntersClosed.recovery hreach (Prod.ext rfl hrecovers)).watching hconfig
  | failure =>
      rw [signal, Circuit.step]
      by_cases hclosed : c.mode.standing = .closed
      · obtain ⟨history, hc⟩ := Mode.standing_closed_iff.mp hclosed
        rw [ripen_of_closed hc]
        exact answers_recordFailure_closed hconfig h hc tick
      · obtain ⟨himplements, hne⟩ :=
          h.ripened (t := s.countFailure) hclosed (h.mode.congr hclosed rfl rfl rfl) rfl rfl
            tick.now
        exact answers_settleFailure himplements hne

/-! ## Runs -/

theorem Implements.run (hconfig : config.WellFormed) (hreach : Reachable config s)
    (h : Implements config s c) (inputs : List (Op × Tick)) :
    Circuit.reports config.policy c (inputs.map signal) = (results config s inputs).map report ∧
      Implements config (runFrom (StateMachine.apply config) s inputs)
        (runFrom (Circuit.step config.policy) c (inputs.map signal)) := by
  induction inputs generalizing s c with
  | nil => exact ⟨rfl, h⟩
  | cons input inputs ih =>
      obtain ⟨hreport, hnext⟩ := h.apply hconfig hreach input
      obtain ⟨hreports, hrun⟩ := ih (hreach.apply input) hnext
      refine ⟨?_, hrun⟩
      rw [List.map_cons, Circuit.reports, trace_cons, List.map_cons, hreport, results, trace_cons,
        List.map_cons, List.map_cons]
      exact congrArg (report (s.apply config input).2 :: ·) hreports

theorem Implements.reading (h : Implements config s c) (now : Nat) :
    c.reading config.policy now = (s.currentAt now).standing :=
  (h.ripen now).2.2.2

theorem standing_injective : Function.Injective State.standing := by
  intro a b h
  cases a <;> cases b <;> first | rfl | cases h

theorem report_injective : Function.Injective report := by
  intro a b h
  match a, b with
  | .error .durationConversion, .error .durationConversion => rfl
  | .ok none, .ok none => rfl
  | .ok (some (prev, next)), .ok (some (prev', next')) =>
      rw [report, report, Report.moved.injEq] at h
      rw [standing_injective h.1, standing_injective h.2]
  | .error _, .ok none => cases h
  | .error _, .ok (some _) => cases h
  | .ok none, .error _ => cases h
  | .ok (some _), .error _ => cases h
  | .ok none, .ok (some _) => cases h
  | .ok (some _), .ok none => cases h

theorem signal_surjective : Function.Surjective signal := by
  rintro ⟨signal, now, stamp, draw⟩
  cases signal with
  | record outcome =>
      cases outcome with
      | false => exact ⟨(.success, ⟨now, stamp, draw⟩), rfl⟩
      | true => exact ⟨(.failure, ⟨now, stamp, draw⟩), rfl⟩
  | forceOpen => exact ⟨(.forceOpen, ⟨now, stamp, draw⟩), rfl⟩
  | forceClosed => exact ⟨(.forceClosed, ⟨now, stamp, draw⟩), rfl⟩

variable {config' : CircuitBreakerConfig arith ε} {s' : StateMachine}

theorem policy_withTrips (hbackoff : config'.backoff = config.backoff)
    (hsuccess : config'.successThreshold = config.successThreshold) :
    config'.policy = config.policy.withTrips (TripsAt config') := by
  unfold CircuitBreakerConfig.policy Policy.withTrips
  rw [hbackoff, hsuccess]

/-- Nobody who records, forces and reads can tell the two machines apart. -/
def Indistinguishable (config config' : CircuitBreakerConfig arith ε)
    (s s' : StateMachine) : Prop :=
  ∀ inputs, results config' s' inputs = results config s inputs ∧
    ∀ now, (runFrom (StateMachine.apply config') s' inputs).currentAt now =
      (runFrom (StateMachine.apply config) s inputs).currentAt now

theorem indistinguishable_iff_agreeLive (hconfig : config.WellFormed)
    (hconfig' : config'.WellFormed) (hbackoff : config'.backoff = config.backoff)
    (hsuccess : config'.successThreshold = config.successThreshold) {draw : Draw}
    (hnew : new config draw = some s) (hnew' : new config' draw = some s') :
    Indistinguishable config config' s s' ↔
      Circuit.AgreeLive (TripsAt config) (TripsAt config') := by
  have hwait : s'.waitDuration = s.waitDuration := by
    obtain ⟨wait, hinitial, rfl⟩ := new_eq hnew
    obtain ⟨wait', hinitial', rfl⟩ := new_eq hnew'
    rw [hbackoff, hinitial] at hinitial'
    exact (Option.some.inj hinitial').symm
  have hpolicy := policy_withTrips hbackoff hsuccess
  -- Both machines implement one circuit, each under its own policy.
  have hrun := (implements_new hconfig hnew).run hconfig ⟨draw, s, hnew, .refl s⟩
  have hrun' := (implements_new hconfig' hnew').run hconfig' ⟨draw, s', hnew', .refl s'⟩
  rw [hwait, hpolicy] at hrun'
  constructor
  · intro hsame
    refine Circuit.agreeLive_of_reports (p := config.policy)
      (c := Circuit.fresh s.waitDuration) rfl ⟨0, 0, 0⟩ fun signals => ?_
    obtain ⟨inputs, rfl⟩ := List.map_surjective_iff.mpr signal_surjective signals
    rw [(hrun inputs).1, (hrun' inputs).1, (hsame inputs).1]
  · intro hagree inputs
    obtain ⟨hreports, hcircuit⟩ := Circuit.run_withTrips (p := config.policy)
      (c := Circuit.fresh s.waitDuration) hagree
      (fun history heq => by cases heq; exact Circuit.live_nil) (inputs.map signal)
    refine ⟨?_, fun now => standing_injective ?_⟩
    · rw [(hrun inputs).1, (hrun' inputs).1] at hreports
      exact report_injective.list_map hreports
    · have hreading := (hrun' inputs).2.reading now
      rw [hcircuit, hpolicy] at hreading
      rw [← hreading, ← (hrun inputs).2.reading now]
      rfl

/--
Two configurations with the same backoff and success threshold cannot be told
apart from outside exactly when their tripping rules agree on every history that
the first of them leaves closed.
-/
theorem indistinguishable_iff (b b' : CircuitBreakerConfigBuilder arith ε)
    (hbackoff : b'.build.backoff = b.build.backoff)
    (hsuccess : b'.build.successThreshold = b.build.successThreshold) {draw : Draw}
    {s s' : StateMachine} (hnew : new b.build draw = some s) (hnew' : new b'.build draw = some s') :
    Indistinguishable b.build b'.build s s' ↔
      Circuit.AgreeLive (TripsAt b.build) (TripsAt b'.build) :=
  indistinguishable_iff_agreeLive (build_wellFormed b) (build_wellFormed b') hbackoff hsuccess
    hnew hnew'

theorem tripsAt_of_consecutive_one (h : config.consecutiveFailures = 1) (history : List Bool) :
    TripsAt config history ↔ history.getLast? = some true := by
  refine ⟨And.left, fun hlast => ⟨hlast, .inl ?_⟩⟩
  obtain ⟨before, rfl⟩ := List.getLast?_eq_some_iff.mp hlast
  rw [h]
  exact ⟨by simp, by simp [List.rtake]⟩

/-- Where the first failure trips, the rate, the window and the minimum make no difference. -/
theorem indistinguishable_iff_hairTrigger : ∃ s s', new hairTrigger.build 0 = some s ∧
    new (hairTrigger.setSlidingWindowSize 3).build 0 = some s' ∧
    Indistinguishable hairTrigger.build (hairTrigger.setSlidingWindowSize 3).build s s' := by
  refine ⟨_, _, rfl, rfl,
    (@indistinguishable_iff _ _ hairTrigger (hairTrigger.setSlidingWindowSize 3) rfl rfl 0 _ _ rfl
      rfl).mpr fun history outcome _ => ?_⟩
  rw [tripsAt_of_consecutive_one rfl, tripsAt_of_consecutive_one rfl]

end StateMachine

end Breaker
