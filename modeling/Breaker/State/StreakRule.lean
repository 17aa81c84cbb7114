import Breaker.State.TripCheck

/-!
# Disabling the streak rule

The greatest streak threshold is documented to disable the streak rule, but the
check knows nothing of it.  Where the rate rule is enabled it does not matter: a
streak as long as the window is a window full of failures, which no threshold
survives.  Where the rate rule is disabled as well, the threshold is a threshold,
and a long enough streak trips the circuit.
-/

namespace Breaker

open Foundation

universe u

variable {arith : RateArithmetic} {ε : Type u}

/-- There are `n` failures in a row among the outcomes. -/
def StreakWithin (n : Nat) (outcomes : List Bool) : Prop :=
  ∃ past, past <+: outcomes ∧ StreakOf n past

theorem StreakWithin.mono {n : Nat} {first second : List Bool} (h : StreakWithin n first)
    (hinit : first <+: second) : StreakWithin n second := by
  obtain ⟨past, hpast, hstreak⟩ := h
  exact ⟨past, hpast.trans hinit, hstreak⟩

theorem streakWithin_replicate (n : Nat) (tick : Tick) :
    StreakWithin n ((List.replicate n (true, tick)).map Prod.fst) := by
  refine ⟨_, List.prefix_rfl, by simp, fun failed hmem => ?_⟩
  have hmem := List.mem_of_mem_drop hmem
  rw [List.map_replicate] at hmem
  exact List.eq_of_mem_replicate hmem

/-! ## A window full of failures -/

theorem Window.Tracks.full_of_streak {w : Window} {history : List Bool} (h : w.Tracks history)
    {n : Nat} (hn : w.capacity ≤ n) (hstreak : StreakOf n history) :
    w.filled = w.capacity ∧ w.failures = w.filled := by
  obtain ⟨hlength, hall⟩ := hstreak
  have hfilled : w.filled = w.capacity := by
    rw [h.filled_eq]
    omega
  refine ⟨hfilled, ?_⟩
  have htrue : ∀ failed ∈ w.outcomes, id failed = true := by
    intro failed hmem
    rw [h.outcomes_eq] at hmem
    exact hall failed ((List.drop_sublist_drop_left history (by omega)).subset hmem)
  rw [h.failures_eq, List.countP_eq_length.mpr htrue, h.filled_eq, h.length]

namespace StateMachine

variable {config : CircuitBreakerConfig arith ε} {s : StateMachine}
  {history : List Bool} {trips : StateMachine → Bool}

theorem rateTrips_of_streak (hconfig : config.WellFormed)
    (henabled : FloatValue.lt (.finite 0) config.failureRateThreshold = true)
    (hwindow : s.window.Tracks history) (hcapacity : s.window.capacity = config.slidingWindowSize)
    {n : Nat} (hn : config.slidingWindowSize ≤ n) (hstreak : StreakOf n history) :
    s.rateTrips config = true := by
  obtain ⟨hfilled, hfailures⟩ := hwindow.full_of_streak (hcapacity.trans_le hn) hstreak
  have hpos : 0 < s.window.filled := by
    have := hconfig.window_pos
    omega
  have hrate : s.window.failureRate arith = .finite 1 := by
    rw [Window.failureRate, if_neg hpos.ne', hfailures, arith.rate_self hpos]
  have hminimum : config.minimumCalls ≤ s.window.filled := by
    have := hconfig.minimum_le
    omega
  have hle : FloatValue.le config.failureRateThreshold (.finite 1) = true := by
    rcases hconfig.threshold with hnan | ⟨q, hq, -, hone⟩
    · simp [hnan] at henabled
    · simpa [hq] using hone
  simp [rateTrips, henabled, hminimum, hrate, hle]

/-! ## The counters under any check -/

variable (config) in
structure Follows (s : StateMachine) : Prop where
  capacity : s.window.capacity = config.slidingWindowSize
  window : ∃ history, s.window.Tracks history ∧
    (s.current = .closed → s.failureCount = (history.rtakeWhile id).length)

theorem follows_new (hconfig : config.WellFormed) {draw : Draw} (h : new config draw = some s) :
    Follows config s := by
  obtain ⟨wait, -, rfl⟩ := new_eq h
  exact ⟨Nat.max_eq_left hconfig.window_pos, [], Window.tracks_new hconfig.window_lt, fun _ => rfl⟩

theorem Follows.of_window {t : StateMachine} (h : Follows config s) (hwindow : t.window = s.window)
    (ht : t.current ≠ .closed) : Follows config t := by
  obtain ⟨hcapacity, history, htracks, -⟩ := h
  exact ⟨hwindow ▸ hcapacity, history, hwindow ▸ htracks, fun hclosed => absurd hclosed ht⟩

theorem Follows.maybeTransitionToHalfOpen (h : Follows config s) (now : Nat) :
    Follows config (s.maybeTransitionToHalfOpen now) := by
  by_cases hdue : s.Due now
  · rw [maybeTransitionToHalfOpen_of_due hdue]
    exact h.of_window rfl (by simp)
  · rwa [maybeTransitionToHalfOpen_of_not_due hdue]

theorem Follows.record (h : Follows config s) (hclosed : s.current = .closed) (failed : Bool)
    {t : StateMachine} (hwindow : t.window = s.window.record failed)
    (hcount : t.failureCount = if failed then s.failureCount + 1 else 0) : Follows config t := by
  obtain ⟨hcapacity, history, htracks, hstreak⟩ := h
  refine ⟨by rw [hwindow, Window.record_capacity, hcapacity], history ++ [failed],
    hwindow ▸ htracks.record failed, fun _ => ?_⟩
  rw [hcount]
  cases failed with
  | false => simp
  | true => simp [hstreak hclosed]

theorem Follows.settleSuccess (h : Follows config s) (tick : Tick) :
    Follows config (s.settleSuccess config tick).1 := by
  rcases s.settleSuccess_cases config tick with
    ⟨hclosed, heq⟩ | ⟨-, heq⟩ | ⟨hhalf, -, heq⟩ | ⟨-, -, heq⟩
  · rw [heq]
    exact h.record hclosed false rfl rfl
  · rw [heq]
    exact h
  · rw [heq]
    exact h.of_window rfl (by simp [hhalf])
  · rw [heq]
    obtain ⟨hcapacity, history, htracks, -⟩ := h
    exact ⟨hcapacity, [], htracks.clear, fun _ => rfl⟩

theorem Follows.settleFailureBy (h : Follows config s) (tick : Tick) :
    Follows config (s.settleFailureBy config trips tick).1 := by
  unfold StateMachine.settleFailureBy
  cases hcurrent : s.current with
  | closed =>
      have hfailed : Follows config s.failed := h.record hcurrent true rfl rfl
      dsimp only
      split_ifs
      · obtain ⟨wait, heq⟩ := transitionFrom_opened config tick s.failed .closed
        rw [heq]
        exact hfailed.of_window rfl (by simp)
      · exact hfailed
  | halfOpen =>
      obtain ⟨wait, heq⟩ := transitionFrom_opened config tick s .halfOpen
      rw [heq]
      exact h.of_window rfl (by simp)
  | opened => exact h

theorem Follows.recordBy (h : Follows config s) (input : Bool × Tick) :
    Follows config (recordBy config trips s input).1 := by
  obtain ⟨failed, tick⟩ := input
  cases failed with
  | false =>
      have hcounted : Follows config s.countSuccess := ⟨h.capacity, h.window⟩
      exact (hcounted.maybeTransitionToHalfOpen tick.now).settleSuccess tick
  | true =>
      have hcounted : Follows config s.countFailure := ⟨h.capacity, h.window⟩
      exact (hcounted.maybeTransitionToHalfOpen tick.now).settleFailureBy tick

/-! ## With the rate rule -/

/-- A streak threshold above the window size adds nothing to an enabled rate rule. -/
theorem Follows.shouldTrip_eq (hconfig : config.WellFormed)
    (hsize : config.slidingWindowSize ≤ config.consecutiveFailures)
    (henabled : FloatValue.lt (.finite 0) config.failureRateThreshold = true)
    (h : Follows config s) (hclosed : s.current = .closed) :
    s.failed.shouldTrip config = s.failed.rateTrips config := by
  unfold shouldTrip
  split_ifs with hstreak
  · obtain ⟨hcapacity, history, htracks, hcount⟩ := h.record hclosed true (t := s.failed) rfl rfl
    rw [hcount hclosed] at hstreak
    exact (rateTrips_of_streak hconfig henabled htracks hcapacity hsize
      ((le_length_rtakeWhile_iff id history _).mp hstreak)).symm
  · rfl

/-! ## Without the rate rule -/

theorem rateTrips_of_disabled
    (hdisabled : FloatValue.lt (.finite 0) config.failureRateThreshold = false)
    (s : StateMachine) : s.rateTrips config = false := by
  simp [rateTrips, hdisabled]

theorem recordBy_rateTrips_closed
    (hdisabled : FloatValue.lt (.finite 0) config.failureRateThreshold = false)
    (hclosed : s.current = .closed) (inputs : List (Bool × Tick)) :
    ∀ step ∈ trace (recordBy config (rateTrips config)) s inputs,
      step.1.current = .closed := by
  have hstep : ∀ (t : StateMachine) (input : Bool × Tick), t.current = .closed →
      (recordBy config (rateTrips config) t input).1.current = .closed := by
    rintro t ⟨failed, tick⟩ ht
    cases failed with
    | false =>
        rw [recordBy_success ht]
        exact ht
    | true =>
        rw [recordBy_stay ht (rateTrips_of_disabled hdisabled _)]
        exact ht
  exact forall_mem_trace hclosed fun t input ht => ⟨hstep t input ht, hstep t input ht⟩

theorem record_cases (hconfig : config.WellFormed)
    (hdisabled : FloatValue.lt (.finite 0) config.failureRateThreshold = false)
    (hclosed : s.current = .closed) (hcount : s.failureCount = (history.rtakeWhile id).length)
    (failed : Bool) (tick : Tick) :
    (¬ StreakOf config.consecutiveFailures (history ++ [failed]) ∧
      (record config s (failed, tick)).1.current = .closed ∧
      (record config s (failed, tick)).1.failureCount =
        ((history ++ [failed]).rtakeWhile id).length) ∨
    (StreakOf config.consecutiveFailures (history ++ [failed]) ∧
      (record config s (failed, tick)).1.current = .opened) := by
  have hstreak := le_length_rtakeWhile_iff id (history ++ [failed]) config.consecutiveFailures
  cases failed with
  | false =>
      have hnone : ((history ++ [false]).rtakeWhile id).length = 0 := by simp
      refine .inl ⟨fun h => ?_, ?_, ?_⟩
      · have hle := hstreak.mpr h
        have := hconfig.consecutive_pos
        omega
      · rw [record_eq_recordBy, recordBy_success hclosed]
        exact hclosed
      · rw [record_eq_recordBy, recordBy_success hclosed, hnone]
        rfl
  | true =>
      have hfailed : s.countFailure.failed.failureCount =
          ((history ++ [true]).rtakeWhile id).length := by
        simp [failed, countFailure, hcount]
      have hcheck : s.countFailure.failed.shouldTrip config =
          decide (config.consecutiveFailures ≤ ((history ++ [true]).rtakeWhile id).length) := by
        rw [shouldTrip_eq, hfailed, rateTrips_of_disabled hdisabled]
        simp
      by_cases hlong : StreakOf config.consecutiveFailures (history ++ [true])
      · have htrip : s.countFailure.failed.shouldTrip config = true := by
          rw [hcheck, decide_eq_true_eq]
          exact hstreak.mpr hlong
        rw [record_eq_recordBy]
        exact .inr ⟨hlong, recordBy_trip_current hclosed htrip tick⟩
      · have hstay : s.countFailure.failed.shouldTrip config = false := by
          rw [hcheck, decide_eq_false_iff_not]
          exact fun hle => hlong (hstreak.mp hle)
        rw [record_eq_recordBy, recordBy_stay hclosed hstay]
        exact .inl ⟨hlong, hclosed, hfailed⟩

theorem record_closed_iff (hconfig : config.WellFormed)
    (hdisabled : FloatValue.lt (.finite 0) config.failureRateThreshold = false)
    (hclosed : s.current = .closed) (hcount : s.failureCount = (history.rtakeWhile id).length)
    (hpast : ¬ StreakOf config.consecutiveFailures history) (inputs : List (Bool × Tick)) :
    (∀ step ∈ trace (record config) s inputs, step.1.current = .closed) ↔
      ∀ past, past <+: inputs.map Prod.fst →
        ¬ StreakOf config.consecutiveFailures (history ++ past) := by
  induction inputs generalizing s history with
  | nil => simpa using hpast
  | cons input inputs ih =>
      obtain ⟨failed, tick⟩ := input
      rw [trace_cons, List.forall_mem_cons, List.map_cons]
      rcases record_cases hconfig hdisabled hclosed hcount failed tick with
        ⟨hshort, hstay, hnext⟩ | ⟨hlong, htrip⟩
      · rw [ih hstay hnext hshort]
        constructor
        · rintro ⟨-, hrest⟩ past hprefix
          rcases List.prefix_cons_iff.mp hprefix with rfl | ⟨rest, rfl, hrest'⟩
          · rwa [List.append_nil]
          · simpa using hrest rest hrest'
        · intro h
          refine ⟨hstay, fun past hprefix => ?_⟩
          simpa using h (failed :: past) ((List.prefix_cons_inj failed).mpr hprefix)
      · constructor
        · rintro ⟨hstay, -⟩
          rw [htrip] at hstay
          cases hstay
        · intro h
          exact absurd hlong (h [failed] (by simp))

theorem record_closed_new_iff (hconfig : config.WellFormed)
    (hdisabled : FloatValue.lt (.finite 0) config.failureRateThreshold = false) {draw : Draw}
    (hnew : new config draw = some s) (inputs : List (Bool × Tick)) :
    (∀ step ∈ trace (record config) s inputs, step.1.current = .closed) ↔
      ¬ StreakWithin config.consecutiveFailures (inputs.map Prod.fst) := by
  have hempty : ¬ StreakOf config.consecutiveFailures [] := by
    rintro ⟨hlength, -⟩
    have := hconfig.consecutive_pos
    rw [List.length_nil] at hlength
    omega
  obtain ⟨wait, -, rfl⟩ := new_eq hnew
  have hcount : (fresh config wait).failureCount = (([] : List Bool).rtakeWhile id).length := rfl
  rw [record_closed_iff hconfig hdisabled rfl hcount hempty inputs]
  simp [StreakWithin]

/-! ## The two machines -/

def SameTransitions (ts us : List (StateMachine × Except Panic (Option (State × State)))) : Prop :=
  List.Forall₂ (fun p q => p.2 = q.2 ∧ ∀ now, p.1.currentAt now = q.1.currentAt now) ts us

theorem SameTransitions.closed
    {ts us : List (StateMachine × Except Panic (Option (State × State)))}
    (h : SameTransitions ts us) (hclosed : ∀ step ∈ us, step.1.current = .closed) :
    ∀ step ∈ ts, step.1.current = .closed := by
  unfold SameTransitions at h
  induction h with
  | nil => simp
  | @cons p q _ _ hstep _ ih =>
      rw [List.forall_mem_cons] at hclosed ⊢
      refine ⟨?_, ih hclosed.2⟩
      have hcurrent : p.1.currentAt 0 = .closed := by
        rw [hstep.2 0]
        exact currentAt_closed_iff.mpr hclosed.1
      exact currentAt_closed_iff.mp hcurrent

theorem recordBy_ne {trips' : StateMachine → Bool} {input : Bool × Tick}
    (h : recordBy config trips s input ≠ recordBy config trips' s input) :
    input.1 = true ∧ s.current = .closed ∧
      trips s.countFailure.failed ≠ trips' s.countFailure.failed := by
  obtain ⟨failed, tick⟩ := input
  cases failed with
  | false => exact absurd rfl h
  | true =>
      by_cases hclosed : s.current = .closed
      · refine ⟨rfl, hclosed, fun hsame => h ?_⟩
        rw [recordBy_failure hclosed, recordBy_failure hclosed, hsame]
      · have hready : (s.countFailure.maybeTransitionToHalfOpen tick.now).current ≠ .closed := by
          rw [← currentAt_eq]
          exact fun heq => hclosed (currentAt_closed_iff.mp heq)
        refine absurd ?_ h
        rw [recordBy, recordBy, if_pos rfl, if_pos rfl, settleFailureBy_eq hready,
          settleFailureBy_eq hready]

variable (trips) in
theorem follows_run (h : Follows config s) (inputs : List (Bool × Tick)) :
    Follows config (runFrom (recordBy config trips) s inputs) :=
  runFrom_invariant h fun _ input _ hfollows => hfollows.recordBy input

theorem trace_record_eq (hconfig : config.WellFormed)
    (hsize : config.slidingWindowSize ≤ config.consecutiveFailures) {draw : Draw}
    (hnew : new config draw = some s) {inputs : List (Bool × Tick)}
    (h : FloatValue.lt (.finite 0) config.failureRateThreshold = true ∨
      ¬ StreakWithin config.consecutiveFailures (inputs.map Prod.fst)) :
    trace (record config) s inputs =
      trace (recordBy config (rateTrips config)) s inputs := by
  by_contra hne
  obtain ⟨before, ⟨failed, tick⟩, after, rfl, -, hstep⟩ := exists_first_difference (Ne.symm hne)
  rw [record_eq_recordBy] at hstep
  obtain ⟨hfailed, hclosed, hchecks⟩ := recordBy_ne hstep
  obtain rfl : failed = true := hfailed
  cases hrule : FloatValue.lt (.finite 0) config.failureRateThreshold with
  | true =>
      have hfollows := follows_run (fun s => s.shouldTrip config) (follows_new hconfig hnew)
        before
      exact hchecks (hfollows.shouldTrip_eq hconfig hsize hrule hclosed).symm
  | false =>
      have hnone := h.resolve_left (by simp [hrule])
      have hstays := (record_closed_new_iff hconfig hrule hnew
        (before ++ [(true, tick)])).mpr fun hstreak => hnone (hstreak.mono (by simp))
      rw [record_eq_recordBy, trace_concat] at hstays
      have hlast := hstays _ (List.mem_append_right _ (List.mem_singleton_self _))
      rw [rateTrips_of_disabled hrule] at hchecks
      have htrip := Bool.eq_true_of_not_eq_false (Ne.symm hchecks)
      rw [recordBy_trip_current hclosed htrip tick] at hlast
      cases hlast

theorem not_streakWithin_of_same (hconfig : config.WellFormed)
    (hdisabled : FloatValue.lt (.finite 0) config.failureRateThreshold = false) {draw : Draw}
    (hnew : new config draw = some s) {inputs : List (Bool × Tick)}
    (hsame : SameTransitions (trace (record config) s inputs)
      (trace (recordBy config (rateTrips config)) s inputs)) :
    ¬ StreakWithin config.consecutiveFailures (inputs.map Prod.fst) := by
  rw [← record_closed_new_iff hconfig hdisabled hnew]
  obtain ⟨wait, -, rfl⟩ := new_eq hnew
  exact hsame.closed (recordBy_rateTrips_closed hdisabled rfl inputs)

/--
With the greatest streak threshold the machine makes the transitions of one that
has no streak rule, if and only if the rate rule is enabled or the run has no
`2 ^ 32 - 1` failures in a row.  Without the rate rule it stays `Closed` if and
only if the run has none.
-/
theorem streak_rule_disabled (b : CircuitBreakerConfigBuilder arith ε)
    (hmax : b.build.consecutiveFailures = 2 ^ 32 - 1) {draw : Draw} {start : StateMachine}
    (hnew : new b.build draw = some start) (inputs : List (Bool × Tick)) :
    (SameTransitions (trace (record b.build) start inputs)
        (trace (recordBy b.build (rateTrips b.build)) start inputs) ↔
      FloatValue.lt (.finite 0) b.build.failureRateThreshold = true ∨
        ¬ StreakWithin (2 ^ 32 - 1) (inputs.map Prod.fst)) ∧
    (FloatValue.lt (.finite 0) b.build.failureRateThreshold = false →
      ((∀ step ∈ trace (record b.build) start inputs, step.1.current = .closed) ↔
        ¬ StreakWithin (2 ^ 32 - 1) (inputs.map Prod.fst))) := by
  have hconfig := build_wellFormed b
  have hsize : b.build.slidingWindowSize ≤ b.build.consecutiveFailures := by
    have := hconfig.window_lt
    omega
  rw [← hmax]
  refine ⟨⟨fun hsame => ?_, fun h => ?_⟩, fun hdisabled => ?_⟩
  · cases hrule : FloatValue.lt (.finite 0) b.build.failureRateThreshold with
    | true => exact .inl rfl
    | false => exact .inr (not_streakWithin_of_same hconfig hrule hnew hsame)
  · rw [trace_record_eq hconfig hsize hnew h]
    exact List.forall₂_same.mpr fun step _ => ⟨rfl, fun now => rfl⟩
  · exact record_closed_new_iff hconfig hdisabled hnew inputs

/-- Neither rule is meant to be enabled. -/
def neverTrigger : CircuitBreakerConfigBuilder .single Unit :=
  { hairTrigger with
    consecutiveFailures := some 4294967295
    failureRateThreshold := some (.finite 0) }

def brokenStreak : List (Bool × Tick) :=
  [(true, ⟨0, 0, 0⟩), (true, ⟨1, 1, 0⟩), (false, ⟨2, 2, 0⟩), (true, ⟨3, 3, 0⟩)]

theorem streak_rule_disabled_neverTrigger :
    ∃ start, new neverTrigger.build 0 = some start ∧
      (SameTransitions (trace (record neverTrigger.build) start brokenStreak)
          (trace (recordBy neverTrigger.build (rateTrips neverTrigger.build)) start
            brokenStreak) ↔
        FloatValue.lt (.finite 0) neverTrigger.build.failureRateThreshold = true ∨
          ¬ StreakWithin (2 ^ 32 - 1) (brokenStreak.map Prod.fst)) ∧
      (FloatValue.lt (.finite 0) neverTrigger.build.failureRateThreshold = false →
        ((∀ step ∈ trace (record neverTrigger.build) start brokenStreak,
            step.1.current = .closed) ↔
          ¬ StreakWithin (2 ^ 32 - 1) (brokenStreak.map Prod.fst))) :=
  ⟨_, rfl, @streak_rule_disabled _ _ neverTrigger rfl 0 _ rfl brokenStreak⟩

/-- The last of `2 ^ 32 - 1` failures in a row opens the circuit. -/
theorem streak_rule_longStreak :
    ¬ ∀ (b : CircuitBreakerConfigBuilder .single Unit) (draw : Draw)
      (start : StateMachine) (inputs : List (Bool × Tick)),
      b.build.consecutiveFailures = 2 ^ 32 - 1 → new b.build draw = some start →
      inputs.length < 2 ^ 63 →
      SameTransitions (trace (record b.build) start inputs)
        (trace (recordBy b.build (rateTrips b.build)) start inputs) := by
  intro hlaw
  have hdisabled : FloatValue.lt (.finite 0) neverTrigger.build.failureRateThreshold = false := by
    decide +kernel
  have hmax : neverTrigger.build.consecutiveFailures = 2 ^ 32 - 1 := rfl
  have hnew : new neverTrigger.build 0 = some (fresh neverTrigger.build (.fromNanos 1)) := rfl
  have hsame := hlaw neverTrigger 0 _
    (List.replicate neverTrigger.build.consecutiveFailures (true, ⟨0, 0, 0⟩)) hmax hnew
    (by rw [List.length_replicate, hmax]; norm_num)
  exact not_streakWithin_of_same (build_wellFormed neverTrigger) hdisabled hnew hsame
    (streakWithin_replicate _ _)

end StateMachine

end Breaker
