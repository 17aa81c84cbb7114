import Breaker.State.Outage
import Breaker.State.TripBudget
import Breaker.Tasks.Accounting

/-!
# The bounded harnesses without their bounds

The repository checks three laws on small runs: that an `Open` circuit has seen
enough failures, that concurrent failures trip it exactly once and are all
counted, and that `trip()` and concurrent records leave it `Open` after exactly
one transition.  Here they hold of any number of threads, every interleaving and
every configuration.  No update is lost: at any instant the writes made and the
writes still owed are those of the jobs.
-/

namespace Breaker

open Foundation PoolAction

universe u

variable {arith : RateArithmetic} {ε : Type u}

namespace StateMachine

variable {config : CircuitBreakerConfig arith ε} {s t : StateMachine}

/-! ## Runs without a forced trip -/

theorem settleFailure_leaves (hcurrent : s.current = .closed) {tick : Tick}
    (hleft : (s.settleFailure config tick).1.current ≠ .closed) :
    (s.settleFailure config tick).1.current = .opened := by
  rcases s.settleFailure_cases config tick with
    ⟨-, heq⟩ | ⟨-, -, heq⟩ | ⟨-, -, wait, heq⟩ | ⟨-, wait, heq⟩
  · rw [heq] at hleft
    exact absurd hcurrent hleft
  · rw [heq] at hleft
    exact absurd hcurrent hleft
  · rw [heq]
    rfl
  · rw [heq]
    rfl

theorem opens_of_leaves (hclosed : s.current = .closed) {input : Op × Tick}
    (hforce : input.1 ≠ .forceOpen) (hleft : (s.apply config input).1.current ≠ .closed) :
    opens config .closed s input = 1 := by
  obtain ⟨op, tick⟩ := input
  cases op with
  | success =>
      change (s.recordSuccess config tick).1.current ≠ .closed at hleft
      rw [recordSuccess_closed hclosed] at hleft
      exact absurd hclosed hleft
  | failure =>
      have hcounted : s.countFailure.current = .closed := hclosed
      have hopened : (s.recordFailure config tick).1.current = .opened := by
        change (s.recordFailure config tick).1.current ≠ .closed at hleft
        rw [recordFailure_closed hclosed] at hleft ⊢
        exact settleFailure_leaves hcounted hleft
      exact if_pos ⟨rfl, currentAt_closed_iff.mpr hclosed, hopened⟩
  | forceOpen => exact absurd rfl hforce
  | forceClosed => exact absurd rfl hleft

theorem one_le_trips (hclosed : s.current = .closed) {inputs : List (Op × Tick)}
    (hforce : ∀ input ∈ inputs, input.1 ≠ .forceOpen)
    (hleft : (runFrom (StateMachine.apply config) s inputs).current ≠ .closed) :
    1 ≤ sumAlong (StateMachine.apply config) (opens config .closed) s inputs := by
  induction inputs generalizing s with
  | nil => exact absurd hclosed hleft
  | cons input inputs ih =>
      rw [List.forall_mem_cons] at hforce
      rw [sumAlong]
      by_cases hnext : (s.apply config input).1.current = .closed
      · exact le_add_left (ih hnext hforce.2 hleft)
      · rw [opens_of_leaves hclosed hforce.1 hnext]
        exact Nat.le_add_right _ _

theorem tripCost_le_totalFailures {draw : Draw} (hnew : new config draw = some s)
    {inputs : List (Op × Tick)} (hforce : ∀ input ∈ inputs, input.1 ≠ .forceOpen)
    (hleft : (runFrom (StateMachine.apply config) s inputs).current ≠ .closed) :
    config.tripCost ≤ (runFrom (StateMachine.apply config) s inputs).totalFailures := by
  have hclosed : s.current = .closed := by
    obtain ⟨wait, -, rfl⟩ := new_eq hnew
    rfl
  have hpaid := trips_paid hnew inputs
  have htrips := Nat.mul_le_mul_left config.tripCost (one_le_trips hclosed hforce hleft)
  omega

/-! ## Runs of failures -/

def firstTrip (config : CircuitBreakerConfig arith ε) : Nat :=
  match config.failureRateThreshold with
  | .finite q =>
      if 0 < q then min config.consecutiveFailures config.minimumCalls
      else config.consecutiveFailures
  | .posInf | .negInf | .nan => config.consecutiveFailures

theorem firstTrip_pos (hconfig : config.WellFormed) : 0 < firstTrip config := by
  have hconsecutive := hconfig.consecutive_pos
  have hminimum := hconfig.minimum_pos
  unfold firstTrip
  split
  · split_ifs <;> omega
  all_goals exact hconsecutive

theorem tripsAt_failures_iff (hconfig : config.WellFormed) (n : Nat) :
    TripsAt config (List.replicate (n + 1) true) ↔ firstTrip config ≤ n + 1 := by
  have hlast : (List.replicate (n + 1) true).getLast? = some true := by
    simp [List.replicate_succ']
  have hstreak : StreakOf config.consecutiveFailures (List.replicate (n + 1) true) ↔
      config.consecutiveFailures ≤ n + 1 := by
    have hrun : (List.replicate (n + 1) true).rtakeWhile id = List.replicate (n + 1) true :=
      rtakeWhile_padded 0 (n + 1)
    refine (le_length_rtakeWhile_iff id _ _).symm.trans ?_
    rw [hrun, List.length_replicate]
  have hall : ∀ m, m ≤ n + 1 →
      ((List.replicate (n + 1) true).rtake m).countP id = m := by
    intro m hm
    rw [List.rtake, List.length_replicate, List.drop_replicate, List.countP_replicate]
    simp
    omega
  rw [TripsAt, hstreak, RateReached, firstTrip]
  simp only [hlast, true_and, List.length_replicate]
  rcases hconfig.threshold with hnan | ⟨q, hq, -, hone⟩
  · simp [hnan]
  · have hle := hconfig.minimum_le
    by_cases hpositive : 0 < q
    · have hpos : 0 < min (n + 1) config.slidingWindowSize :=
        lt_min (Nat.succ_pos n) hconfig.window_pos
      have hreached : q ≤ arith.rate (min (n + 1) config.slidingWindowSize)
          (min (n + 1) config.slidingWindowSize) := by
        rwa [arith.rate_self hpos]
      simp only [hq, hpositive, hall _ (min_le_left _ _), FloatValue.finite.injEq,
        exists_eq_left', hreached, and_true, true_and, if_true]
      omega
    · simp [hq, hpositive]

def WaitsFirst (config : CircuitBreakerConfig arith ε) (s : StateMachine) : Prop :=
  ∃ draw, config.backoff.waitFor binary64 1 draw = some s.waitDuration

/-- No first wait that began with the clock has run out at `now`. -/
def BeforeFirstWait (config : CircuitBreakerConfig arith ε) (now : Nat) : Prop :=
  ∀ draw wait, config.backoff.waitFor binary64 1 draw = some wait → now < wait.nanos

theorem WaitsFirst.not_due (h : WaitsFirst config s) {now : Nat}
    (hnow : BeforeFirstWait config now) : ¬ s.Due now := by
  rintro ⟨-, since, -, hwait⟩
  obtain ⟨draw, hdraw⟩ := h
  have hlt := hnow draw _ hdraw
  omega

theorem waitsFirst_tripped (hattempts : s.openAttempts = 0) (hreach : Reachable config s)
    (tick : Tick) : ∃ wait, s.nextWait config tick = some wait ∧
      WaitsFirst config (s.tripped tick.stamp wait) := by
  obtain ⟨wait, hwait⟩ := Option.isSome_iff_exists.mp (hreach.nextWait_isSome hattempts tick)
  have hfirst := hwait
  rw [nextWait, hattempts] at hfirst
  exact ⟨wait, hwait, tick.draw, hfirst⟩

/-- Where `n` failures in a row have led, counted from a new machine. -/
inductive Row (config : CircuitBreakerConfig arith ε) (n : Nat) (s : StateMachine) : Prop
  | counting : n < firstTrip config → s.transitions = 0 →
      Watching config (List.replicate n true) s → Row config n s
  | tripped : firstTrip config ≤ n → s.transitions = 1 → s.current = .opened →
      WaitsFirst config s → Row config n s

theorem Row.next (hconfig : config.WellFormed) {n : Nat} (h : Row config n s) {tick : Tick}
    (hnow : firstTrip config ≤ n → BeforeFirstWait config tick.now) :
    Row config (n + 1) (s.recordFailure config tick).1 := by
  cases h with
  | counting hlt htransitions hwatching =>
      have hclosed := hwatching.current
      have hhistory : List.replicate n true ++ [true] = List.replicate (n + 1) true :=
        List.replicate_succ'.symm
      by_cases htrip : firstTrip config ≤ n + 1
      · have htrips : TripsAt config (List.replicate n true ++ [true]) := by
          rw [hhistory]
          exact (tripsAt_failures_iff hconfig n).mpr htrip
        have hshould : s.countFailure.failed.shouldTrip config = true :=
          (hwatching.shouldTrip_iff hconfig).mpr htrips
        have hattempts : s.openAttempts = 0 :=
          ((hwatching.reachable.shape hconfig).closed hclosed).1
        obtain ⟨wait, hwait, hfirst⟩ := waitsFirst_tripped hattempts hwatching.reachable tick
        have hstep : (s.recordFailure config tick).1 =
            s.countFailure.failed.tripped tick.stamp wait := by
          have hcomputed : s.countFailure.failed.nextWait config tick = some wait := hwait
          rw [recordFailure_closed_trip hclosed hshould, transitionFrom]
          simp only [transition_opened_some config tick hcomputed]
        rw [hstep]
        exact .tripped htrip (congrArg (· + 1) htransitions) rfl hfirst
      · have hstay : ¬ TripsAt config (List.replicate n true ++ [true]) := by
          rw [hhistory, tripsAt_failures_iff hconfig]
          exact htrip
        obtain ⟨-, hnext⟩ := hwatching.recordFailure_stay hconfig hstay tick
        have hshould : s.countFailure.failed.shouldTrip config = false :=
          Bool.eq_false_iff.mpr fun htrips => hstay ((hwatching.shouldTrip_iff hconfig).mp htrips)
        have hsame : (s.recordFailure config tick).1.transitions = s.transitions := by
          rw [recordFailure_closed_stay hclosed hshould]
          rfl
        rw [hhistory] at hnext
        exact .counting (not_le.mp htrip) (hsame.trans htransitions) hnext
  | tripped hle htransitions hopen hfirst =>
      have hstep : record config s (true, tick) = (s.countFailure, .ok none) :=
        record_waiting config hopen (hfirst.not_due (hnow hle))
      change Row config (n + 1) (record config s (true, tick)).1
      rw [hstep]
      exact .tripped (hle.trans (Nat.le_succ n)) htransitions hopen hfirst

theorem Row.run (hconfig : config.WellFormed) {draw : Draw} (hnew : new config draw = some s)
    {inputs : List (Op × Tick)} (hfailures : ∀ input ∈ inputs, input.1 = .failure)
    (hnow : firstTrip config ≤ inputs.length →
      ∀ input ∈ inputs, BeforeFirstWait config input.2.now) :
    Row config inputs.length (runFrom (StateMachine.apply config) s inputs) := by
  induction inputs using List.reverseRecOn with
  | nil =>
      have htransitions : s.transitions = 0 := by
        obtain ⟨wait, -, rfl⟩ := new_eq hnew
        rfl
      exact .counting (firstTrip_pos hconfig) htransitions
        ((EntersClosed.constructed hnew).watching hconfig)
  | append_singleton inputs input ih =>
      obtain ⟨op, tick⟩ := input
      have hop : op = .failure := hfailures (op, tick) (by simp)
      subst hop
      rw [List.length_append, List.length_singleton] at hnow ⊢
      have hrow := ih (fun input hmem => hfailures input (List.mem_append_left _ hmem))
        fun hle input hmem => hnow (hle.trans (Nat.le_succ _)) input (List.mem_append_left _ hmem)
      rw [runFrom_append]
      exact hrow.next hconfig fun hle =>
        hnow (hle.trans (Nat.le_succ _)) (.failure, tick) (by simp)

/-- Failures alone leave a window of failures, whatever the clock. -/
structure AllFailed (n : Nat) (s : StateMachine) : Prop where
  current : n = 0 → s.current = .closed
  window : ∃ k, s.window.Tracks (List.replicate k true) ∧ (0 < n → 0 < k)

theorem AllFailed.next {n : Nat} (h : AllFailed n s) (tick : Tick) :
    AllFailed (n + 1) (s.recordFailure config tick).1 := by
  obtain ⟨hcurrent, k, htracks, hpos⟩ := h
  refine ⟨fun hzero => absurd hzero (Nat.succ_ne_zero n), ?_⟩
  have hkept : (s.countFailure.maybeTransitionToHalfOpen tick.now).window = s.window := by
    by_cases hdue : s.countFailure.Due tick.now
    · rw [maybeTransitionToHalfOpen_of_due hdue]
      rfl
    · rw [maybeTransitionToHalfOpen_of_not_due hdue]
      rfl
  have hcounted : s.current ≠ .closed → 0 < n := fun hleft =>
    Nat.pos_of_ne_zero fun hzero => hleft (hcurrent hzero)
  have hfound : (s.countFailure.maybeTransitionToHalfOpen tick.now).current ≠ .closed →
      0 < n := by
    rw [← currentAt_eq, ne_eq, currentAt_closed_iff]
    exact hcounted
  unfold recordFailure
  generalize s.countFailure.maybeTransitionToHalfOpen tick.now = t at hkept hfound
  rw [← hkept] at htracks
  have hgrown : (t.window.record true).Tracks (List.replicate (k + 1) true) := by
    rw [List.replicate_succ']
    exact htracks.record true
  rcases t.settleFailure_cases config tick with
    ⟨hopen, heq⟩ | ⟨-, -, heq⟩ | ⟨-, -, wait, heq⟩ | ⟨hhalf, wait, heq⟩
  · rw [heq]
    exact ⟨k, htracks, fun _ => hpos (hfound (by simp [hopen]))⟩
  · rw [heq]
    exact ⟨k + 1, hgrown, fun _ => Nat.succ_pos k⟩
  · rw [heq]
    exact ⟨k + 1, hgrown, fun _ => Nat.succ_pos k⟩
  · rw [heq]
    exact ⟨k, htracks, fun _ => hpos (hfound (by simp [hhalf]))⟩

theorem allFailed_run (hconfig : config.WellFormed) {draw : Draw} (hnew : new config draw = some s)
    {inputs : List (Op × Tick)} (hfailures : ∀ input ∈ inputs, input.1 = .failure) :
    AllFailed inputs.length (runFrom (StateMachine.apply config) s inputs) := by
  induction inputs using List.reverseRecOn with
  | nil =>
      obtain ⟨wait, -, rfl⟩ := new_eq hnew
      exact ⟨fun _ => rfl, 0, Window.tracks_new hconfig.window_lt, id⟩
  | append_singleton inputs input ih =>
      obtain ⟨op, tick⟩ := input
      have hop : op = .failure := hfailures (op, tick) (by simp)
      subst hop
      rw [List.length_append, runFrom_append]
      exact (ih fun input hmem => hfailures input (List.mem_append_left _ hmem)).next tick

theorem AllFailed.failureRate {n : Nat} (h : AllFailed n s) (hn : 0 < n) (arith : RateArithmetic) :
    s.window.failureRate arith = .finite 1 := by
  obtain ⟨-, k, htracks, hk⟩ := h
  have hall : s.window.failures = s.window.filled := by
    rw [htracks.failures_rtake, htracks.filled_eq, List.rtake, List.drop_replicate,
      List.countP_replicate]
    simp only [List.length_replicate, id_eq, if_true]
    omega
  have hfilled : 0 < s.window.filled := by
    have hpos := htracks.capacity_pos
    have hsome := hk hn
    rw [htracks.filled_eq, List.length_replicate]
    omega
  rw [Window.failureRate, if_neg hfilled.ne', hall, arith.rate_self hfilled]

/-! ## Runs with one forced trip -/

theorem run_below_cost (config : CircuitBreakerConfig arith ε) (hclosed : s.current = .closed)
    {inputs : List (Op × Tick)} (hrecords : ∀ input ∈ inputs, input.1.outcome ≠ [])
    (hfew : s.evidence + (inputs.flatMap fun input => input.1.outcome).count true <
      config.tripCost) :
    (runFrom (StateMachine.apply config) s inputs).current = .closed ∧
      (runFrom (StateMachine.apply config) s inputs).transitions = s.transitions := by
  induction inputs generalizing s with
  | nil => exact ⟨hclosed, rfl⟩
  | cons input inputs ih =>
      obtain ⟨op, tick⟩ := input
      rw [List.forall_mem_cons] at hrecords
      rw [List.flatMap_cons, List.count_append] at hfew
      rw [runFrom_cons]
      cases op with
      | success =>
          have hstep : (s.apply config (.success, tick)).1 = s.countSuccess.succeeded :=
            congrArg Prod.fst (recordSuccess_closed hclosed tick)
          have hevidence : s.countSuccess.succeeded.evidence ≤ s.evidence :=
            evidence_succeeded_le hclosed
          rw [hstep]
          exact ih hclosed hrecords.2 (by omega)
      | failure =>
          have hevidence : s.countFailure.failed.evidence ≤ s.evidence + 1 :=
            evidence_failed_le hclosed
          have hone : (Op.failure.outcome).count true = 1 := rfl
          dsimp only at hfew
          have hstay : s.countFailure.failed.shouldTrip config = false := by
            rw [Bool.eq_false_iff]
            intro htrip
            have hcost := tripCost_le_evidence (s := s.countFailure.failed) hclosed htrip
            omega
          have hstep : (s.apply config (.failure, tick)).1 = s.countFailure.failed := by
            change (s.recordFailure config tick).1 = _
            rw [recordFailure_closed_stay hclosed hstay]
          rw [hstep]
          exact ih hclosed hrecords.2 (by omega)
      | forceOpen => exact absurd rfl hrecords.1
      | forceClosed => exact absurd rfl hrecords.1

theorem record_waiting_fst (failed : Bool) (hopen : s.current = .opened) {tick : Tick}
    (hdue : ¬ s.Due tick.now) :
    (record config s (failed, tick)).1 = if failed then s.countFailure else s.countSuccess := by
  have hstep : record config s (failed, tick) =
      (if failed then s.countFailure else s.countSuccess, .ok none) :=
    record_waiting config hopen hdue
  rw [hstep]

theorem run_waiting_apply (config : CircuitBreakerConfig arith ε) (hopen : s.current = .opened)
    {inputs : List (Op × Tick)} (hrecords : ∀ input ∈ inputs, input.1.outcome ≠ [])
    (hdue : ∀ input ∈ inputs, ¬ s.Due input.2.now) :
    SameButTotals s (runFrom (StateMachine.apply config) s inputs) := by
  induction inputs generalizing s with
  | nil => exact .refl s
  | cons input inputs ih =>
      obtain ⟨op, tick⟩ := input
      rw [List.forall_mem_cons] at hrecords hdue
      rw [runFrom_cons]
      cases op with
      | success =>
          have hstep : (s.apply config (.success, tick)).1 = s.countSuccess :=
            record_waiting_fst false hopen hdue.1
          rw [hstep]
          exact (SameButTotals.refl s).countSuccess.trans (ih hopen hrecords.2 hdue.2)
      | failure =>
          have hstep : (s.apply config (.failure, tick)).1 = s.countFailure :=
            record_waiting_fst true hopen hdue.1
          rw [hstep]
          exact (SameButTotals.refl s).countFailure.trans (ih hopen hrecords.2 hdue.2)
      | forceOpen => exact absurd rfl hrecords.1
      | forceClosed => exact absurd rfl hrecords.1

theorem forced_once (hconfig : config.WellFormed) {draw : Draw} (hnew : new config draw = some s)
    {before after : List (Op × Tick)} (tick : Tick)
    (hbefore : ∀ input ∈ before, input.1.outcome ≠ [])
    (hafter : ∀ input ∈ after, input.1.outcome ≠ [])
    (hfew : (before.flatMap fun input => input.1.outcome).count true < config.tripCost)
    (hnow : ∀ input ∈ after, BeforeFirstWait config input.2.now) :
    (runFrom (StateMachine.apply config) s (before ++ (.forceOpen, tick) :: after)).current =
        .opened ∧
      (runFrom (StateMachine.apply config) s (before ++ (.forceOpen, tick) :: after)).transitions =
        1 := by
  obtain ⟨hfresh, htransitions, hevidence⟩ :
      s.current = .closed ∧ s.transitions = 0 ∧ s.evidence = 0 := by
    obtain ⟨wait, -, rfl⟩ := new_eq hnew
    exact ⟨rfl, rfl, rfl⟩
  obtain ⟨hclosed, hnone⟩ := run_below_cost config hfresh hbefore (by omega)
  have hreach : Reachable config (runFrom (StateMachine.apply config) s before) :=
    runFrom_invariant (I := Reachable config) ⟨draw, s, hnew, .refl s⟩
      fun _ input _ hreach => hreach.apply input
  rw [runFrom_append, runFrom_cons]
  generalize runFrom (StateMachine.apply config) s before = u at hclosed hnone hreach
  obtain ⟨wait, hwait, hfirst⟩ :=
    waitsFirst_tripped ((hreach.shape hconfig).closed hclosed).1 hreach tick
  have hstep : (u.apply config (.forceOpen, tick)).1 = u.tripped tick.stamp wait :=
    congrArg Prod.fst (transition_opened_some config tick hwait)
  rw [hstep]
  have hopen : (u.tripped tick.stamp wait).current = .opened := rfl
  have hsame := run_waiting_apply config hopen hafter
    fun input hmem => hfirst.not_due (hnow input hmem)
  rw [hsame]
  exact ⟨rfl, congrArg (· + 1) (hnone.trans htransitions)⟩

end StateMachine

/-! ## What a thread still owes -/

/-- The write that a job of its own is for; a call may end without one. -/
def Job.op : Job → Option Op
  | call => none
  | record failed => some (recordOp failed)
  | force f => some f.op

namespace Phase

def owed : Phase ε → Option Op
  | recording _ failed _ => some (recordOp failed)
  | forcing f | forced f _ => some f.op
  | idle | loading | acquiring _ | running _ | announcing .. | leaving .. | done _ => none

def calling : Phase ε → Bool
  | idle | loading | acquiring _ | running _ => true
  | recording .. | announcing .. | leaving .. | forcing _ | forced .. | done _ => false

end Phase

namespace System

variable {config : CircuitBreakerConfig arith ε} {start s s' : System ε} {i : Nat}
  {phase phase' : Phase ε} {a : TaskAction ε} {shared : Shared}
  {actions : List (PoolAction Job (TaskAction ε))}

theorem recordOp_ne_force (failed : Bool) (f : Force) : recordOp failed ≠ f.op := by
  cases failed <;> cases f <;> simp [recordOp, Force.op]

theorem Acts.owed (h : Acts config s i phase a shared phase') :
    (writes shared.log = writes s.shared.log ∧
        (phase'.owed = phase.owed ∨
          phase.calling = true ∧ ∀ f : Force, phase'.owed ≠ some f.op)) ∨
      ∃ op tick, phase.owed = some op ∧ phase'.owed = none ∧ tick.now ≤ shared.clock ∧
        writes shared.log = writes s.shared.log ++ [(op, tick)] := by
  have hhead : ∀ f : Force,
      (loopHead config s.shared.halfOpenPermits).owed ≠ some f.op := by
    intro f
    unfold loopHead
    split_ifs <;> simp [Phase.owed]
  cases h with
  | load => exact .inl ⟨rfl, .inr ⟨rfl, hhead⟩⟩
  | retry => exact .inl ⟨rfl, .inr ⟨rfl, hhead⟩⟩
  | finish hfinish =>
      refine .inl ⟨rfl, .inr ⟨rfl, fun f => ?_⟩⟩
      obtain ⟨answer, -, ⟨failed, rfl⟩ | rfl⟩ := finish_cases hfinish
      · simpa [Phase.owed] using recordOp_ne_force failed f
      · simp [Phase.owed]
  | @record permit failed answer tick hwrite =>
      refine .inr ⟨recordOp failed, tick, rfl, ?_, hwrite.2.2, writes_cons_wrote _ _ _ _ _ _⟩
      unfold afterRecord
      split <;> rfl
  | @force f prev tick hwrite =>
      refine .inr ⟨f.op, tick, rfl, ?_, hwrite.2.2, writes_cons_wrote _ _ _ _ _ _⟩
      unfold afterForce
      split <;> rfl
  | @release permit => cases permit <;> exact .inl ⟨rfl, .inl rfl⟩
  | _ => exact .inl ⟨rfl, .inl rfl⟩

theorem Acts.calling (h : Acts config s i phase a shared phase') (hphase : phase.calling = false) :
    phase'.calling = false := by
  cases h with
  | record =>
      unfold afterRecord
      split <;> rfl
  | force =>
      unfold afterForce
      split <;> rfl
  | announce => rfl
  | release => rfl
  | observe => rfl
  | _ => cases hphase

theorem calling_eq_false (hempty : start.tasks = []) (hmanual : .spawn Job.call ∉ actions)
    (hrun : Runs (Step config) start actions s) :
    ∀ phase ∈ s.tasks, phase.calling = false := by
  apply hrun.invariant (I := fun s => ∀ phase ∈ s.tasks, phase.calling = false)
    (by simp [hempty])
  intro s action s' hmem hall hstep
  rcases step_cases hstep with
    ⟨job, rfl, rfl⟩ | ⟨i, a, phase, shared, phase', -, hphase, hacts, rfl⟩
  · intro phase hin
    rcases List.mem_append.mp hin with hold | hlast
    · exact hall phase hold
    · rw [List.mem_singleton] at hlast
      subst hlast
      cases job with
      | call => exact absurd hmem hmanual
      | record failed => rfl
      | force f => rfl
  · intro other hin
    rcases List.mem_or_eq_of_mem_set hin with hold | rfl
    · exact hall other hold
    · exact hacts.calling (hall phase (List.mem_of_getElem? hphase))

def opsWritten (s : System ε) : List Op := (writes s.shared.log).map Prod.fst

/-- No update is lost: the writes made and the writes still owed are those of the jobs. -/
theorem written_add_owed {draw : Draw} (hnew : new config draw = some start)
    (hmanual : .spawn Job.call ∉ actions) (hrun : Runs (Step config) start actions s) (op : Op) :
    (opsWritten s).count op + s.tasks.countP (fun phase => phase.owed == some op) =
      (jobs actions).countP fun job => job.op == some op := by
  obtain ⟨state, -, rfl⟩ := Option.map_eq_some_iff.mp hnew
  induction hrun with
  | refl => rfl
  | @snoc s _ actions action hprefix hlast ih =>
      have hbefore := ih fun hmem => hmanual (List.mem_append_left _ hmem)
      rcases step_cases hlast with
        ⟨job, rfl, rfl⟩ | ⟨i, a, phase, shared, phase', rfl, hphase, hacts, rfl⟩
      · have howed : (Phase.start job : Phase ε).owed = job.op := by cases job <;> rfl
        rw [jobs_concat_spawn]
        simp only [List.countP_append, List.countP_singleton, howed]
        change (opsWritten s).count op + _ = _
        omega
      · have hcalling := calling_eq_false rfl
          (fun hmem => hmanual (List.mem_append_left _ hmem)) hprefix phase
          (List.mem_of_getElem? hphase)
        have hset := Pool.countP_set (fun phase : Phase ε => phase.owed == some op) hphase phase'
        rw [jobs_concat_act, ← hbefore]
        unfold opsWritten
        dsimp only
        rcases hacts.owed with
          ⟨hsame, howed | ⟨habsurd, -⟩⟩ | ⟨paid, tick, howed, hnone, -, hlog⟩
        · rw [hsame]
          rw [howed] at hset
          omega
        · rw [hcalling] at habsurd
          cases habsurd
        · rw [hlog, List.map_append, List.count_append]
          simp only [howed, hnone, Option.some_beq_some, Option.none_beq_some,
            Bool.toNat_false] at hset
          have hone : (List.map Prod.fst [(paid, tick)]).count op = (paid == op).toNat := by
            cases hpaid : paid == op <;> simp [List.count_singleton, hpaid]
          omega

theorem Reachable.now_le_clock (h : Reachable config s) :
    ∀ input ∈ writes s.shared.log, input.2.now ≤ s.shared.clock := by
  apply h.invariant
  · intro draw start hnew
    obtain ⟨state, -, rfl⟩ := Option.map_eq_some_iff.mp hnew
    simp [writes]
  · intro s action s' _ hall hstep
    have hclock := Step.clock_le hstep
    rcases step_cases hstep with
      ⟨job, -, rfl⟩ | ⟨i, a, phase, shared, phase', -, -, hacts, rfl⟩
    · exact hall
    · intro input hmem
      rcases hacts.owed with ⟨hsame, -⟩ | ⟨op, tick, -, -, hnow, hlog⟩
      · rw [hsame] at hmem
        exact (hall input hmem).trans hclock
      · rw [hlog] at hmem
        rcases List.mem_append.mp hmem with hold | hlast
        · exact (hall input hold).trans hclock
        · rw [List.mem_singleton] at hlast
          exact hlast ▸ hnow

/-! ## The harness of the model checker: an open circuit has seen enough failures -/

theorem ne_forceOpen (hempty : start.tasks = []) (hlog : start.shared.log = [])
    (hforce : .spawn (Job.force .trip) ∉ actions) (hrun : Runs (Step config) start actions s) :
    ∀ input ∈ writes s.shared.log, input.1 ≠ .forceOpen := by
  have hboth : (∀ phase ∈ s.tasks, phase.owed ≠ some .forceOpen) ∧
      ∀ input ∈ writes s.shared.log, input.1 ≠ .forceOpen := by
    apply hrun.invariant (I := fun s => (∀ phase ∈ s.tasks, phase.owed ≠ some .forceOpen) ∧
      ∀ input ∈ writes s.shared.log, input.1 ≠ .forceOpen) (by simp [hempty, hlog, writes])
    rintro s action s' hmem ⟨howed, hwritten⟩ hstep
    rcases step_cases hstep with
      ⟨job, rfl, rfl⟩ | ⟨i, a, phase, shared, phase', -, hphase, hacts, rfl⟩
    · refine ⟨fun phase hin => ?_, hwritten⟩
      rcases List.mem_append.mp hin with hold | hlast
      · exact howed phase hold
      · rw [List.mem_singleton] at hlast
        subst hlast
        cases job with
        | call => simp [Phase.start, Phase.owed]
        | record failed => cases failed <;> simp [Phase.start, Phase.owed, recordOp]
        | force f =>
            cases f with
            | trip => exact absurd hmem hforce
            | reset => simp [Phase.start, Phase.owed, Force.op]
    · have hbefore := howed phase (List.mem_of_getElem? hphase)
      have hafter : phase'.owed ≠ some .forceOpen ∧
          ∀ input ∈ writes shared.log, input.1 ≠ .forceOpen := by
        rcases hacts.owed with
          ⟨hsame, hkept | ⟨-, hnew⟩⟩ | ⟨op, tick, howed', hnone, -, hlog'⟩
        · rw [hkept, hsame]
          exact ⟨hbefore, hwritten⟩
        · rw [hsame]
          exact ⟨hnew .trip, hwritten⟩
        · rw [hnone, hlog']
          refine ⟨by simp, fun input hin => ?_⟩
          rcases List.mem_append.mp hin with hold | hlast
          · exact hwritten input hold
          · rw [List.mem_singleton] at hlast
            rintro hop
            rw [howed'] at hbefore
            exact hbefore (by rw [← hop, hlast])
      refine ⟨fun other hin => ?_, hafter.2⟩
      rcases List.mem_or_eq_of_mem_set hin with hold | rfl
      · exact howed other hold
      · exact hafter.1
  exact hboth.2

/--
An open circuit has seen enough failures.  Whatever calls, records and resets
are interleaved, and whenever it is read, a circuit that does not read as
`Closed` has counted at least the failures of the cheapest trip, unless `trip()`
was used; with the rate rule disabled these are `consecutiveFailures`.
-/
theorem open_after_failures (config : CircuitBreakerConfig arith ε) {draw : Draw}
    (hnew : new config draw = some start) (hrun : Runs (Step config) start actions s)
    (hforce : .spawn (Job.force .trip) ∉ actions) (now : Nat)
    (hopen : s.shared.state.currentAt now ≠ .closed) :
    config.tripCost ≤ s.shared.state.totalFailures ∧
      (config.failureRateThreshold = .finite 0 →
        config.consecutiveFailures ≤ s.shared.state.totalFailures) := by
  have hreplay := replay hnew hrun
  obtain ⟨state, hstate, rfl⟩ := Option.map_eq_some_iff.mp hnew
  have hpaid := StateMachine.tripCost_le_totalFailures hstate (ne_forceOpen rfl rfl hforce hrun)
    (by
      rw [← hreplay]
      exact fun hclosed => hopen (StateMachine.currentAt_closed_iff.mpr hclosed))
  rw [← hreplay] at hpaid
  refine ⟨hpaid, fun hzero => ?_⟩
  have hcost : config.tripCost = config.consecutiveFailures := by
    simp [CircuitBreakerConfig.tripCost, hzero]
  exact hcost ▸ hpaid

theorem open_after_failures_outage :
    hairTrigger.build.tripCost ≤ outage.shared.state.totalFailures :=
  (@open_after_failures _ _ _ outage outageRun hairTrigger.build 0 rfl (runs_of_execute rfl)
    (by simp [outageRun]) 0 (by decide)).1

/-! ## The models of the interleaving checker -/

theorem count_outcomes (inputs : List (Op × Tick)) (failed : Bool) :
    (inputs.flatMap fun input => input.1.outcome).count failed =
      (inputs.map Prod.fst).count (recordOp failed) := by
  induction inputs with
  | nil => rfl
  | cons input inputs ih =>
      obtain ⟨op, tick⟩ := input
      rw [List.flatMap_cons, List.count_append, ih, List.map_cons, List.count_cons, Nat.add_comm]
      congr 1
      cases op <;> cases failed <;> rfl

theorem total_eq_count {draw : Draw} (hnew : new config draw = some start)
    (hrun : Runs (Step config) start actions s) (failed : Bool) :
    s.shared.state.total failed = (opsWritten s).count (recordOp failed) := by
  rw [replay hnew hrun, StateMachine.runFrom_total, count_outcomes]
  obtain ⟨state, hstate, rfl⟩ := Option.map_eq_some_iff.mp hnew
  obtain ⟨wait, -, rfl⟩ := StateMachine.new_eq hstate
  cases failed <;> exact Nat.zero_add _

def written (s : System ε) : Nat := s.tasks.countP fun phase => phase.owed.isNone

theorem opsWritten_failures {draw : Draw} (hnew : new config draw = some start)
    (hjobs : ∀ job ∈ jobs actions, job = .record true)
    (hrun : Runs (Step config) start actions s) :
    opsWritten s = List.replicate (written s) .failure := by
  have hempty : start.tasks = [] := by
    obtain ⟨state, -, rfl⟩ := Option.map_eq_some_iff.mp hnew
    rfl
  have hmanual : .spawn Job.call ∉ actions := by
    intro hmem
    cases hjobs .call (mem_jobs.mpr hmem)
  have hother : ∀ op, op ≠ .failure → (opsWritten s).count op = 0 ∧
      s.tasks.countP (fun phase => phase.owed == some op) = 0 := by
    intro op hne
    have hcount := written_add_owed hnew hmanual hrun op
    have hnone : (jobs actions).countP (fun job => job.op == some op) = 0 := by
      rw [List.countP_eq_zero]
      intro job hmem
      rw [hjobs job hmem]
      simpa [Job.op, recordOp] using hne.symm
    omega
  have hall : ∀ op ∈ opsWritten s, op = .failure := by
    intro op hmem
    by_contra hne
    have hpos := List.count_pos_iff.mpr hmem
    have hzero := (hother op hne).1
    omega
  have howed : s.tasks.countP (fun phase => phase.owed == some .failure) =
      s.tasks.countP fun phase => decide ¬ phase.owed.isNone = true := by
    apply List.countP_congr
    intro phase hmem
    cases howed : phase.owed with
    | none => simp
    | some op =>
        have hop : op = .failure := by
          by_contra hne
          have hzero := List.countP_eq_zero.mp (hother op hne).2 phase hmem
          simp [howed] at hzero
        simp [hop]
  have hlength : (opsWritten s).length = written s := by
    have hcount := written_add_owed hnew hmanual hrun .failure
    have hjobs' : (jobs actions).countP (fun job => job.op == some .failure) = s.tasks.length := by
      rw [Pool.length_tasks hrun hempty, List.countP_eq_length]
      intro job hmem
      rw [hjobs job hmem]
      rfl
    have hall' : (opsWritten s).count .failure = (opsWritten s).length :=
      List.count_eq_length.mpr fun op hmem => (hall op hmem).symm
    have hsplit := List.length_eq_countP_add_countP (l := s.tasks)
      fun phase : Phase ε => phase.owed.isNone
    rw [← howed] at hsplit
    unfold written
    omega
  rw [← hlength]
  exact List.eq_replicate_iff.mpr ⟨rfl, hall⟩

/--
Concurrent failures trip the circuit exactly once, and none is lost.  However
many threads record a failure each, at any instant of any interleaving the
circuit has counted as many as have written, and every one of its window has
failed; it is closed below an exact number of writes, and for as long as the
first wait may last it is open after one transition from that number on.
-/
theorem concurrent_failures (b : CircuitBreakerConfigBuilder arith ε) {draw : Draw}
    (hnew : new b.build draw = some start) (hrun : Runs (Step b.build) start actions s)
    (hjobs : ∀ job ∈ jobs actions, job = .record true) :
    s.shared.state.totalFailures = written s ∧
    (0 < written s → s.shared.state.window.failureRate arith = .finite 1) ∧
    (written s < StateMachine.firstTrip b.build →
      s.shared.state.current = .closed ∧ s.shared.state.transitions = 0) ∧
    (StateMachine.BeforeFirstWait b.build s.shared.clock →
      StateMachine.firstTrip b.build ≤ written s →
      s.shared.state.current = .opened ∧ s.shared.state.transitions = 1) := by
  have hconfig := build_wellFormed b
  have hreach : Reachable b.build s := ⟨draw, start, hnew, actions, hrun⟩
  have hops := opsWritten_failures hnew hjobs hrun
  have htotal := total_eq_count hnew hrun true
  rw [hops, recordOp, if_pos rfl, List.count_replicate_self] at htotal
  have hlength : (writes s.shared.log).length = written s := by
    have hsame := congrArg List.length hops
    simpa [opsWritten] using hsame
  have hfailures : ∀ input ∈ writes s.shared.log, input.1 = .failure := by
    intro input hmem
    have hop : input.1 ∈ opsWritten s := List.mem_map_of_mem hmem
    rw [hops] at hop
    exact List.eq_of_mem_replicate hop
  have hreplay := replay hnew hrun
  obtain ⟨state, hstate, rfl⟩ := Option.map_eq_some_iff.mp hnew
  have hall := StateMachine.allFailed_run hconfig hstate hfailures
  have hrow : (StateMachine.firstTrip b.build ≤ written s →
      StateMachine.BeforeFirstWait b.build s.shared.clock) →
      StateMachine.Row b.build (written s) s.shared.state := by
    intro hclock
    rw [hreplay, ← hlength]
    refine StateMachine.Row.run hconfig hstate hfailures fun hle input hmem draw wait hwait => ?_
    exact (hreach.now_le_clock input hmem).trans_lt (hclock (hlength ▸ hle) draw wait hwait)
  rw [← hreplay, hlength] at hall
  refine ⟨htotal, fun hpos => hall.failureRate hpos arith, fun hlt => ?_, fun hclock hle => ?_⟩
  · cases hrow fun hle => absurd hlt (not_lt.mpr hle) with
    | counting _ htransitions hwatching => exact ⟨hwatching.current, htransitions⟩
    | tripped hle => exact absurd hlt (not_lt.mpr hle)
  · cases hrow fun _ => hclock with
    | counting hlt => exact absurd hle (not_le.mpr hlt)
    | tripped _ htransitions hopen => exact ⟨hopen, htransitions⟩

/-- The configuration of the models: no rate rule, and a wait that does not end. -/
def deterministicConfig (failureThreshold : UInt32) : CircuitBreakerConfigBuilder .single Unit :=
  ((({} : CircuitBreakerConfigBuilder .single Unit).setConsecutiveFailures failureThreshold)
    |>.setFailureRateThreshold (.finite 0)).setWaitDuration (Duration.fromSecs 3600)

theorem deterministicConfig_beforeFirstWait (failureThreshold : UInt32) {now : Nat}
    (hnow : now < 3600 * 10 ^ 9) :
    StateMachine.BeforeFirstWait (deterministicConfig failureThreshold).build now := by
  intro draw wait hwait
  cases hwait
  exact hnow

theorem concurrent_failures_two :
    ∃ (actions : List (PoolAction Job (TaskAction Unit))) (start s : System Unit),
      new (deterministicConfig 2).build 0 = some start ∧
      Runs (Step (deterministicConfig 2).build) start actions s ∧
      s.shared.state.current = .opened ∧ s.shared.state.transitions = 1 := by
  have hrun : ∃ s, execute (Pool.step Phase.start (act (deterministicConfig 2).build))
      { shared := ⟨StateMachine.fresh (deterministicConfig 2).build (Duration.fromSecs 3600), 0, 0,
          []⟩, tasks := [] }
      [.spawn (.record true), .spawn (.record true), .act 0 (.record ⟨0, 0, 0⟩),
        .act 1 (.record ⟨1, 1, 0⟩)] = some s ∧ written s = 2 ∧ s.shared.clock = 1 :=
    ⟨_, rfl, rfl, rfl⟩
  obtain ⟨s, hexecute, hwritten, hclock⟩ := hrun
  obtain ⟨-, -, -, htripped⟩ := @concurrent_failures _ _ _ s _ (deterministicConfig 2) 0 rfl
    (runs_of_execute hexecute) (by simp [jobs, spawned])
  exact ⟨_, _, s, rfl, runs_of_execute hexecute,
    htripped (deterministicConfig_beforeFirstWait 2 (by rw [hclock]; norm_num))
      (by rw [hwritten]; decide)⟩

theorem countP_op (started : List Job) (job : Job) (op : Op) (hop : job.op = some op) :
    (started.countP fun other => other.op == some op) = started.count job := by
  apply List.countP_congr
  intro other _
  rw [← hop]
  rcases job with _ | (_ | _) | (_ | _)
  · cases hop
  all_goals rcases other with _ | (_ | _) | (_ | _) <;> simp [Job.op, recordOp, Force.op]

/--
No record that is concurrent with `trip()` is lost, at any instant.  One `trip()`
leaves the circuit `Open` after exactly one transition, from the instant at which
it has written: unless there are failures enough for a trip of their own, and for
as long as the first wait may last.
-/
theorem concurrent_trip (b : CircuitBreakerConfigBuilder arith ε) {draw : Draw}
    (hnew : new b.build draw = some start) (hrun : Runs (Step b.build) start actions s)
    (hjobs : ∀ job ∈ jobs actions, job = .force .trip ∨ ∃ failed, job = .record failed) :
    (∀ failed, s.shared.state.total failed +
        s.tasks.countP (fun phase => phase.owed == some (recordOp failed)) =
      (jobs actions).count (.record failed)) ∧
    ((jobs actions).count (.force .trip) = 1 →
      (jobs actions).count (.record true) < b.build.tripCost →
      (∀ phase ∈ s.tasks, phase.owed ≠ some .forceOpen) →
      StateMachine.BeforeFirstWait b.build s.shared.clock →
      s.shared.state.current = .opened ∧ s.shared.state.transitions = 1) := by
  have hreach : Reachable b.build s := ⟨draw, start, hnew, actions, hrun⟩
  have hmanual : .spawn Job.call ∉ actions := by
    intro hmem
    rcases hjobs .call (mem_jobs.mpr hmem) with hcall | ⟨failed, hcall⟩ <;> cases hcall
  have htotals : ∀ failed, s.shared.state.total failed +
      s.tasks.countP (fun phase => phase.owed == some (recordOp failed)) =
        (jobs actions).count (.record failed) := by
    intro failed
    rw [total_eq_count hnew hrun, written_add_owed hnew hmanual hrun]
    exact countP_op (jobs actions) (.record failed) (recordOp failed) rfl
  refine ⟨htotals, fun honce hfew hwritten hclock => ?_⟩
  have hopens : (opsWritten s).count .forceOpen = 1 := by
    have hcount := written_add_owed hnew hmanual hrun .forceOpen
    have hnone : s.tasks.countP (fun phase => phase.owed == some .forceOpen) = 0 :=
      List.countP_eq_zero.mpr fun phase hmem => by simpa using hwritten phase hmem
    rw [hnone, countP_op (jobs actions) (.force .trip) .forceOpen rfl, honce] at hcount
    exact hcount
  have hcloses : (opsWritten s).count .forceClosed = 0 := by
    have hcount := written_add_owed hnew hmanual hrun .forceClosed
    have hnone : (jobs actions).count (.force .reset) = 0 := by
      rw [List.count_eq_zero]
      intro hmem
      rcases hjobs _ hmem with hreset | ⟨failed, hreset⟩ <;> cases hreset
    rw [countP_op (jobs actions) (.force .reset) .forceClosed rfl, hnone] at hcount
    omega
  -- The trip splits the records into those before it and those after it.
  obtain ⟨⟨_, tick⟩, hmem, rfl⟩ := List.mem_map.mp (List.count_pos_iff.mp (hopens ▸ Nat.one_pos))
  obtain ⟨before, after, hsplit⟩ := List.append_of_mem hmem
  have hops : opsWritten s = before.map Prod.fst ++ .forceOpen :: after.map Prod.fst := by
    rw [opsWritten, hsplit, List.map_append, List.map_cons]
  have hrecords : ∀ part : List (Op × Tick), (part.map Prod.fst).count .forceOpen = 0 →
      (part.map Prod.fst).count .forceClosed = 0 → ∀ input ∈ part, input.1.outcome ≠ [] := by
    rintro part hopen hclose ⟨op, tick⟩ hin
    have hop : op ∈ part.map Prod.fst := List.mem_map_of_mem hin
    cases op with
    | success => simp [Op.outcome]
    | failure => simp [Op.outcome]
    | forceOpen => exact absurd hop (List.count_eq_zero.mp hopen)
    | forceClosed => exact absurd hop (List.count_eq_zero.mp hclose)
  have hfailures := htotals true
  rw [total_eq_count hnew hrun] at hfailures
  rw [hops, List.count_append, List.count_cons_self] at hopens
  rw [hops, List.count_append, List.count_cons_of_ne (by simp)] at hcloses
  rw [hops, List.count_append] at hfailures
  have hreplay := replay hnew hrun
  obtain ⟨state, hstate, rfl⟩ := Option.map_eq_some_iff.mp hnew
  rw [hsplit] at hreplay
  have hforced := StateMachine.forced_once (build_wellFormed b) hstate tick
    (hrecords before (by omega) (by omega)) (hrecords after (by omega) (by omega))
    (by rw [count_outcomes]; omega) fun input hin draw wait hwait => by
      have hnow := hreach.now_le_clock input (by rw [hsplit]; simp [hin])
      exact hnow.trans_lt (hclock draw wait hwait)
  rwa [← hreplay] at hforced

theorem concurrent_trip_success :
    ∃ (actions : List (PoolAction Job (TaskAction Unit))) (start s : System Unit),
      new (deterministicConfig 10).build 0 = some start ∧
      Runs (Step (deterministicConfig 10).build) start actions s ∧
      s.shared.state.current = .opened ∧ s.shared.state.transitions = 1 := by
  have hrun : ∃ s, execute (Pool.step Phase.start (act (deterministicConfig 10).build))
      { shared := ⟨StateMachine.fresh (deterministicConfig 10).build (Duration.fromSecs 3600), 0, 0,
          []⟩, tasks := [] }
      [.spawn (.record false), .spawn (.force .trip), .act 1 (.observe 0),
        .act 1 (.force ⟨0, 0, 0⟩), .act 0 (.record ⟨1, 1, 0⟩)] = some s ∧
      (∀ phase ∈ s.tasks, phase.owed ≠ some .forceOpen) ∧ s.shared.clock = 1 :=
    ⟨_, rfl, by decide, rfl⟩
  obtain ⟨s, hexecute, howed, hclock⟩ := hrun
  obtain ⟨-, htripped⟩ := @concurrent_trip _ _ _ s _ (deterministicConfig 10) 0 rfl
    (runs_of_execute hexecute) (by simp [jobs, spawned])
  exact ⟨_, _, s, rfl, runs_of_execute hexecute, htripped (by decide) (by decide) howed
    (deterministicConfig_beforeFirstWait 10 (by rw [hclock]; norm_num))⟩

end System

end Breaker
