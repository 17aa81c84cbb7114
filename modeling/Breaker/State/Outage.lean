import Breaker.State.Reachable

/-!
# The lifecycle of one outage

An outage starts when a machine enters `Open`.  `OutageLaw` says what a sequence
of recorded outcomes makes of it: nothing before the deadline, then a recovery
after `successThreshold` successes or a trip at the first failure.  The code
meets the law unless the trip out of `HalfOpen` has to compute a wait that
panics, which `WaitsComputed` rules out.
-/

namespace Breaker

open Foundation

universe u

variable {arith : RateArithmetic} {ε : Type u}

namespace StateMachine

def SameButTotals (s t : StateMachine) : Prop :=
  t = { s with totalSuccesses := t.totalSuccesses, totalFailures := t.totalFailures }

def counted (s : StateMachine) (inputs : List (Bool × Tick)) : StateMachine :=
  { s with
    totalSuccesses := s.totalSuccesses + inputs.countP fun input => !input.1
    totalFailures := s.totalFailures + inputs.countP fun input => input.1 }

def early (deadline : Nat) (inputs : List (Bool × Tick)) : List (Bool × Tick) :=
  inputs.filter fun input => input.2.now < deadline

def late (deadline : Nat) (inputs : List (Bool × Tick)) : List (Bool × Tick) :=
  inputs.filter fun input => deadline ≤ input.2.now

def Successes (inputs : List (Bool × Tick)) : Prop := ∀ input ∈ inputs, input.1 = false

variable (config : CircuitBreakerConfig arith ε)

/-- Recording the inputs returns no pair and does not unwind. -/
def Quiet (s : StateMachine) (inputs : List (Bool × Tick)) : Prop :=
  ∀ step ∈ trace (record config) s inputs, step.2 = .ok none

/--
The law of the outage of `s`, an `Open` machine whose wait ends at `deadline`,
for the outcomes `inputs`.
-/
structure OutageLaw (s : StateMachine) (deadline : Nat) (inputs : List (Bool × Tick)) :
    Prop where
  /-- The early inputs come first. -/
  splits : early deadline inputs ++ late deadline inputs = inputs
  /-- Before the deadline each input adds to its lifetime total, and nothing else changes. -/
  waits : ∀ first, first <+: early deadline inputs →
    Quiet config s first ∧ runFrom (record config) s first = s.counted first
  /-- Enough successes from the deadline on close the circuit. -/
  recovers : ∀ probes last rest, late deadline inputs = probes ++ last :: rest →
    probes.length + 1 = config.successThreshold → Successes (probes ++ [last]) →
    Quiet config (runFrom (record config) s (early deadline inputs)) probes ∧
      ∃ s', record config (runFrom (record config) s (early deadline inputs ++ probes)) last =
          (s', .ok (some (.halfOpen, .closed))) ∧
        s'.current = .closed ∧ s'.window = s.window.clear ∧ s'.openAttempts = 0
  /-- A failure before that many successes opens it again, one attempt later. -/
  retrips : ∀ probes failure rest, late deadline inputs = probes ++ failure :: rest →
    probes.length < config.successThreshold → Successes probes → failure.1 = true →
    Quiet config (runFrom (record config) s (early deadline inputs)) probes ∧
      ∃ s', record config (runFrom (record config) s (early deadline inputs ++ probes)) failure =
          (s', .ok (some (.halfOpen, .opened))) ∧
        s'.current = .opened ∧ s'.openAttempts = saturatingSucc s.openAttempts ∧
        s'.window = s.window ∧ s'.openSince = some failure.2.stamp
  /-- Fewer successes and no failure leave it probing. -/
  probes : (late deadline inputs).length < config.successThreshold →
    Successes (late deadline inputs) →
    Quiet config (runFrom (record config) s (early deadline inputs)) (late deadline inputs) ∧
      ∀ now, deadline ≤ now →
        (runFrom (record config) s (early deadline inputs ++ late deadline inputs)).currentAt now =
          .halfOpen

def WaitsComputed (s : StateMachine) (deadline : Nat) (inputs : List (Bool × Tick)) : Prop :=
  ∀ probes failure rest, late deadline inputs = probes ++ failure :: rest →
    probes.length < config.successThreshold → Successes probes → failure.1 = true →
    (s.nextWait config failure.2).isSome

variable {s t : StateMachine} {deadline : Nat}

/-! ## Before the deadline -/

theorem SameButTotals.refl (s : StateMachine) : SameButTotals s s := rfl

theorem SameButTotals.trans {u : StateMachine} (h : SameButTotals s t) (h' : SameButTotals t u) :
    SameButTotals s u := by
  rw [SameButTotals, h', h]

theorem SameButTotals.due (h : SameButTotals s t) (now : Nat) : t.Due now ↔ s.Due now := by
  rw [h]
  exact Iff.rfl

theorem SameButTotals.countSuccess (h : SameButTotals s t) : SameButTotals s t.countSuccess := by
  rw [h]
  rfl

theorem SameButTotals.countFailure (h : SameButTotals s t) : SameButTotals s t.countFailure := by
  rw [h]
  rfl

theorem quiet_cons {input : Bool × Tick} {inputs : List (Bool × Tick)} :
    Quiet config s (input :: inputs) ↔
      (record config s input).2 = .ok none ∧ Quiet config (record config s input).1 inputs := by
  rw [Quiet, trace_cons, List.forall_mem_cons, Quiet]

theorem record_waiting (hopen : t.current = .opened) {input : Bool × Tick}
    (hdue : ¬ t.Due input.2.now) :
    record config t input =
      (if input.1 then t.countFailure else t.countSuccess, .ok none) := by
  obtain ⟨failed, tick⟩ := input
  cases failed with
  | false =>
      have hcounted : t.countSuccess.current = .opened := hopen
      simp [record, recordSuccess, maybeTransitionToHalfOpen_of_not_due
        (mt countSuccess_due.mp hdue), settleSuccess_opened hcounted]
  | true =>
      have hcounted : t.countFailure.current = .opened := hopen
      simp [record, recordFailure, maybeTransitionToHalfOpen_of_not_due
        (mt countFailure_due.mp hdue), settleFailure_opened hcounted]

theorem run_waiting (hopen : s.current = .opened) {inputs : List (Bool × Tick)}
    (hdue : ∀ input ∈ inputs, ¬ s.Due input.2.now) :
    Quiet config s inputs ∧ runFrom (record config) s inputs = s.counted inputs := by
  induction inputs generalizing s with
  | nil => exact ⟨by simp [Quiet], by simp [counted]⟩
  | cons input inputs ih =>
      have hstep := record_waiting config hopen (hdue input (by simp))
      obtain ⟨failed, tick⟩ := input
      have hcurrent : (record config s (failed, tick)).1.current = .opened := by
        rw [hstep]
        cases failed <;> exact hopen
      have hsame : ∀ now, (record config s (failed, tick)).1.Due now ↔ s.Due now := by
        intro now
        rw [hstep]
        cases failed <;> exact Iff.rfl
      obtain ⟨hquiet, hrun⟩ := ih hcurrent fun input hinput => by
        rw [hsame]
        exact hdue input (by simp [hinput])
      refine ⟨(quiet_cons config).mpr ⟨by rw [hstep], hquiet⟩, ?_⟩
      rw [runFrom_cons, hrun, hstep]
      cases failed <;> simp [counted, countSuccess, countFailure, Nat.add_assoc, Nat.add_comm]

theorem sameButTotals_counted (s : StateMachine) (inputs : List (Bool × Tick)) :
    SameButTotals s (s.counted inputs) := rfl

/-! ## From the deadline on -/

/--
`t` has recorded `k` successes since the end of the wait of `s`, whether or not
the upgrade to `HalfOpen` has been applied yet.
-/
def Probing (s : StateMachine) (deadline k : Nat) (t : StateMachine) : Prop :=
  ∀ now, deadline ≤ now →
    (t.maybeTransitionToHalfOpen now).current = .halfOpen ∧
    (t.maybeTransitionToHalfOpen now).successCount = k ∧
    (t.maybeTransitionToHalfOpen now).openAttempts = s.openAttempts ∧
    (t.maybeTransitionToHalfOpen now).window = s.window

theorem SameButTotals.probing (hsame : SameButTotals s t)
    (hdue : ∀ now, deadline ≤ now → s.Due now) : Probing s deadline 0 t := by
  intro now hnow
  rw [maybeTransitionToHalfOpen_of_due ((hsame.due now).mpr (hdue now hnow)), hsame]
  exact ⟨rfl, rfl, rfl, rfl⟩

theorem probing_of_halfOpen {k : Nat} (hcurrent : t.current = .halfOpen)
    (hcount : t.successCount = k) (hattempts : t.openAttempts = s.openAttempts)
    (hwindow : t.window = s.window) : Probing s deadline k t := by
  intro now _
  rw [maybeTransitionToHalfOpen_of_not_due fun hdue => by simp [hdue.1] at hcurrent]
  exact ⟨hcurrent, hcount, hattempts, hwindow⟩

theorem Probing.success {k : Nat} (h : Probing s deadline k t) {input : Bool × Tick}
    (hsuccess : input.1 = false) (hnow : deadline ≤ input.2.now)
    (hlt : k + 1 < config.successThreshold) :
    (record config t input).2 = .ok none ∧
      Probing s deadline (k + 1) (record config t input).1 := by
  obtain ⟨hcurrent, hcount, hattempts, hwindow⟩ := h _ hnow
  have hstep : record config t input =
      ({ (t.maybeTransitionToHalfOpen input.2.now).countSuccess with
          successCount := (t.maybeTransitionToHalfOpen input.2.now).successCount + 1 },
        .ok none) := by
    simp only [record, hsuccess, Bool.false_eq_true, ↓reduceIte, recordSuccess,
      countSuccess_maybeTransition]
    exact settleSuccess_halfOpen_lt hcurrent (by simpa [countSuccess, hcount] using hlt)
  rw [hstep]
  exact ⟨rfl, probing_of_halfOpen hcurrent (by simp [hcount]) hattempts hwindow⟩

theorem Probing.last_success {k : Nat} (h : Probing s deadline k t) {input : Bool × Tick}
    (hsuccess : input.1 = false) (hnow : deadline ≤ input.2.now)
    (hge : config.successThreshold ≤ k + 1) :
    record config t input =
      ((t.maybeTransitionToHalfOpen input.2.now).countSuccess.recovered,
        .ok (some (.halfOpen, .closed))) := by
  obtain ⟨hcurrent, hcount, -, -⟩ := h _ hnow
  simp only [record, hsuccess, Bool.false_eq_true, ↓reduceIte, recordSuccess,
    countSuccess_maybeTransition]
  exact settleSuccess_halfOpen_ge hcurrent (by simpa [countSuccess, hcount] using hge)

theorem Probing.failure {k : Nat} (h : Probing s deadline k t) {input : Bool × Tick}
    (hfailure : input.1 = true) (hnow : deadline ≤ input.2.now) :
    ∃ wait, record config t input =
      ((t.maybeTransitionToHalfOpen input.2.now).countFailure.tripped input.2.stamp wait,
        s.tripReport config input.2 .halfOpen) := by
  obtain ⟨hcurrent, -, hattempts, -⟩ := h _ hnow
  have hcurrent' : (t.maybeTransitionToHalfOpen input.2.now).countFailure.current = .halfOpen :=
    hcurrent
  obtain ⟨wait, heq⟩ := transitionFrom_opened config input.2
    (t.maybeTransitionToHalfOpen input.2.now).countFailure .halfOpen
  refine ⟨wait, ?_⟩
  simp only [record, hfailure, ↓reduceIte, recordFailure, countFailure_maybeTransition]
  rw [settleFailure_halfOpen hcurrent', heq]
  simp only [tripReport, nextWait, countFailure, hattempts]

theorem Probing.run {k : Nat} (h : Probing s deadline k t) {inputs : List (Bool × Tick)}
    (hsuccess : Successes inputs) (hnow : ∀ input ∈ inputs, deadline ≤ input.2.now)
    (hlt : k + inputs.length < config.successThreshold) :
    Quiet config t inputs ∧
      Probing s deadline (k + inputs.length) (runFrom (record config) t inputs) := by
  induction inputs generalizing t k with
  | nil => exact ⟨by simp [Quiet], by simpa using h⟩
  | cons input inputs ih =>
      rw [List.length_cons] at hlt ⊢
      have hstep := h.success config (hsuccess input (by simp))
        (hnow input (by simp)) (by omega)
      have htail := ih hstep.2 (fun input hinput => hsuccess input (by simp [hinput]))
        (fun input hinput => hnow input (by simp [hinput])) (by omega)
      refine ⟨(quiet_cons config).mpr ⟨hstep.1, htail.1⟩, ?_⟩
      rw [runFrom_cons, show k + (inputs.length + 1) = k + 1 + inputs.length by omega]
      exact htail.2

theorem Probing.recovers (h : Probing s deadline 0 t) {probes : List (Bool × Tick)}
    {last : Bool × Tick} (hlength : probes.length + 1 = config.successThreshold)
    (hsuccess : Successes (probes ++ [last]))
    (hnow : ∀ input ∈ probes ++ [last], deadline ≤ input.2.now) :
    Quiet config t probes ∧
      ∃ s', record config (runFrom (record config) t probes) last =
          (s', .ok (some (.halfOpen, .closed))) ∧
        s'.current = .closed ∧ s'.window = s.window.clear ∧ s'.openAttempts = 0 := by
  have hprobes : Successes probes := fun input hinput => hsuccess input (by simp [hinput])
  have hrun := h.run config hprobes
    (fun input hinput => hnow input (by simp [hinput])) (by omega)
  have hlast := hnow last (by simp)
  have hstep := hrun.2.last_success config (hsuccess last (by simp)) hlast (by omega)
  exact ⟨hrun.1, _, hstep, rfl, congrArg Window.clear (hrun.2 _ hlast).2.2.2, rfl⟩

theorem Probing.first_failure (h : Probing s deadline 0 t) {probes : List (Bool × Tick)}
    {failure : Bool × Tick} (hlength : probes.length < config.successThreshold)
    (hsuccess : Successes probes) (hfailure : failure.1 = true)
    (hnow : ∀ input ∈ probes ++ [failure], deadline ≤ input.2.now) :
    Quiet config t probes ∧
      ∃ s', record config (runFrom (record config) t probes) failure =
          (s', s.tripReport config failure.2 .halfOpen) ∧
        s'.current = .opened ∧ s'.openAttempts = saturatingSucc s.openAttempts ∧
        s'.window = s.window ∧ s'.openSince = some failure.2.stamp := by
  have hrun := h.run config hsuccess
    (fun input hinput => hnow input (by simp [hinput])) (by omega)
  have hlast := hnow failure (by simp)
  obtain ⟨wait, hstep⟩ := hrun.2.failure config hfailure hlast
  obtain ⟨-, -, hattempts, hwindow⟩ := hrun.2 _ hlast
  exact ⟨hrun.1, _, hstep, rfl, congrArg saturatingSucc hattempts, hwindow, rfl⟩

theorem tripReport_eq_ok_iff (tick : Tick) (prev : State) :
    s.tripReport config tick prev = .ok (some (prev, .opened)) ↔
      (s.nextWait config tick).isSome := by
  unfold tripReport
  cases s.nextWait config tick <;> simp

/-! ## The law and its condition -/

theorem early_append_late {since : Nat} {inputs : List (Bool × Tick)}
    (h : Tick.OrderedFrom since (inputs.map Prod.snd)) (deadline : Nat) :
    early deadline inputs ++ late deadline inputs = inputs := by
  have hsorted := h.pairwise
  rw [List.pairwise_map] at hsorted
  obtain ⟨hearly, hlate⟩ := filter_eq_takeWhile hsorted deadline
  rw [early, late, hearly, hlate, List.takeWhile_append_dropWhile]

/--
For a machine that has been `Open` since `since`, in particular one that has
just entered `Open`, and for readings of a clock that goes on from there, the
law of the outage holds exactly when the wait of the re-trip can be computed.
-/
theorem outageLaw_iff_waitsComputed {since : Nat} (hopen : s.current = .opened)
    (hsince : s.openSince = some since) {inputs : List (Bool × Tick)}
    (hordered : Tick.OrderedFrom since (inputs.map Prod.snd)) :
    OutageLaw config s (since + s.waitDuration.nanos) inputs ↔
      WaitsComputed config s (since + s.waitDuration.nanos) inputs := by
  generalize hdeadline : since + s.waitDuration.nanos = deadline
  have hstart : ∀ input ∈ inputs, since ≤ input.2.now := fun input hinput =>
    hordered.le_now input.2 (List.mem_map_of_mem hinput)
  have hwaiting : ∀ input ∈ early deadline inputs, ¬ s.Due input.2.now := by
    intro input hinput
    obtain ⟨hmem, hlt⟩ := List.mem_filter.mp hinput
    rw [due_iff hopen hsince (hstart input hmem), hdeadline]
    simpa using hlt
  have hdue : ∀ now, deadline ≤ now → s.Due now := fun now hnow =>
    (due_iff hopen hsince (by omega)).mpr (by omega)
  have hearly := run_waiting config hopen hwaiting
  have hprobing : Probing s deadline 0 (runFrom (record config) s (early deadline inputs)) := by
    rw [hearly.2]
    exact (sameButTotals_counted s _).probing hdue
  have hlate : ∀ input ∈ late deadline inputs, deadline ≤ input.2.now := fun input hinput => by
    simpa using (List.mem_filter.mp hinput).2
  have hfirst : ∀ probes failure rest, late deadline inputs = probes ++ failure :: rest →
      ∀ input ∈ probes ++ [failure], deadline ≤ input.2.now := by
    intro probes failure rest hsplit input hinput
    rw [hsplit] at hlate
    apply hlate
    rw [List.append_cons]
    exact List.mem_append_left _ hinput
  constructor
  · -- The first late failure reports the pair only if its wait can be computed.
    intro hlaw probes failure rest hsplit hlength hsuccess hfailure
    obtain ⟨-, s', hstep, -⟩ := hlaw.retrips probes failure rest hsplit hlength hsuccess hfailure
    obtain ⟨-, t', hreport, -⟩ :=
      hprobing.first_failure config hlength hsuccess hfailure (hfirst probes failure rest hsplit)
    rw [runFrom_append, hreport] at hstep
    exact (tripReport_eq_ok_iff config failure.2 .halfOpen).mp (congrArg Prod.snd hstep)
  · intro hcomputed
    refine ⟨early_append_late hordered deadline,
      fun first hfirst => run_waiting config hopen fun input hinput =>
        hwaiting input (hfirst.subset hinput),
      ?_, ?_, ?_⟩
    · intro probes last rest hsplit hlength hsuccess
      rw [runFrom_append]
      exact hprobing.recovers config hlength hsuccess (hfirst probes last rest hsplit)
    · intro probes failure rest hsplit hlength hsuccess hfailure
      have hwait := hcomputed probes failure rest hsplit hlength hsuccess hfailure
      have hstep :=
        hprobing.first_failure config hlength hsuccess hfailure (hfirst probes failure rest hsplit)
      rw [(tripReport_eq_ok_iff config failure.2 .halfOpen).mpr hwait] at hstep
      rw [runFrom_append]
      exact hstep
    · intro hlength hsuccess
      have hrun := hprobing.run config hsuccess hlate (by omega)
      refine ⟨hrun.1, fun now hnow => ?_⟩
      rw [runFrom_append, currentAt_eq]
      exact (hrun.2 now hnow).1

/-! ## Entering `Open` -/

inductive EntersOpen : Nat → StateMachine → Prop
  | recorded {s : StateMachine} {tick : Tick} : Reachable config s →
      (s.recordFailure config tick).2 ≠ .ok none →
      EntersOpen tick.stamp (s.recordFailure config tick).1
  | forced {s : StateMachine} {tick : Tick} : Reachable config s →
      EntersOpen tick.stamp (s.forceOpen config tick).1

theorem recordFailure_enters {tick : Tick} (h : (s.recordFailure config tick).2 ≠ .ok none) :
    ∃ (t : StateMachine) (wait : Duration), (s.recordFailure config tick).1 =
      t.tripped tick.stamp wait := by
  unfold recordFailure at h ⊢
  generalize s.countFailure.maybeTransitionToHalfOpen tick.now = t at h ⊢
  cases hcurrent : t.current with
  | opened => simp [settleFailure_opened hcurrent] at h
  | halfOpen =>
      obtain ⟨wait, heq⟩ := transitionFrom_opened config tick t .halfOpen
      exact ⟨t, wait, by rw [settleFailure_halfOpen hcurrent, heq]⟩
  | closed =>
      cases htrip : t.failed.shouldTrip config with
      | false => simp [settleFailure_closed_stay hcurrent htrip] at h
      | true =>
          obtain ⟨wait, heq⟩ := transitionFrom_opened config tick t.failed .closed
          exact ⟨t.failed, wait, by rw [settleFailure_closed_trip hcurrent htrip, heq]⟩

theorem EntersOpen.opened {since : Nat} (h : EntersOpen config since s) :
    s.current = .opened ∧ s.openSince = some since := by
  cases h with
  | recorded hreach hresult =>
      obtain ⟨t, wait, heq⟩ := recordFailure_enters config hresult
      rw [heq]
      exact ⟨rfl, rfl⟩
  | @forced t tick hreach =>
      obtain ⟨wait, heq⟩ := transition_opened_cases config tick t
      rw [forceOpen, heq]
      exact ⟨rfl, rfl⟩

/--
An outage that starts at `since` follows its law if and only if the wait of the
trip out of `HalfOpen` can be computed.
-/
theorem outage_lifecycle (b : CircuitBreakerConfigBuilder arith ε) {since : Nat}
    (h : EntersOpen b.build since s) {inputs : List (Bool × Tick)}
    (hordered : Tick.OrderedFrom since (inputs.map Prod.snd)) :
    OutageLaw b.build s (since + s.waitDuration.nanos) inputs ↔
      WaitsComputed b.build s (since + s.waitDuration.nanos) inputs :=
  outageLaw_iff_waitsComputed b.build h.opened.1 h.opened.2 hordered

def doubleProbe : CircuitBreakerConfigBuilder .single Unit :=
  { hairTrigger with successThreshold := some 2 }

def failedProbe : List (Bool × Tick) :=
  [(false, ⟨0, 0, 0⟩), (true, ⟨0, 0, 0⟩), (false, ⟨1, 1, 0⟩), (true, ⟨2, 2, 0⟩)]

theorem outage_lifecycle_failedProbe :
    ∃ s, EntersOpen doubleProbe.build 0 s ∧
      OutageLaw doubleProbe.build s (0 + s.waitDuration.nanos) failedProbe := by
  have henters : EntersOpen doubleProbe.build 0
      ((fresh doubleProbe.build (.fromNanos 1)).recordFailure doubleProbe.build ⟨0, 0, 0⟩).1 :=
    @EntersOpen.recorded _ _ _ _ ⟨0, 0, 0⟩ ⟨0, _, rfl, .refl _⟩ (by decide +kernel)
  refine ⟨_, henters, (outage_lifecycle doubleProbe henters ?_).mpr ?_⟩
  · simp [failedProbe, Tick.OrderedFrom]
  · exact fun _ _ _ _ _ _ _ => rfl

/-- The cap of this backoff reads back as `2 ^ 64` seconds; its second wait reaches the cap. -/
def overlongWait : CircuitBreakerConfigBuilder .single Unit :=
  hairTrigger.setBackoff (.exponential (.fromNanos 1) .maxValue (.finite (10 ^ 30)))

def overlongOutage : StateMachine :=
  ((fresh overlongWait.build (.fromNanos 1)).recordFailure overlongWait.build ⟨0, 0, 0⟩).1

theorem overlongOutage_enters : EntersOpen overlongWait.build 0 overlongOutage := by
  have hnew : new overlongWait.build 0 = some (fresh overlongWait.build (.fromNanos 1)) := by
    decide +kernel
  exact @EntersOpen.recorded _ _ _ _ ⟨0, 0, 0⟩ ⟨0, _, hnew, .refl _⟩ (by decide +kernel)

/-- The re-trip of `overlongOutage` unwinds. -/
theorem outage_lifecycle_overlongWait :
    ¬ ∀ (b : CircuitBreakerConfigBuilder .single Unit) (since : Nat) (s : StateMachine)
      (inputs : List (Bool × Tick)), EntersOpen b.build since s →
      Tick.OrderedFrom since (inputs.map Prod.snd) →
      OutageLaw b.build s (since + s.waitDuration.nanos) inputs := by
  intro hlaw
  have hordered : Tick.OrderedFrom 0 ([(true, ⟨1, 1, 0⟩)].map Prod.snd) := by
    simp [Tick.OrderedFrom]
  have hcomputed := (outageLaw_iff_waitsComputed overlongWait.build
    overlongOutage_enters.opened.1 overlongOutage_enters.opened.2 hordered).mp
    (hlaw overlongWait 0 overlongOutage _ overlongOutage_enters hordered)
  have hwait := hcomputed [] (true, ⟨1, 1, 0⟩) [] (by decide +kernel) (by decide)
    (by simp [Successes]) rfl
  exact absurd hwait (by decide +kernel)

end StateMachine

end Breaker
