import Breaker.Foundation.Deferred
import Breaker.State.Unwinding
import Breaker.Tasks.Snapshots

/-!
# The `metrics` feature across tasks

With the feature a task emits to a recorder between its write-locked section and
its callback, one counter, gauge or histogram at a time, while the other tasks
run.  The two histograms of a failure are read under one read lock, and a
rejection is counted before the lock of the admission check is given back; no
write-locked section runs in between.
-/

namespace Breaker

open Foundation

universe u

variable {arith : RateArithmetic} {ε : Type u}

inductive Emission where
  | success
  | failure
  | failureRate
  | failureCount
  | rejected
  | trip
  | transition (pair : State × State)
  | gauge (next : State)
  deriving DecidableEq, Repr

/-- The recorder; `transitionsTotal` has a counter for each label, and a gauge starts unset. -/
structure Meter extends Recorder where
  successesTotal : Nat
  rejectedTotal : Nat
  tripsTotal : Nat
  transitionsTotal : State × State → Nat
  state : Option FloatValue

def State.gaugeValue : State → FloatValue
  | .closed => .finite 0
  | .opened => .finite 1
  | .halfOpen => .finite 2

namespace Meter

def zero : Meter where
  failuresTotal := 0
  failureRate := []
  failureCount := []
  successesTotal := 0
  rejectedTotal := 0
  tripsTotal := 0
  transitionsTotal := fun _ => 0
  state := none

def perform (s : StateMachine) (meter : Meter) : Emission → Meter
  | .success => { meter with successesTotal := meter.successesTotal + 1 }
  | .failure => { meter with failuresTotal := meter.failuresTotal + 1 }
  | .failureRate => { meter with failureRate := meter.failureRate ++ [s.failureRate] }
  | .failureCount => { meter with failureCount := meter.failureCount ++ [.finite s.failureCount] }
  | .rejected => { meter with rejectedTotal := meter.rejectedTotal + 1 }
  | .trip => { meter with tripsTotal := meter.tripsTotal + 1 }
  | .transition pair =>
      { meter with
        transitionsTotal := fun label =>
          meter.transitionsTotal label + if label = pair then 1 else 0 }
  | .gauge next => { meter with state := some next.gaugeValue }

end Meter

def Op.emissions : Op → List Emission
  | .success => [.success]
  | .failure => [.failure, .failureRate, .failureCount]
  | .forceOpen => [.trip]
  | .forceClosed => []

/-- What `fire_callback` emits before it calls back. -/
def fired (pair : State × State) : List Emission := [.transition pair, .gauge pair.2]

theorem emissions_failure (s : StateMachine) (meter : Meter) :
    Op.failure.emissions.foldl (Meter.perform s) meter =
      { meter with toRecorder := meter.toRecorder.emitFailureMetrics s } := rfl

namespace Metered

variable (config : CircuitBreakerConfig arith ε)

/-- What a task emits after an act; nothing where the write-locked section unwinds. -/
def emissions (s : System ε) : Phase ε → TaskAction ε → Phase ε → List Emission
  | .recording _ failed _, .record tick, _ =>
      match (s.shared.state.apply config (recordOp failed, tick)).2 with
      | .ok pair => (recordOp failed).emissions ++ pair.toList.flatMap fired
      | .error _ => []
  | .forced f prev, .force tick, _ =>
      match (s.shared.state.apply config (f.op, tick)).2 with
      | .ok _ => f.op.emissions ++ fired (prev, f.next)
      | .error _ => []
  | .loading, .load, .done _ => [.rejected]
  | .acquiring _, .exchange _, .done _ => [.rejected]
  | _, _, _ => []

/-- The read lock of the admission check, and that of the two histograms once one is recorded. -/
def holdsLock : List Emission → Bool
  | .rejected :: _ | .failureCount :: _ => true
  | _ => false

def writeLocks : TaskAction ε → Bool
  | .record _ | .force _ => true
  | .check _ | .load | .exchange _ | .finish _ | .announce | .release | .observe _ => false

def deferral : Deferral Shared (Phase ε) (TaskAction ε) Emission Meter where
  owes := emissions config
  perform := fun shared => Meter.perform shared.state
  holds := holdsLock
  holds_nil := rfl
  waits := writeLocks

end Metered

/-- A running system with its recorder, every task with the emissions that it owes. -/
abbrev Metered (ε : Type u) := Pool (Shared × Meter) (Phase ε × List Emission)

namespace Metered

variable (config : CircuitBreakerConfig arith ε)

abbrev Step : Metered ε → PoolAction Job (DeferredAction (TaskAction ε)) → Metered ε → Prop :=
  Deferral.Step (deferral config) Phase.start (System.act config)

def unmetered (m : Metered ε) : System ε := Deferral.erase m

def meter (m : Metered ε) : Meter := m.shared.2

def begun (start : System ε) : Metered ε := Deferral.attach Meter.zero start

def owed (e : Emission) (m : Metered ε) : Nat :=
  Deferral.owed (fun e' => if e' = e then 1 else 0) m

/-! ## The feature is not seen -/

end Metered

/-! ## What an act decides to emit -/

/-- The operation whose return a counter or a histogram stands for. -/
def Emission.op : Emission → Option Op
  | success => some .success
  | failure | failureRate | failureCount => some .failure
  | trip => some .forceOpen
  | rejected | transition _ | gauge _ => none

theorem Emission.count_emissions {e : Emission} {op : Op} (h : e.op = some op) (op' : Op) :
    op'.emissions.count e = if op' = op then 1 else 0 := by
  cases e <;> cases h <;> cases op' <;> rfl

theorem Emission.count_fired {e : Emission} {op : Op} (h : e.op = some op) (pair : State × State) :
    (fired pair).count e = 0 := by
  cases e <;> cases h <;> rfl

theorem count_fired_transition (pair label : State × State) :
    (fired pair).count (.transition label) = if pair = label then 1 else 0 := by
  by_cases h : pair = label <;> simp [fired, h]

theorem count_emissions_transition (op : Op) (label : State × State) :
    op.emissions.count (.transition label) = 0 := by
  cases op <;> rfl

namespace StateMachine

theorem Shape.failureCount_lt {config : CircuitBreakerConfig arith ε} {s : StateMachine}
    (h : s.Shape config) (hconfig : config.WellFormed) :
    s.failureCount < config.consecutiveFailures := by
  cases hcurrent : s.current with
  | closed => exact (h.closed hcurrent).2.2
  | opened =>
      rw [(h.opened hcurrent).2.2]
      exact hconfig.consecutive_pos
  | halfOpen =>
      rw [(h.halfOpen hcurrent).2.2]
      exact hconfig.consecutive_pos

def returns (config : CircuitBreakerConfig arith ε) (op : Op) (s : StateMachine)
    (input : Op × Tick) : Nat :=
  if input.1 = op ∧ ¬ s.Unwinds config input then 1 else 0

theorem Reachable.returns_of_ok {config : CircuitBreakerConfig arith ε} {s : StateMachine}
    (h : Reachable config s) (hconfig : config.WellFormed) {input : Op × Tick}
    {pair : Option (State × State)} (hok : (s.apply config input).2 = .ok pair) (op : Op) :
    s.returns config op input = if input.1 = op then 1 else 0 := by
  have hreturns : ¬ s.Unwinds config input := fun hunwinds => by
    have herror := (h.apply_eq_error_iff hconfig input .durationConversion).mpr hunwinds
    rw [hok] at herror
    cases herror
  simp only [returns, hreturns, not_false_eq_true, and_true]

theorem Reachable.returns_of_error {config : CircuitBreakerConfig arith ε} {s : StateMachine}
    (h : Reachable config s) (hconfig : config.WellFormed) {input : Op × Tick} {panic : Panic}
    (herror : (s.apply config input).2 = .error panic) (op : Op) :
    s.returns config op input = 0 :=
  if_neg fun hreturns => hreturns.2 ((h.apply_eq_error_iff hconfig input panic).mp herror)

end StateMachine

namespace Phase

def announces (label : State × State) : Phase ε → Bool
  | announcing _ pair _ => pair == label
  | idle | loading | acquiring _ | running _ | recording .. | leaving .. | forcing _ | forced .. |
    done _ => false

def isRejected : Phase ε → Bool
  | done .rejected => true
  | _ => false

end Phase

def Event.reports (label : State × State) : Event → Bool
  | called _ pair => pair == label
  | admitted .. | wrote .. | released _ => false

namespace Metered

variable {config : CircuitBreakerConfig arith ε} {s : System ε} {i : Nat} {phase phase' : Phase ε}
  {a : TaskAction ε} {shared : Shared}

theorem emissions_loopHead_count (current : Nat) {e : Emission} {op : Op} (h : e.op = some op) :
    (emissions config s .loading .load (System.loopHead config current)).count e = 0 ∧
      ∀ seen spurious, (emissions config s (.acquiring seen) (.exchange spurious)
        (System.loopHead config current)).count e = 0 := by
  unfold System.loopHead
  split_ifs
  · cases e <;> cases h <;> exact ⟨rfl, fun _ _ => rfl⟩
  · exact ⟨rfl, fun _ _ => rfl⟩

theorem emissions_count (hconfig : config.WellFormed) (hreach : System.Reachable config s)
    (hacts : System.Acts config s i phase a shared phase') {e : Emission} {op : Op}
    (h : e.op = some op) :
    (∃ input, writes shared.log = writes s.shared.log ++ [input] ∧
        (emissions config s phase a phase').count e = s.shared.state.returns config op input) ∨
      writes shared.log = writes s.shared.log ∧
        (emissions config s phase a phase').count e = 0 := by
  cases hacts with
  | @record permit failed answer tick =>
      refine .inl ⟨_, System.writes_cons_wrote _ _ _ _ _ _, ?_⟩
      simp only [emissions]
      cases hresult : (s.shared.state.apply config (recordOp failed, tick)).2 with
      | error panic =>
          rw [hreach.machine.returns_of_error hconfig hresult]
          rfl
      | ok pair =>
          have hfired : (pair.toList.flatMap fired).count e = 0 := by
            cases pair with
            | none => rfl
            | some pair => simpa using e.count_fired h pair
          rw [hreach.machine.returns_of_ok hconfig hresult, List.count_append, hfired,
            e.count_emissions h, Nat.add_zero]
  | @force f prev tick =>
      refine .inl ⟨_, System.writes_cons_wrote _ _ _ _ _ _, ?_⟩
      simp only [emissions]
      cases hresult : (s.shared.state.apply config (f.op, tick)).2 with
      | error panic =>
          rw [hreach.machine.returns_of_error hconfig hresult]
          rfl
      | ok pair =>
          rw [hreach.machine.returns_of_ok hconfig hresult, List.count_append,
            e.count_fired h, e.count_emissions h, Nat.add_zero]
  | load => exact .inr ⟨rfl, (emissions_loopHead_count _ h).1⟩
  | retry => exact .inr ⟨rfl, (emissions_loopHead_count _ h).2 _ _⟩
  | @release permit => cases permit <;> exact .inr ⟨rfl, rfl⟩
  | _ => exact .inr ⟨rfl, rfl⟩

theorem emissions_transition (hacts : System.Acts config s i phase a shared phase')
    (label : State × State) :
    shared.log.countP (Event.reports label) + (phase'.announces label).toNat =
      s.shared.log.countP (Event.reports label) + (phase.announces label).toNat +
        (emissions config s phase a phase').count (.transition label) := by
  have htoNat : ∀ pair : State × State, (pair == label).toNat = if pair = label then 1 else 0 := by
    intro pair
    by_cases h : pair = label <;> simp [h]
  cases hacts with
  | @record permit failed answer tick =>
      simp only [emissions, System.write, System.afterRecord]
      rcases (s.shared.state.apply config (recordOp failed, tick)).2 with panic | (_ | pair)
      · simp [Phase.announces, Event.reports]
      · simp [Phase.announces, Event.reports, count_emissions_transition]
      · simp [Phase.announces, Event.reports, count_emissions_transition, count_fired_transition,
          htoNat]
  | @force f prev tick =>
      simp only [emissions, System.write, System.afterForce]
      rcases (s.shared.state.apply config (f.op, tick)).2 with panic | pair
      · simp [Phase.announces, Event.reports]
      · simp [Phase.announces, Event.reports, count_emissions_transition, count_fired_transition,
          htoNat]
  | @announce permit pair answer =>
      simp [Event.reports, Phase.announces, emissions, List.countP_cons, htoNat]
  | load =>
      unfold System.loopHead
      split_ifs <;> simp [emissions, Phase.announces]
  | retry =>
      unfold System.loopHead
      split_ifs <;> simp [emissions, Phase.announces]
  | finish hfinish =>
      obtain ⟨answer, -, ⟨failed, rfl⟩ | rfl⟩ := System.finish_cases hfinish <;> rfl
  | @release permit =>
      cases permit
      · rfl
      · simp [System.drop, Event.reports, Phase.announces, emissions]
  | enter => simp [Event.reports, Phase.announces, emissions]
  | acquire => simp [Event.reports, Phase.announces, emissions]
  | _ => rfl

theorem count_emissions_rejected (op : Op) : op.emissions.count .rejected = 0 := by
  cases op <;> rfl

theorem emissions_rejected (hacts : System.Acts config s i phase a shared phase')
    (hadmitted : System.Admitted phase) :
    phase'.isRejected.toNat =
      phase.isRejected.toNat + (emissions config s phase a phase').count .rejected := by
  cases hacts with
  | @record permit failed answer tick =>
      simp only [emissions, System.afterRecord]
      rcases (s.shared.state.apply config (recordOp failed, tick)).2 with panic | (_ | pair)
      · rfl
      · simp [Phase.isRejected, count_emissions_rejected]
      · simp [Phase.isRejected, count_emissions_rejected, fired]
  | @force f prev tick =>
      simp only [emissions, System.afterForce]
      rcases (s.shared.state.apply config (f.op, tick)).2 with panic | pair
      · rfl
      · simp [Phase.isRejected, count_emissions_rejected, fired]
  | load =>
      unfold System.loopHead
      split_ifs <;> rfl
  | retry =>
      unfold System.loopHead
      split_ifs <;> rfl
  | finish hfinish =>
      obtain ⟨answer, -, ⟨failed, rfl⟩ | rfl⟩ := System.finish_cases hfinish <;> rfl
  | @release permit answer =>
      have hrefusal := hadmitted answer rfl
      cases answer <;> first | rfl | cases hrefusal
  | _ => rfl

/-! ## Made and owed -/

variable {draw : Draw} {start : System ε} {m : Metered ε}
  {labels : List (PoolAction Job (DeferredAction (TaskAction ε)))}

theorem unmetered_runs (hrun : Runs (Step config) (begun start) labels m) :
    Runs (System.Step config) start (labels.filterMap Deferral.visible) (unmetered m) := by
  have herased := Deferral.erase_runs hrun
  rwa [begun, Deferral.erase_attach] at herased

/-- The rule for one kind of emission: what is made and what is owed is what the acts decide. -/
theorem made_add_owed {e : Emission} (made : Meter → Nat) (decided : System ε → Nat)
    (hrun : Runs (Step config) (begun start) labels m)
    (hperform : ∀ s meter e', made (meter.perform s e') = made meter + if e' = e then 1 else 0)
    (hstart : made Meter.zero = decided start)
    (hspawn : ∀ (s : System ε) job,
      decided { s with tasks := s.tasks ++ [Phase.start job] } = decided s)
    (hact : ∀ s i phase a shared phase', Foundation.Reachable (System.Step config) start s →
      s.tasks[i]? = some phase → System.Acts config s i phase a shared phase' →
      decided { shared := shared, tasks := s.tasks.set i phase' } =
        decided s + (emissions config s phase a phase').count e) :
    made (meter m) + owed e m = decided (unmetered m) := by
  have hbegin : Deferral.erase (begun start) = start := Deferral.erase_attach Meter.zero start
  have hsum := Deferral.entered_add_owed (fun e' => if e' = e then 1 else 0) made decided
    (fun shared => hperform shared.state) hspawn
    (fun s i phase a shared phase' hreach hphase hacts => ?_) hrun
  · have hnothing : Deferral.owed (fun e' => if e' = e then 1 else 0) (begun start) = 0 :=
      (Deferral.settled_attach Meter.zero start).owed _
    rw [hbegin, hnothing] at hsum
    unfold meter owed unmetered
    change _ = made Meter.zero + _ + _ at hsum
    omega
  · rw [hbegin] at hreach
    rw [hact s i phase a shared phase' hreach hphase (System.acts_of_act hacts)]
    congr 1
    exact (sum_map_indicator e _).symm

variable (config) in
def returned (op : Op) (start s : System ε) : Nat :=
  sumAlong (StateMachine.apply config) (StateMachine.returns config op) start.shared.state
    (writes s.shared.log)

theorem made_add_owed_of_op (hconfig : config.WellFormed)
    (hnew : System.new config draw = some start)
    (hrun : Runs (Step config) (begun start) labels m) {e : Emission} {op : Op} (h : e.op = some op)
    (made : Meter → Nat)
    (hperform : ∀ s meter e', made (meter.perform s e') = made meter + if e' = e then 1 else 0)
    (hzero : made Meter.zero = 0) :
    made (meter m) + owed e m = returned config op start (unmetered m) := by
  refine made_add_owed made (returned config op start) hrun hperform ?_ (fun s job => rfl) ?_
  · obtain ⟨state, -, rfl⟩ := Option.map_eq_some_iff.mp hnew
    exact hzero
  · rintro s i phase a shared phase' ⟨actions, hprefix⟩ - hacts
    have hreach : System.Reachable config s := ⟨draw, start, hnew, actions, hprefix⟩
    unfold returned
    rcases emissions_count hconfig hreach hacts h with ⟨input, hwrites, hcount⟩ | ⟨hwrites, hcount⟩
    · rw [hwrites, hcount, sumAlong_append, ← System.replay hnew hprefix]
      rfl
    · rw [hwrites, hcount, Nat.add_zero]

theorem returned_eq_count {op : Op} (start s : System ε)
    (hnever : ∀ (s : StateMachine) input, input.1 = op → ¬ s.Unwinds config input) :
    returned config op start s = (System.opsWritten s).count op := by
  unfold returned System.opsWritten
  generalize start.shared.state = state
  induction writes s.shared.log generalizing state with
  | nil => rfl
  | cons input inputs ih =>
      rw [sumAlong, ih, StateMachine.returns, List.map_cons, List.count_cons]
      by_cases hop : input.1 = op
      · simp [hop, hnever state input hop, Nat.add_comm]
      · simp [hop]

/-! ## What a task owes -/

theorem emissions_cases (hacts : System.Acts config s i phase a shared phase') :
    (∃ permit pair answer op, phase' = .announcing permit pair answer ∧
        emissions config s phase a phase' = Op.emissions op ++ fired pair) ∨
      ∀ e ∈ emissions config s phase a phase', e.op.isSome ∨ e = .rejected := by
  have hop : ∀ op : Op, ∀ e ∈ op.emissions, e.op.isSome ∨ e = .rejected := by
    intro op e hmem
    cases op <;> simp only [Op.emissions, List.mem_cons, List.not_mem_nil, or_false] at hmem
    · exact .inl (by rw [hmem]; rfl)
    · rcases hmem with rfl | rfl | rfl <;> exact .inl rfl
    · exact .inl (by rw [hmem]; rfl)
  cases hacts with
  | @record permit failed answer tick =>
      simp only [emissions, System.afterRecord]
      rcases (s.shared.state.apply config (recordOp failed, tick)).2 with panic | (_ | pair)
      · exact .inr (by simp)
      · exact .inr (by simpa using hop _)
      · exact .inl ⟨permit, pair, answer, recordOp failed, rfl, by simp⟩
  | @force f prev tick =>
      simp only [emissions, System.afterForce]
      rcases (s.shared.state.apply config (f.op, tick)).2 with panic | pair
      · exact .inr (by simp)
      · exact .inl ⟨false, (prev, f.next), .returned, f.op, rfl, rfl⟩
  | load =>
      right
      unfold System.loopHead
      split_ifs <;> simp [emissions]
  | retry =>
      right
      unfold System.loopHead
      split_ifs <;> simp [emissions]
  | _ => exact .inr (by simp [emissions])

/-- The counter of a label and the gauge are owed only before the callback. -/
def Backed (phase : Phase ε) (queue : List Emission) : Prop :=
  (∀ label, queue.count (.transition label) ≤ (phase.announces label).toNat) ∧
    ∀ next, .gauge next ∈ queue →
      ∃ permit prev answer, phase = .announcing permit (prev, next) answer

theorem backed_emissions (hacts : System.Acts config s i phase a shared phase') :
    Backed phase' (emissions config s phase a phase') := by
  rcases emissions_cases hacts with ⟨permit, pair, answer, op, rfl, heq⟩ | hneither
  · rw [heq]
    refine ⟨fun label => ?_, fun next hmem => ?_⟩
    · rw [List.count_append, count_emissions_transition, count_fired_transition, Nat.zero_add]
      by_cases hlabel : pair = label <;> simp [Phase.announces, hlabel]
    · have hgauge : next = pair.2 := by
        rcases List.mem_append.mp hmem with hown | hfired
        · cases op <;> simp [Op.emissions] at hown
        · simpa [fired] using hfired
      exact ⟨permit, pair.1, answer, by rw [hgauge]⟩
  · refine ⟨fun label => ?_, fun next hmem => ?_⟩
    · rw [List.count_eq_zero_of_not_mem]
      · exact Nat.zero_le _
      · intro hmem
        simpa [Emission.op] using hneither _ hmem
    · simpa [Emission.op] using hneither _ hmem

theorem backed (hrun : Runs (Step config) (begun start) labels m) :
    ∀ task ∈ m.tasks, Backed task.1 task.2 := by
  refine Deferral.forall_tasks (Deferral.settled_attach Meter.zero start)
    (fun phase => ⟨fun label => Nat.zero_le _, by simp⟩)
    (fun s i phase a shared phase' _ hact => backed_emissions (System.acts_of_act hact))
    (fun phase e rest hbacked => ⟨fun label => ?_, fun next hmem => ?_⟩) hrun
  · exact (List.count_le_count_cons).trans (hbacked.1 label)
  · exact hbacked.2 next (List.mem_cons_of_mem e hmem)

theorem owed_transition_le (hrun : Runs (Step config) (begun start) labels m)
    (label : State × State) :
    owed (.transition label) m ≤ (unmetered m).tasks.countP (Phase.announces label) := by
  unfold owed Deferral.owed unmetered Deferral.erase
  rw [List.countP_map]
  refine sum_map_le_countP fun task hmem => ?_
  rw [sum_map_indicator]
  exact (backed hrun task hmem).1 label

/-! ## The counters -/

/-- What the counters and the histograms have taken and what is still owed to them. -/
structure Balanced (config : CircuitBreakerConfig arith ε) (start : System ε)
    (m : Metered ε) : Prop where
  successes : (meter m).successesTotal + owed .success m =
    (unmetered m).shared.state.totalSuccesses
  failures : (meter m).failuresTotal + owed .failure m =
    returned config .failure start (unmetered m)
  rates : (meter m).failureRate.length + owed .failureRate m =
    returned config .failure start (unmetered m)
  counts : (meter m).failureCount.length + owed .failureCount m =
    returned config .failure start (unmetered m)
  trips : (meter m).tripsTotal + owed .trip m = returned config .forceOpen start (unmetered m)
  rejections : (meter m).rejectedTotal + owed .rejected m =
    (unmetered m).tasks.countP Phase.isRejected
  transitions : ∀ label, (meter m).transitionsTotal label + owed (.transition label) m =
    (unmetered m).shared.log.countP (Event.reports label) +
      (unmetered m).tasks.countP (Phase.announces label)
  before_callback : ∀ label, (unmetered m).shared.log.countP (Event.reports label) ≤
    (meter m).transitionsTotal label
  returned : (∀ attempt, config.backoff.Computes attempt) → ∀ op,
    returned config op start (unmetered m) = (System.opsWritten (unmetered m)).count op

theorem countP_announces_start (label : State × State) (s : System ε) (job : Job) :
    (s.tasks ++ [Phase.start job]).countP (Phase.announces label) =
      s.tasks.countP (Phase.announces label) := by
  rw [List.countP_append]
  cases job <;> rfl

theorem transitions_made_add_owed (hnew : System.new config draw = some start)
    (hrun : Runs (Step config) (begun start) labels m) (label : State × State) :
    (meter m).transitionsTotal label + owed (.transition label) m =
      (unmetered m).shared.log.countP (Event.reports label) +
        (unmetered m).tasks.countP (Phase.announces label) := by
  refine made_add_owed (fun meter => meter.transitionsTotal label)
    (fun s => s.shared.log.countP (Event.reports label) + s.tasks.countP (Phase.announces label))
    hrun (fun s meter e => ?_) ?_ (fun s job => ?_) ?_
  · cases e <;> simp [Meter.perform, eq_comm]
  · obtain ⟨state, -, rfl⟩ := Option.map_eq_some_iff.mp hnew
    rfl
  · dsimp only
    rw [countP_announces_start]
  · intro s i phase a shared phase' _ hphase hacts
    have hmoved := emissions_transition hacts label
    have htasks := Pool.countP_set (Phase.announces label) hphase phase'
    dsimp only
    omega

theorem rejections_made_add_owed (hnew : System.new config draw = some start)
    (hrun : Runs (Step config) (begun start) labels m) :
    (meter m).rejectedTotal + owed .rejected m = (unmetered m).tasks.countP Phase.isRejected := by
  refine made_add_owed Meter.rejectedTotal (fun s => s.tasks.countP Phase.isRejected) hrun
    (fun s meter e => ?_) ?_ (fun s job => ?_) ?_
  · cases e <;> rfl
  · obtain ⟨state, -, rfl⟩ := Option.map_eq_some_iff.mp hnew
    rfl
  · dsimp only
    rw [List.countP_append]
    cases job <;> rfl
  · rintro s i phase a shared phase' ⟨actions, hprefix⟩ hphase hacts
    have hreach : System.Reachable config s := ⟨draw, start, hnew, actions, hprefix⟩
    have hmoved := emissions_rejected hacts
      (hreach.admitted phase (List.mem_of_getElem? hphase))
    have htasks := Pool.countP_set Phase.isRejected hphase phase'
    dsimp only
    omega

/--
In every interleaving every counter and histogram of the `metrics` feature has
taken what the writes, the rejections and the callbacks so far make of it, but
for what single tasks are still to emit; a counter of transitions is never behind
the callbacks.
-/
theorem counters_exact (b : CircuitBreakerConfigBuilder arith ε) {draw : Draw} {start : System ε}
    (hnew : System.new b.build draw = some start) {m : Metered ε}
    {labels : List (PoolAction Job (DeferredAction (TaskAction ε)))}
    (hrun : Runs (Step b.build) (begun start) labels m) : Balanced b.build start m := by
  have hconfig := build_wellFormed b
  have hbase := unmetered_runs hrun
  have hsuccess : returned b.build .success start (unmetered m) =
      (unmetered m).shared.state.totalSuccesses := by
    rw [returned_eq_count start (unmetered m) fun s input hop hunwinds => ?_]
    · exact (System.total_eq_count hnew hbase false).symm
    · rcases hunwinds.1 with hforce | ⟨hfailure, -⟩
      · cases hop.symm.trans hforce
      · cases hop.symm.trans hfailure
  refine {
    successes := (made_add_owed_of_op hconfig hnew hrun rfl Meter.successesTotal
      (fun s meter e => ?_) rfl).trans hsuccess
    failures := made_add_owed_of_op hconfig hnew hrun rfl (fun meter => meter.failuresTotal)
      (fun s meter e => ?_) rfl
    rates := made_add_owed_of_op hconfig hnew hrun rfl (fun meter => meter.failureRate.length)
      (fun s meter e => ?_) rfl
    counts := made_add_owed_of_op hconfig hnew hrun rfl (fun meter => meter.failureCount.length)
      (fun s meter e => ?_) rfl
    trips := made_add_owed_of_op hconfig hnew hrun rfl Meter.tripsTotal (fun s meter e => ?_) rfl
    rejections := rejections_made_add_owed hnew hrun
    transitions := transitions_made_add_owed hnew hrun
    before_callback := fun label => ?_
    returned := fun hcomputes op =>
      returned_eq_count start (unmetered m) fun s input _ hunwinds => ?_ }
  · cases e <;> rfl
  · cases e <;> rfl
  · cases e <;> simp [Meter.perform]
  · cases e <;> simp [Meter.perform]
  · cases e <;> rfl
  · have hsum := transitions_made_add_owed hnew hrun label
    have howed := owed_transition_le hrun label
    omega
  · have hsome := (StateMachine.nextWait_isSome_iff b.build s input.2).mpr (hcomputes _)
    rw [hunwinds.2] at hsome
    cases hsome

/-! ## The samples and the gauge -/

/-- Where the samples of the histograms and the gauge come from. -/
structure Sampled (config : CircuitBreakerConfig arith ε) (start : System ε)
    (m : Metered ε) : Prop where
  rates : SampledAlong (StateMachine.apply config) StateMachine.failureRate start.shared.state
    (writes (unmetered m).shared.log) (meter m).failureRate
  counts : SampledAlong (StateMachine.apply config) (fun s => .finite s.failureCount)
    start.shared.state (writes (unmetered m).shared.log) (meter m).failureCount
  gauge : ∀ v ∈ (meter m).state, ∃ i next, v = State.gaugeValue next ∧ next ≠ .halfOpen ∧
    System.WroteInto (unmetered m).shared.log i next

theorem Sampled.act {m' : Metered ε} {action : PoolAction Job (TaskAction ε)}
    (h : Sampled config start m)
    (hmeter : meter m' = meter m) (hstep : System.Step config (unmetered m) action (unmetered m')) :
    Sampled config start m' := by
  obtain ⟨inputs, hwrites, -⟩ := System.replay_from (Runs.single hstep)
  refine ⟨?_, ?_, ?_⟩
  · rw [hwrites, hmeter]
    exact h.rates.append inputs
  · rw [hwrites, hmeter]
    exact h.counts.append inputs
  · rw [hmeter]
    intro v hv
    obtain ⟨i, next, hvalue, hnext, hwrote⟩ := h.gauge v hv
    refine ⟨i, next, hvalue, hnext, ?_⟩
    rcases System.step_cases hstep with
      ⟨job, -, heq⟩ | ⟨j, a, phase, shared, phase', -, -, hacts, heq⟩
    · rw [heq]
      exact hwrote
    · rw [heq]
      exact hwrote.acts hacts

theorem Sampled.effect (hnew : System.new config draw = some start)
    (hrun : Runs (Step config) (begun start) labels m) (h : Sampled config start m) {e : Emission}
    {rest : List Emission} (htask : m.tasks[i]? = some (phase, e :: rest)) :
    Sampled config start
      { shared := (m.shared.1, (meter m).perform m.shared.1.state e),
        tasks := m.tasks.set i (phase, rest) } := by
  have hbase := unmetered_runs hrun
  have hsame : ∀ account : Meter,
      unmetered { shared := (m.shared.1, account), tasks := m.tasks.set i (phase, rest) } =
        unmetered m := fun account => Deferral.erase_effect htask
  have hstate : (m.shared.1.state : StateMachine) = runFrom (StateMachine.apply config)
      start.shared.state (writes (unmetered m).shared.log) := System.replay hnew hbase
  constructor
  · rw [hsame]
    cases e with
    | failureRate =>
        change SampledAlong _ _ _ _ ((meter m).failureRate ++ [m.shared.1.state.failureRate])
        rw [hstate]
        exact h.rates.sample
    | _ => exact h.rates
  · rw [hsame]
    cases e with
    | failureCount =>
        change SampledAlong _ _ _ _ ((meter m).failureCount ++
          [.finite m.shared.1.state.failureCount])
        rw [hstate]
        exact h.counts.sample
    | _ => exact h.counts
  · rw [hsame]
    cases e with
    | gauge next =>
        rintro v hv
        cases hv
        obtain ⟨permit, prev, answer, rfl⟩ :=
          (backed hrun _ (List.mem_of_getElem? htask)).2 next List.mem_cons_self
        have hphase : (unmetered m).tasks[i]? = some (.announcing permit (prev, next) answer) :=
          Deferral.erase_tasks htask
        have hreach : System.Reachable config (unmetered m) := ⟨draw, start, hnew, _, hbase⟩
        exact ⟨i, next, rfl,
          System.announcing_ne_halfOpen hnew hbase (List.mem_of_getElem? hphase),
          hreach.delivers.due i permit (prev, next) answer hphase⟩
    | _ => exact h.gauge

theorem sampled (hnew : System.new config draw = some start)
    (hrun : Runs (Step config) (begun start) labels m) : Sampled config start m := by
  induction hrun with
  | refl => exact ⟨⟨[], .nil, by simp, rfl⟩, ⟨[], .nil, by simp, rfl⟩, by simp [meter, begun,
      Deferral.attach, Meter.zero]⟩
  | @snoc m m' labels label hprefix hlast ih =>
      rcases Deferral.erase_step hlast with
        ⟨action, -, hmeter, hstep⟩ | ⟨i, phase, e, rest, rfl, htask, rfl⟩
      · exact ih.act hmeter hstep
      · exact ih.effect hnew hprefix htask

/--
In every interleaving the histograms hold rates and counts of the machine after
some of the writes so far, in the order of the lock; no count reaches the streak
that trips, and the gauge holds a state that some task has written, never
`HalfOpen`.
-/
theorem histograms (b : CircuitBreakerConfigBuilder arith ε) {draw : Draw} {start : System ε}
    (hnew : System.new b.build draw = some start) {m : Metered ε}
    {labels : List (PoolAction Job (DeferredAction (TaskAction ε)))}
    (hrun : Runs (Step b.build) (begun start) labels m) :
    Sampled b.build start m ∧
      ∀ x ∈ (meter m).failureCount, ∃ n, n < b.build.consecutiveFailures ∧ x = .finite n := by
  have hconfig := build_wellFormed b
  have hsampled := sampled hnew hrun
  obtain ⟨state, hstate, rfl⟩ := Option.map_eq_some_iff.mp hnew
  refine ⟨hsampled, hsampled.counts.forall_mem fun before => ⟨_, ?_, rfl⟩⟩
  have hreach : StateMachine.Reachable b.build
      (runFrom (StateMachine.apply b.build) state before) :=
    runFrom_invariant (I := StateMachine.Reachable b.build) ⟨draw, state, hstate, .refl state⟩
      fun _ input _ hreach => hreach.apply input
  exact (hreach.shape hconfig).failureCount_lt hconfig

/-! ## A run of `hairTrigger` -/

def meteredTrip : List (PoolAction Job (DeferredAction (TaskAction Unit))) :=
  [.spawn .call, .act 0 (.act (.check 0)), .act 0 (.act (.finish (.err ()))),
   .act 0 (.act (.record ⟨0, 0, 0⟩)), .act 0 .effect, .act 0 .effect, .act 0 .effect,
   .act 0 .effect, .act 0 .effect, .act 0 (.act .announce)]

theorem counters_exact_meteredTrip : ∃ start m, System.new hairTrigger.build 0 = some start ∧
    Runs (Step hairTrigger.build) (begun start) meteredTrip m ∧
      (meter m).failuresTotal + owed .failure m =
        (System.opsWritten (unmetered m)).count .failure := by
  refine ⟨_, _, rfl, runs_of_execute rfl, ?_⟩
  have hbalanced := @counters_exact _ _ hairTrigger 0 _ rfl _ meteredTrip (runs_of_execute rfl)
  exact hbalanced.failures.trans (hbalanced.returned (fun _ => trivial) .failure)

/-- The streak of one that has tripped the circuit is emitted as zero. -/
theorem histograms_meteredTrip : ∃ start m, System.new hairTrigger.build 0 = some start ∧
    Runs (Step hairTrigger.build) (begun start) meteredTrip m ∧
      ∀ x ∈ (meter m).failureCount, ∃ n, n < hairTrigger.build.consecutiveFailures ∧
        x = .finite n := by
  refine ⟨_, _, rfl, runs_of_execute rfl, ?_⟩
  exact (@histograms _ _ hairTrigger 0 _ rfl _ meteredTrip (runs_of_execute rfl)).2

end Metered

end Breaker
