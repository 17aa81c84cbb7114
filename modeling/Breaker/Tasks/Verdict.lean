import Breaker.Tasks.Episode

/-!
# The half-open verdict

A record carries no trace of how its call was admitted.  So an outcome recorded
while the circuit reads `HalfOpen` counts as a probe's, also if its call was
admitted while the circuit was still `Closed`.  As long as no such late outcome
is recorded, the verdict on the circuit is that of its own probes.
-/

namespace Breaker

open Foundation

universe u

variable {arith : RateArithmetic} {ε : Type u}

/--
Every recorded transition out of `HalfOpen` in the log is due to probes of the
episode that it ends: enough of them have succeeded, or this one has failed.
-/
def VerdictsByProbes (config : CircuitBreakerConfig arith ε) (log : List Event) : Prop :=
  ∀ i failed tick next earlier,
    .wrote i (recordOp failed) tick .halfOpen next :: earlier <:+ log →
    (next = .closed → ∃ calls : List Nat, calls.Nodup ∧
      config.successThreshold ≤ calls.length ∧
      ∀ j ∈ calls, .admitted j true ∈ episode earlier ∧
        ∃ tick' next', .wrote j .success tick' .halfOpen next' ∈
          .wrote i (recordOp failed) tick .halfOpen next :: episode earlier) ∧
    (next = .opened → failed = true ∧ .admitted i true ∈ episode earlier)

namespace System

variable {config : CircuitBreakerConfig arith ε} {s s' : System ε} {i : Nat}
  {phase phase' : Phase ε}
  {a : TaskAction ε} {shared : Shared}

/-- What the action records while the circuit reads `HalfOpen` is of a probe of the episode. -/
def ByProbe (s : System ε) : PoolAction Job (TaskAction ε) → Prop
  | .act i (.record tick) =>
      s.shared.state.currentAt tick.now = .halfOpen → i ∈ probes s.shared.log
  | _ => True

instance (s : System ε) : ∀ action, Decidable (ByProbe s action)
  | .act _ (.record _) => inferInstanceAs (Decidable (_ → _))
  | .spawn _ | .act _ (.check _) | .act _ .load | .act _ (.exchange _) | .act _ (.finish _) |
    .act _ .announce | .act _ .release | .act _ (.observe _) | .act _ (.force _) => .isTrue trivial

def ReachableByProbes (config : CircuitBreakerConfig arith ε) (s : System ε) : Prop :=
  ∃ draw start, new config draw = some start ∧
    Foundation.Reachable (fun s action s' => ByProbe s action ∧ Step config s action s') start s

theorem ReachableByProbes.reachable (h : ReachableByProbes config s) : Reachable config s := by
  obtain ⟨draw, start, hnew, actions, hrun⟩ := h
  exact ⟨draw, start, hnew, actions, hrun.mono fun _ _ _ hstep => hstep.2⟩

def Heard (log : List Event) : Prop :=
  ∀ j ∈ verdicts log, .admitted j true ∈ episode log ∧
    ∃ tick next, .wrote j .success tick .halfOpen next ∈ episode log

structure Fair (config : CircuitBreakerConfig arith ε) (s : System ε) : Prop where
  heard : Heard s.shared.log
  verdicts : VerdictsByProbes config s.shared.log

theorem VerdictsByProbes.cons {log : List Event} {e : Event} (h : VerdictsByProbes config log)
    (he : ∀ i failed tick next, e ≠ .wrote i (recordOp failed) tick .halfOpen next ∨
      next = .halfOpen) : VerdictsByProbes config (e :: log) := by
  intro i failed tick next earlier hsuffix
  rcases List.suffix_cons_iff.mp hsuffix with heq | hold
  · cases heq
    rcases he i failed tick next with hne | rfl
    · exact absurd rfl hne
    · exact ⟨fun h => (by cases h), fun h => (by cases h)⟩
  · exact h i failed tick next earlier hold

theorem VerdictsByProbes.cons_of_prev {log : List Event} (h : VerdictsByProbes config log)
    {op : Op} {tick : Tick} {prev next : State}
    (hprev : prev ≠ .halfOpen ∨ op = .forceOpen ∨ op = .forceClosed) :
    VerdictsByProbes config (.wrote i op tick prev next :: log) := by
  refine VerdictsByProbes.cons h fun j failed tick' next' => .inl ?_
  rintro ⟨⟩
  rcases hprev with hne | hforce
  · exact hne rfl
  · cases failed <;> simp [recordOp] at hforce

theorem VerdictsByProbes.cons_halfOpen {log : List Event} (h : VerdictsByProbes config log)
    {op : Op} {tick : Tick} {prev : State} :
    VerdictsByProbes config (.wrote i op tick prev .halfOpen :: log) := by
  refine VerdictsByProbes.cons h fun j failed tick' next => ?_
  by_cases hnext : next = .halfOpen
  · exact .inr hnext
  · refine .inl fun heq => hnext ?_
    cases heq
    rfl

theorem Fair.unlocked {news : Option Event} (h : Fair config s)
    (hunlocked : Unlocked s i phase shared phase' news) :
    Fair config { shared := shared, tasks := s.tasks.set i phase' } := by
  have hverdicts : Breaker.verdicts shared.log = Breaker.verdicts s.shared.log :=
    hunlocked.verdicts_eq
  refine ⟨?_, ?_⟩
  · intro j hj
    dsimp only at hj ⊢
    rw [hverdicts] at hj
    obtain ⟨hadmitted, tick, next, hwrote⟩ := h.heard j hj
    exact ⟨hunlocked.mem_episode.mpr (.inr hadmitted), tick, next,
      hunlocked.mem_episode.mpr (.inr hwrote)⟩
  · dsimp only
    rw [hunlocked.log]
    cases hnews : news with
    | none => exact h.verdicts
    | some e =>
        refine VerdictsByProbes.cons h.verdicts fun i failed tick next => .inl ?_
        rintro rfl
        cases hunlocked.logged _ hnews

theorem heard_of_ends {e : Event} (h : e.ends = true) (log : List Event) : Heard (e :: log) := by
  intro j hj
  rw [Breaker.verdicts, episode_cons_of_ends h] at hj
  cases hj

theorem Heard.cons {log : List Event} (h : Heard log) {e : Event} (hends : e.ends = false)
    (hverdict : e.verdict = none) : Heard (e :: log) := by
  intro j hj
  rw [verdicts_cons hends, hverdict] at hj
  obtain ⟨hadmitted, tick, next, hwrote⟩ := h j hj
  rw [episode_cons hends]
  exact ⟨List.mem_cons_of_mem _ hadmitted, tick, next, List.mem_cons_of_mem _ hwrote⟩

theorem Heard.probed {log : List Event} (h : Heard log) (hprobe : i ∈ probes log) (tick : Tick) :
    Heard (.wrote i .success tick .halfOpen .halfOpen :: log) := by
  intro j hj
  have hends : (Event.wrote i .success tick .halfOpen .halfOpen).ends = false := rfl
  rw [verdicts_cons hends] at hj
  rw [episode_cons hends]
  rcases List.mem_append.mp hj with hnew | hold
  · have hji : j = i := by simpa [Event.verdict] using hnew
    subst hji
    exact ⟨List.mem_cons_of_mem _ (mem_probes.mp hprobe), tick, .halfOpen, List.mem_cons_self⟩
  · obtain ⟨hadmitted, tick', next, hwrote⟩ := h j hold
    exact ⟨List.mem_cons_of_mem _ hadmitted, tick', next, List.mem_cons_of_mem _ hwrote⟩

theorem Fair.recovered {tick : Tick} (h : Fair config s) (hledger : Ledger s)
    (hphase : s.tasks[i]? = some phase) (hwritten : phase.written = false)
    (hprobe : i ∈ probes s.shared.log)
    (hcount : config.successThreshold ≤ s.shared.state.successCount + 1) :
    VerdictsByProbes config
      (.wrote i (recordOp false) tick .halfOpen .closed :: s.shared.log) := by
  intro j failed tick' next earlier hsuffix
  rcases List.suffix_cons_iff.mp hsuffix with heq | hold
  · cases failed with
    | true => cases heq
    | false =>
        cases heq
        refine ⟨fun _ => ?_, fun hopen => by cases hopen⟩
        refine ⟨i :: Breaker.verdicts s.shared.log, ?_, ?_, ?_⟩
        · exact List.nodup_cons.mpr ⟨hledger.not_mem_verdicts hphase hwritten,
            hledger.verdicts_nodup⟩
        · rw [List.length_cons, ← hledger.counted]
          exact hcount
        · intro k hk
          rcases List.mem_cons.mp hk with rfl | hk
          · exact ⟨mem_probes.mp hprobe, tick, .closed, List.mem_cons_self⟩
          · obtain ⟨hadmitted, tick', next, hwrote⟩ := h.heard k hk
            exact ⟨hadmitted, tick', next, List.mem_cons_of_mem _ hwrote⟩
  · exact h.verdicts j failed tick' next earlier hold

theorem Fair.retripped {tick : Tick} (h : Fair config s) (hprobe : i ∈ probes s.shared.log) :
    VerdictsByProbes config
      (.wrote i (recordOp true) tick .halfOpen .opened :: s.shared.log) := by
  intro j failed tick' next earlier hsuffix
  rcases List.suffix_cons_iff.mp hsuffix with heq | hold
  · cases failed with
    | false => cases heq
    | true =>
        cases heq
        exact ⟨fun hclosed => (by cases hclosed), fun _ => ⟨rfl, mem_probes.mp hprobe⟩⟩
  · exact h.verdicts j failed tick' next earlier hold

theorem Fair.of_log {tasks : List (Phase ε)} {log : List Event} (hlog : shared.log = log)
    (hheard : Heard log) (hverdicts : VerdictsByProbes config log) :
    Fair config { shared := shared, tasks := tasks } :=
  ⟨hlog ▸ hheard, hlog ▸ hverdicts⟩

theorem Fair.locked {op : Op} {tick : Tick} (h : Fair config s) (hconfig : config.WellFormed)
    (hreach : Reachable config s) (hphase : s.tasks[i]? = some phase)
    (hlocked : Locked config s i phase a shared phase' op tick)
    (hbyProbe : ByProbe s (.act i a)) :
    Fair config { shared := shared, tasks := s.tasks.set i phase' } := by
  have hlog := hlocked.log_eq
  rcases hlocked.op_cases hconfig hreach with ⟨hforce, -⟩ | ⟨failed, rfl, rfl, hrecorded⟩
  · have hends : op == .forceOpen || op == .forceClosed := by
      rcases hforce with rfl | rfl <;> rfl
    exact .of_log hlog (heard_of_ends (by simp [Event.ends, hends]) _)
      (VerdictsByProbes.cons_of_prev h.verdicts (.inr hforce))
  · cases hrecorded with
    | counted hprev hcurrent =>
        rw [hprev, hcurrent] at hlog
        exact .of_log hlog (h.heard.cons (by cases failed <;> rfl) rfl)
          (VerdictsByProbes.cons_of_prev h.verdicts (.inl (by simp)))
    | waiting hprev hcurrent =>
        rw [hprev, hcurrent] at hlog
        exact .of_log hlog (h.heard.cons (by cases failed <;> rfl) rfl)
          (VerdictsByProbes.cons_of_prev h.verdicts (.inl (by simp)))
    | tripped hprev hfailed hcurrent =>
        rw [hprev, hcurrent] at hlog
        exact .of_log hlog (heard_of_ends (by cases failed <;> rfl) _)
          (VerdictsByProbes.cons_of_prev h.verdicts (.inl (by simp)))
    | probed hprev hfailed hlt hcurrent =>
        subst hfailed
        rw [hprev, hcurrent] at hlog
        exact .of_log hlog (h.heard.probed (hbyProbe hprev) tick)
          (VerdictsByProbes.cons_halfOpen h.verdicts)
    | recovered hprev hfailed hcount hcurrent =>
        subst hfailed
        rw [hprev, hcurrent] at hlog
        exact .of_log hlog (heard_of_ends rfl _)
          (h.recovered (hreach.ledger hconfig) hphase hlocked.before (hbyProbe hprev) hcount)
    | retripped hprev hfailed hcurrent =>
        subst hfailed
        rw [hprev, hcurrent] at hlog
        exact .of_log hlog (heard_of_ends rfl _) (h.retripped (hbyProbe hprev))

/--
The half-open verdict belongs to the probes, in every state of every run whose
records, while the circuit reads `HalfOpen`, are all of probes of the episode.
-/
theorem verdicts_by_probes (b : CircuitBreakerConfigBuilder arith ε)
    (h : ReachableByProbes b.build s) : VerdictsByProbes b.build s.shared.log := by
  have hconfig := build_wellFormed b
  suffices hfair : Fair b.build s from hfair.verdicts
  obtain ⟨draw, start, hnew, hrun⟩ := h
  apply hrun.invariant
  · obtain ⟨state, -, rfl⟩ := Option.map_eq_some_iff.mp hnew
    refine ⟨fun j hj => (by cases hj), fun i failed tick next earlier hsuffix => ?_⟩
    cases List.suffix_nil.mp hsuffix
  · intro s action s' hprefix hfair hstep
    have hreach : Reachable b.build s := ReachableByProbes.reachable ⟨draw, start, hnew, hprefix⟩
    obtain ⟨hbyProbe, hstep⟩ := hstep
    rcases step_cases hstep with
      ⟨job, -, rfl⟩ | ⟨i, a, phase, shared, phase', rfl, hphase, hacts, rfl⟩
    · exact ⟨hfair.heard, hfair.verdicts⟩
    · rcases hacts.locked_or_unlocked hreach hphase with
        ⟨news, hunlocked⟩ | ⟨op, tick, hlocked⟩
      · exact hfair.unlocked hunlocked
      · exact hfair.locked hconfig hreach hphase hlocked hbyProbe

def recovered : System Unit where
  shared := {
    state := {
      (StateMachine.fresh hairTrigger.build (.fromNanos 1)) with
      totalSuccesses := 2
      totalFailures := 1
      transitions := 3 }
    halfOpenPermits := 1
    clock := 1
    log := .wrote 2 .success ⟨1, 1, 0⟩ .halfOpen .closed :: probing.shared.log }
  tasks := [.announcing false (.closed, .opened) (.failure ()), .leaving false (.ok ()),
    .announcing true (.halfOpen, .closed) (.ok ())]

theorem verdicts_by_probes_recovered :
    VerdictsByProbes hairTrigger.build recovered.shared.log :=
  verdicts_by_probes hairTrigger (s := recovered) ⟨0, _, rfl,
    outageRun ++ probeRun ++ [.act 2 (.finish (.ok ())), .act 2 (.record ⟨1, 1, 0⟩)],
    runs_of_execute_if rfl⟩

def ReachableByCalls (config : CircuitBreakerConfig arith ε) (s : System ε) : Prop :=
  ∃ draw start actions, new config draw = some start ∧
    (∀ job, PoolAction.spawn job ∈ actions → job = .call) ∧ Runs (Step config) start actions s

/-- The second call of `outage` succeeds after the wait, and closes the circuit. -/
theorem verdicts_lateSuccess :
    ¬ ∀ (b : CircuitBreakerConfigBuilder .single Unit) (s : System Unit),
      ReachableByCalls b.build s → VerdictsByProbes b.build s.shared.log := by
  intro hlaw
  have hcalls : ReachableByCalls hairTrigger.build
      { shared := write hairTrigger.build outage.shared 1 .success ⟨1, 1, 0⟩
        tasks := outage.tasks.set 1 (.announcing false (.halfOpen, .closed) (.ok ())) } :=
    ⟨0, _, outageRun ++ [.act 1 (.finish (.ok ())), .act 1 (.record ⟨1, 1, 0⟩)], rfl,
      by simp [outageRun], runs_of_execute rfl⟩
  obtain ⟨calls, -, hlength, hprobes⟩ :=
    (hlaw hairTrigger _ hcalls 1 false ⟨1, 1, 0⟩ .closed outage.shared.log
      (List.suffix_refl _)).1 rfl
  obtain ⟨j, hj⟩ := List.exists_mem_of_length_pos (Nat.lt_of_lt_of_le Nat.zero_lt_one hlength)
  have hnone : episode outage.shared.log = [] := rfl
  have hadmitted := (hprobes j hj).1
  rw [hnone] at hadmitted
  cases hadmitted

end System

end Breaker
