import Breaker.Tasks.Episode
import Breaker.Tasks.Permits

/-!
# The probe budget of an episode

At any time at most `halfOpenMaxCalls` guards are alive.  A probe whose guard is
gone has recorded a success, of which the episode survives `successThreshold - 1`,
or it gave its permit back without a record.
-/

namespace Breaker

open Foundation

universe u

variable {arith : RateArithmetic} {ε : Type u}

def recordedIn (log : List Event) (i : Nat) : Bool :=
  (episode log).any fun
    | .wrote j .. => i == j
    | .admitted .. | .called .. | .released _ => false

def unrecorded (log : List Event) : Nat :=
  (probes log).countP fun i => (episode log).contains (.released i) && !recordedIn log i

theorem recordedIn_iff {log : List Event} {i : Nat} : recordedIn log i = true ↔
    ∃ op tick prev next, .wrote i op tick prev next ∈ episode log := by
  rw [recordedIn, List.any_eq_true]
  constructor
  · rintro ⟨e, he, hrecorded⟩
    cases e with
    | wrote j op tick prev next =>
        rw [beq_iff_eq] at hrecorded
        subst hrecorded
        exact ⟨_, _, _, _, he⟩
    | _ => cases hrecorded
  · rintro ⟨op, tick, prev, next, he⟩
    exact ⟨_, he, by simp⟩

namespace System

variable {config : CircuitBreakerConfig arith ε} {s s' : System ε}

theorem successCount_le {t : StateMachine} (h : t.Shape config) :
    t.successCount ≤ config.successThreshold - 1 := by
  cases hcurrent : t.current with
  | closed => simp [(h.closed hcurrent).2.1]
  | opened => simp [(h.opened hcurrent).2.1]
  | halfOpen =>
      have := (h.halfOpen hcurrent).2.1
      omega

theorem Ledger.holders_le (h : Ledger s) (hpermits : Permits config s) :
    (probes s.shared.log).countP (fun i => s.tasks[i]?.any Phase.holdsPermit) ≤
      config.halfOpenMaxCalls := by
  have hle : s.tasks.countP Phase.holdsPermit ≤ config.halfOpenMaxCalls :=
    hpermits.count ▸ hpermits.le_max
  rw [List.countP_eq_length_filter]
  refine le_trans (length_le_countP Phase.holdsPermit (h.probes_nodup.filter _) ?_) hle
  intro i hi
  have hholds := (List.mem_filter.mp hi).2
  cases hphase : s.tasks[i]? with
  | none => simp [hphase] at hholds
  | some phase => exact ⟨phase, rfl, by simpa [hphase] using hholds⟩

theorem Ledger.recorded_le (h : Ledger s) (hshape : s.shared.state.Shape config) :
    (probes s.shared.log).countP (recordedIn s.shared.log) ≤ config.successThreshold - 1 := by
  rw [List.countP_eq_length_filter]
  have hsubset : (probes s.shared.log).filter (recordedIn s.shared.log) ⊆
      verdicts s.shared.log := by
    intro i hi
    obtain ⟨hprobe, hrecorded⟩ := List.mem_filter.mp hi
    obtain ⟨op, tick, prev, next, he⟩ := recordedIn_iff.mp hrecorded
    have hprev := h.heard i hprobe op tick prev next he
    subst hprev
    exact mem_verdicts.mpr ⟨op, tick, next, he⟩
  have hle := ((h.probes_nodup.filter _).subperm hsubset).length_le
  rw [← h.counted] at hle
  exact hle.trans (successCount_le hshape)

theorem Reachable.budget (hconfig : config.WellFormed) (h : Reachable config s) :
    (probes s.shared.log).length ≤
      config.halfOpenMaxCalls + (config.successThreshold - 1) + unrecorded s.shared.log := by
  have hledger := h.ledger hconfig
  -- A probe owns its guard, or has recorded in the episode, or gave the permit back unused.
  have hcover := length_le_countP_add (fun i => s.tasks[i]?.any Phase.holdsPermit)
    (recordedIn s.shared.log)
    (fun i => (episode s.shared.log).contains (.released i) && !recordedIn s.shared.log i)
    (l := probes s.shared.log) (by
      intro i hi
      rcases hledger.owners i hi with hreleased | ⟨phase, hphase, hholds⟩
      · cases hrecorded : recordedIn s.shared.log i with
        | true => simp
        | false => simp [hreleased]
      · simp [hphase, hholds])
  have hholders := hledger.holders_le h.permits
  have hrecorded := hledger.recorded_le (h.machine.shape hconfig)
  unfold unrecorded
  omega

theorem Step.log_cases {action : PoolAction Job (TaskAction ε)} (h : Step config s action s') :
    s'.shared.log = s.shared.log ∨ ∃ e, s'.shared.log = e :: s.shared.log := by
  rcases step_cases h with ⟨job, -, rfl⟩ | ⟨i, a, phase, shared, phase', -, -, hacts, rfl⟩
  · exact .inl rfl
  · cases hacts with
    | enter => exact .inr ⟨_, rfl⟩
    | acquire => exact .inr ⟨_, rfl⟩
    | record => exact .inr ⟨_, rfl⟩
    | force => exact .inr ⟨_, rfl⟩
    | announce => exact .inr ⟨_, rfl⟩
    | @release permit =>
        cases permit with
        | false => exact .inl rfl
        | true => exact .inr ⟨_, rfl⟩
    | _ => exact .inl rfl

/--
The probe budget, for every episode of every interleaving: `earlier` is the log
at any earlier time, and its episode the one that was going on then.
-/
theorem probe_budget (b : CircuitBreakerConfigBuilder arith ε) (h : Reachable b.build s)
    {earlier : List Event} (hearlier : earlier <:+ s.shared.log) :
    (probes earlier).length ≤
      b.build.halfOpenMaxCalls + (b.build.successThreshold - 1) + unrecorded earlier := by
  have hconfig := build_wellFormed b
  revert earlier
  apply h.invariant
  · intro draw start hnew earlier hearlier
    obtain ⟨state, -, rfl⟩ := Option.map_eq_some_iff.mp hnew
    rw [List.suffix_nil.mp hearlier]
    exact Nat.zero_le _
  · intro s action s' hreach hbudget hstep earlier hearlier
    rcases Step.log_cases hstep with hsame | ⟨e, hlog⟩
    · exact hbudget (hsame ▸ hearlier)
    · rw [hlog, List.suffix_cons_iff] at hearlier
      rcases hearlier with rfl | hold
      · rw [← hlog]
        exact (hreach.step hstep).budget hconfig
      · exact hbudget hold

theorem probe_budget_probing :
    (probes probing.shared.log).length ≤
      hairTrigger.build.halfOpenMaxCalls + (hairTrigger.build.successThreshold - 1) +
        unrecorded probing.shared.log :=
  probe_budget hairTrigger probing_reachable (List.suffix_refl _)

end System

end Breaker
