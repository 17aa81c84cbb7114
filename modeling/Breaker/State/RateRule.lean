import Breaker.Config.Setters
import Breaker.Foundation.Streaks
import Breaker.State.Refinement

/-!
# When the rate rule matters

The streak rule leaves no `consecutiveFailures` failures in a row to the rate
rule, so that of the last `k` outcomes at least `k / consecutiveFailures` are
successes.  Whether the rate rule can still reach its threshold is a matter of
the window sizes that it is evaluated at, and nothing else decides whether the
rate rule can be told from a disabled one.
-/

namespace Breaker

open Foundation

universe u

variable {arith : RateArithmetic} {ε : Type u}

namespace StateMachine

variable {config config' : CircuitBreakerConfig arith ε} {history : List Bool}

/-! ## The streak rule alone -/

theorem streakOf_iff (n : Nat) (history : List Bool) :
    StreakOf n history ↔ n ≤ (history.rtakeWhile id).length :=
  (le_length_rtakeWhile_iff id history n).symm

theorem getLast?_of_streakOf {n : Nat} (hn : 1 ≤ n) (h : StreakOf n history) :
    history.getLast? = some true := by
  induction history using List.reverseRecOn with
  | nil => exact absurd (hn.trans h.1) (by simp)
  | append_singleton history failed _ =>
      have hmem : failed ∈ (history ++ [failed]).rtake n := by
        obtain ⟨m, rfl⟩ := Nat.exists_eq_add_of_le' hn
        rw [List.rtake_concat_succ]
        simp
      rw [List.getLast?_concat, h.2 failed hmem]

theorem noStreak_of_live (hconfig : config.WellFormed)
    (h : Circuit.Live (TripsAt config) history) :
    NoStreak id config.consecutiveFailures history := by
  intro before hprefix
  by_contra hstreak
  rw [not_lt, ← streakOf_iff] at hstreak
  have hlast := getLast?_of_streakOf hconfig.consecutive_pos hstreak
  obtain ⟨start, rfl⟩ := List.getLast?_eq_some_iff.mp hlast
  exact h start true hprefix ⟨hlast, .inl hstreak⟩

/-- The largest failure rate over `k` outcomes without a streak stays below the threshold. -/
def RateOutOfReach (config : CircuitBreakerConfig arith ε) (q : ℚ) : Prop :=
  ∀ k, config.minimumCalls ≤ k → k ≤ config.slidingWindowSize →
    arith.rate (k - k / config.consecutiveFailures) k < q

theorem rateOutOfReach_exact {config : CircuitBreakerConfig .exact ε} (hconfig : config.WellFormed)
    (q : ℚ) :
    RateOutOfReach config q ↔ ∀ k, config.minimumCalls ≤ k → k ≤ config.slidingWindowSize →
      ((k - k / config.consecutiveFailures : Nat) : ℚ) < q * k := by
  refine forall_congr' fun k => forall₂_congr fun hminimum _ => ?_
  have hpos : (0 : ℚ) < k := by exact_mod_cast hconfig.minimum_pos.trans hminimum
  rw [RateArithmetic.exact_rate, div_lt_iff₀ hpos]

theorem not_rateReached_of_noStreak (hconfig : config.WellFormed) {q : ℚ}
    (hq : config.failureRateThreshold = .finite q)
    (hreach : RateOutOfReach config q) (h : NoStreak id config.consecutiveFailures history) :
    ¬ RateReached config history := by
  rintro ⟨q', hq', -, hminimum, hrate⟩
  rw [hq, FloatValue.finite.injEq] at hq'
  subst hq'
  set k := min history.length config.slidingWindowSize with hk
  have hcount := countP_add_of_noStreak (h.rtake k)
  rw [length_rtake, min_eq_left (hk ▸ min_le_left _ _)] at hcount
  have hbound := hreach k hminimum (hk ▸ min_le_right _ _)
  have hle := arith.rate_mono (Nat.le_sub_of_add_le hcount) (hconfig.minimum_pos.trans hminimum)
    le_rfl
  exact absurd (hrate.trans hle) (not_le.mpr hbound)

/-- The evenly spaced history reaches every rate that any history without a streak reaches. -/
theorem tripsAt_spaced (hconfig : config.WellFormed) {q : ℚ}
    (hq : config.failureRateThreshold = .finite q) (hpos : 0 < q) {k : Nat}
    (hminimum : config.minimumCalls ≤ k) (hmaximum : k ≤ config.slidingWindowSize)
    (hrate : q ≤ arith.rate (k - k / config.consecutiveFailures) k) :
    TripsAt config (spaced config.consecutiveFailures k) := by
  have hk : 0 < k := hconfig.minimum_pos.trans hminimum
  have hn : 1 < config.consecutiveFailures := by
    refine lt_of_le_of_ne hconfig.consecutive_pos fun hone => ?_
    rw [← hone, Nat.div_one, Nat.sub_self, arith.rate_zero] at hrate
    exact absurd hpos (not_lt.mpr hrate)
  have hlength : min (spaced config.consecutiveFailures k).length config.slidingWindowSize = k := by
    rw [length_spaced, min_eq_left hmaximum]
  have hcount := countP_spaced config.consecutiveFailures k
  refine ⟨getLast?_spaced hn hk, .inr ⟨q, hq, hpos, ?_, ?_⟩⟩
  · rwa [hlength]
  · rw [hlength, rtake_of_length_le (by rw [length_spaced])]
    exact hrate.trans (arith.rate_mono (by omega) hk le_rfl)

/-! ## With and without the rate rule -/

theorem agreeLive_iff_rateOutOfReach (hconfig : config.WellFormed) {q : ℚ}
    (hq : config.failureRateThreshold = .finite q) (hpos : 0 < q)
    (hsame : config'.consecutiveFailures = config.consecutiveFailures)
    (hdisabled : ∀ history, ¬ RateReached config' history) :
    Circuit.AgreeLive (TripsAt config) (TripsAt config') ↔ RateOutOfReach config q := by
  constructor
  · intro hagree k hminimum hmaximum
    by_contra hrate
    have htrips := tripsAt_spaced hconfig hq hpos hminimum hmaximum (not_lt.mp hrate)
    have hspaced := noStreak_spaced hconfig.consecutive_pos k
    have hlive' : Circuit.Live (TripsAt config') (spaced config.consecutiveFailures k) := by
      rintro before outcome hprefix ⟨-, hstreak | hreached⟩
      · rw [hsame, streakOf_iff] at hstreak
        exact absurd (hspaced _ hprefix) (not_lt.mpr hstreak)
      · exact hdisabled _ hreached
    obtain ⟨start, heq⟩ := List.getLast?_eq_some_iff.mp htrips.1
    rw [heq] at htrips hlive'
    exact hagree.live hlive' start true (List.prefix_refl _) htrips
  · intro hreach history outcome hlive
    constructor
    · rintro ⟨hlast, hstreak | hrate⟩
      · exact ⟨hlast, .inl (hsame ▸ hstreak)⟩
      · by_cases hstreak : StreakOf config.consecutiveFailures (history ++ [outcome])
        · exact ⟨hlast, .inl (hsame ▸ hstreak)⟩
        · rw [streakOf_iff, not_le] at hstreak
          have hnone := noStreak_concat_iff.mpr ⟨noStreak_of_live hconfig hlive, hstreak⟩
          exact absurd hrate (not_rateReached_of_noStreak hconfig hq hreach hnone)
    · rintro ⟨hlast, hstreak | hrate⟩
      · exact ⟨hlast, .inl (hsame ▸ hstreak)⟩
      · exact absurd hrate (hdisabled _)

/--
The rate rule of a configuration makes no difference exactly when no history
without a streak reaches its threshold, at any of the window sizes from
`minimumCalls` to the full window.
-/
theorem rate_rule_redundant_iff (b : CircuitBreakerConfigBuilder arith ε) {q : ℚ}
    (hq : b.build.failureRateThreshold = .finite q) (hpos : 0 < q) {draw : Draw}
    {s s' : StateMachine} (hnew : new b.build draw = some s)
    (hnew' : new (b.setFailureRateThreshold (.finite 0)).build draw = some s') :
    Indistinguishable b.build (b.setFailureRateThreshold (.finite 0)).build s s' ↔
      RateOutOfReach b.build q := by
  have hconfig' := build_wellFormed (b.setFailureRateThreshold (.finite 0))
  refine (indistinguishable_iff_agreeLive (build_wellFormed b) hconfig' rfl rfl hnew hnew').trans ?_
  refine agreeLive_iff_rateOutOfReach (build_wellFormed b) hq hpos rfl ?_
  rintro history ⟨q', hq', hpos', -⟩
  have hclamp : FloatValue.clamp (.finite 0) (.finite 0) (.finite 1) = .finite 0 := by
    decide +kernel
  have hzero : (b.setFailureRateThreshold (.finite 0)).build.failureRateThreshold = .finite 0 := by
    simp only [CircuitBreakerConfigBuilder.build,
      CircuitBreakerConfigBuilder.setFailureRateThreshold, Option.getD_some, hclamp]
  rw [hzero, FloatValue.finite.injEq] at hq'
  exact absurd hpos' (by rw [← hq']; exact lt_irrefl 0)

/-- The configuration that the setters build, with its rate rule disabled. -/
def withoutRate (setters : List (Setter ε)) : CircuitBreakerConfig arith ε :=
  ((CircuitBreakerConfigBuilder.chain setters).setFailureRateThreshold (.finite 0)).build

open CircuitBreakerConfig CircuitBreakerConfigBuilder in
/-- Of the presets only `fast_fail` has a rate rule that makes no difference. -/
theorem rate_rule_redundant_iff_presets :
    (∃ s s', new (fastFail : CircuitBreakerConfig .single Unit) 0 = some s ∧
      new (withoutRate fastFailSetters : CircuitBreakerConfig .single Unit) 0 = some s' ∧
      Indistinguishable (fastFail : CircuitBreakerConfig .single Unit)
        (withoutRate fastFailSetters) s s') ∧
    (∃ s s', new (standard : CircuitBreakerConfig .single Unit) 0 = some s ∧
      new (withoutRate standardSetters : CircuitBreakerConfig .single Unit) 0 = some s' ∧
      ¬ Indistinguishable (standard : CircuitBreakerConfig .single Unit)
        (withoutRate standardSetters) s s') ∧
    ∃ s s', new (lenient : CircuitBreakerConfig .single Unit) 0 = some s ∧
      new (withoutRate lenientSetters : CircuitBreakerConfig .single Unit) 0 = some s' ∧
      ¬ Indistinguishable (lenient : CircuitBreakerConfig .single Unit)
        (withoutRate lenientSetters) s s' := by
  refine ⟨⟨_, _, rfl, rfl, ?_⟩, ⟨_, _, rfl, rfl, fun hsame => ?_⟩,
    ⟨_, _, rfl, rfl, fun hsame => ?_⟩⟩
  · refine (@rate_rule_redundant_iff _ _ (chain fastFailSetters) 1 (by decide +kernel) one_pos 0
      _ _ rfl rfl).mpr fun k _ _ => ?_
    have hnone : k - k / (chain fastFailSetters : CircuitBreakerConfigBuilder
        .single Unit).build.consecutiveFailures = 0 := by
      change k - k / 1 = 0
      omega
    rw [hnone, RateArithmetic.rate_zero]
    exact one_pos
  · have hreach := (@rate_rule_redundant_iff _ _ (chain standardSetters) (1 / 2)
      (by decide +kernel) (by norm_num) 0 _ _ rfl rfl).mp hsame 10 (by decide) (by decide)
    exact absurd hreach (by decide +kernel)
  · have hreach := (@rate_rule_redundant_iff _ _ (chain lenientSetters) (1 / 2)
      (by decide +kernel) (by norm_num) 0 _ _ rfl rfl).mp hsame 20 (by decide) (by decide)
    exact absurd hreach (by decide +kernel)

end StateMachine

end Breaker
