import Breaker.Config.Backoff
import Mathlib.Algebra.Order.GroupWithZero.Basic
import Mathlib.Tactic.GCongr

/-!
# The backoff in exact arithmetic

With `FloatValue.finite` as the rounding function every intermediate result of a
wait is the exact rational.  The exponential formula is then
`min (initial * factor ^ n) max` with the exponent `n` capped at `1024`, whatever
the factor; the cap can be seen for factors close to one, where `factor ^ 1024`
is still far from `max`.
-/

namespace Breaker

open Foundation

/-! ## Capped powers -/

section CappedPowers

variable {i m q : ℚ} {k n : Nat}

theorem min_eq_min_iff (x y m : ℚ) : min x m = min y m ↔ x = y ∨ m ≤ x ∧ m ≤ y := by
  constructor
  · intro h
    rcases le_total m x with hx | hx
    · rw [min_eq_right hx] at h
      exact .inr ⟨hx, h.le.trans (min_le_left y m)⟩
    · rw [min_eq_left hx] at h
      rcases le_total m y with hy | hy
      · rw [min_eq_right hy] at h
        exact .inr ⟨h.ge, hy⟩
      · rw [min_eq_left hy] at h
        exact .inl h
  · rintro (rfl | ⟨hx, hy⟩)
    · rfl
    · rw [min_eq_right hx, min_eq_right hy]

theorem mul_pow_eq_mul_pow_iff (hq : 0 ≤ q) (hk : k ≠ 0) (hlt : k < n) :
    i * q ^ k = i * q ^ n ↔ i = 0 ∨ q = 0 ∨ q = 1 := by
  constructor
  · intro h
    by_contra hne
    rw [not_or, not_or] at hne
    obtain ⟨hi, hzero, hone⟩ := hne
    have hpow := mul_left_cancel₀ hi h
    exact hlt.ne ((pow_right_inj₀ (lt_of_le_of_ne hq (Ne.symm hzero)) hone).mp hpow)
  · rintro (rfl | rfl | rfl)
    · simp
    · simp [hk, (Nat.zero_lt_of_lt hlt).ne']
    · simp

theorem min_mul_pow_mono (hi : 0 ≤ i) (hq : 1 ≤ q) (hle : k ≤ n) (m : ℚ) :
    min (i * q ^ k) m ≤ min (i * q ^ n) m :=
  min_le_min_right m (mul_le_mul_of_nonneg_left (pow_le_pow_right₀ hq hle) hi)

theorem min_mul_pow_eq_iff (hi : 0 ≤ i) (hq : 0 ≤ q) (hk : k ≠ 0) (hlt : k < n) :
    min (i * q ^ k) m = min (i * q ^ n) m ↔
      i = 0 ∨ q = 0 ∨ q = 1 ∨ 1 < q ∧ m ≤ i * q ^ k ∨ q < 1 ∧ m ≤ i * q ^ n := by
  rw [min_eq_min_iff, mul_pow_eq_mul_pow_iff hq hk hlt, or_assoc, or_assoc]
  refine or_congr_right (or_congr_right ?_)
  rcases lt_trichotomy q 1 with hsmall | rfl | hlarge
  · have hle : i * q ^ n ≤ i * q ^ k :=
      mul_le_mul_of_nonneg_left (pow_le_pow_of_le_one hq hsmall.le hlt.le) hi
    have hboth : m ≤ i * q ^ k ∧ m ≤ i * q ^ n ↔ m ≤ i * q ^ n :=
      ⟨And.right, fun h => ⟨h.trans hle, h⟩⟩
    simp [hboth, hsmall, hsmall.ne, not_lt.mpr hsmall.le]
  · simp
  · have hle : i * q ^ k ≤ i * q ^ n :=
      mul_le_mul_of_nonneg_left (pow_le_pow_right₀ hlarge.le hlt.le) hi
    have hboth : m ≤ i * q ^ k ∧ m ≤ i * q ^ n ↔ m ≤ i * q ^ k :=
      ⟨And.left, fun h => ⟨h, h.trans hle⟩⟩
    simp [hboth, hlarge, hlarge.ne', not_lt.mpr hlarge.le]

end CappedPowers

/-! ## Exact values -/

section ExactValues

variable {initial max : Duration} {q : ℚ}

theorem exponentialSecs_exact (initial max : Duration) (hq : 0 ≤ q) (attempt : Nat) :
    exponentialSecs .finite (initial.asSecsF64 .finite) (max.asSecsF64 .finite) (.finite q)
        attempt =
      .finite (min (initial.secs * q ^ Nat.min (attempt - 1) 1024) max.secs) := by
  have hnonneg : 0 ≤ min (initial.secs * q ^ Nat.min (attempt - 1) 1024) max.secs :=
    le_min (mul_nonneg initial.secs_nonneg (pow_nonneg hq _)) max.secs_nonneg
  simp only [exponentialSecs, Duration.asSecsF64, FloatValue.powNat_exact, FloatValue.mul_finite,
    FloatValue.min_finite, FloatValue.max_finite]
  rw [max_eq_left hnonneg]

/-! ## Conversion back to a duration -/

theorem Duration.secs_mul (d : Duration) : d.secs * 10 ^ 9 = ((d.nanos : ℤ) : ℚ) := by
  rw [Duration.secs, div_mul_cancel₀ _ (by norm_num)]
  rfl

theorem fromSecsF64_le {x : ℚ} {d : Duration} (hx : 0 ≤ x) (hle : x ≤ d.secs) :
    ∃ w, Duration.fromSecsF64 (.finite x) = some w ∧
      w.nanos = (roundHalfEven (x * 10 ^ 9)).toNat ∧ w.nanos ≤ d.nanos := by
  have hround : roundHalfEven (x * 10 ^ 9) ≤ d.nanos := by
    apply roundHalfEven_le_of_le
    rw [← d.secs_mul]
    gcongr
  have hnanos : (roundHalfEven (x * 10 ^ 9)).toNat ≤ d.nanos := by omega
  have hlimit : (roundHalfEven (x * 10 ^ 9)).toNat < durationLimit := hnanos.trans_lt d.lt_limit
  refine ⟨⟨_, hlimit⟩, ?_, rfl, hnanos⟩
  simp only [Duration.fromSecsF64, not_lt.mpr hx, ↓reduceIte, hlimit, ↓reduceDIte]

theorem fromSecsF64_secs (d : Duration) : Duration.fromSecsF64 (.finite d.secs) = some d := by
  obtain ⟨w, hw, hnanos, -⟩ := fromSecsF64_le d.secs_nonneg le_rfl
  rw [d.secs_mul, roundHalfEven_intCast, Int.toNat_natCast] at hnanos
  have hwd : w = d := by
    cases w
    cases d
    simpa using hnanos
  rw [hw, hwd]

theorem fromSecsF64_mono {x y : ℚ} {v w : Duration} (hle : x ≤ y)
    (hv : v.nanos = (roundHalfEven (x * 10 ^ 9)).toNat)
    (hw : w.nanos = (roundHalfEven (y * 10 ^ 9)).toNat) : v.nanos ≤ w.nanos := by
  rw [hv, hw]
  apply Int.toNat_le_toNat
  apply roundHalfEven_mono
  gcongr

/-! ## The documented formula -/

/--
Where the cap on the exponent cannot be seen: the exponent is below it, or the
capped exponent gives the same wait.
-/
def CapUnseen (initial max factor : ℚ) (attempt : Nat) : Prop :=
  attempt ≤ 1025 ∨ initial = 0 ∨ max = 0 ∨ factor = 0 ∨ factor = 1 ∨
    1 < factor ∧ max ≤ initial * factor ^ 1024 ∨
    factor < 1 ∧ max ≤ initial * factor ^ (attempt - 1)

theorem capped_iff_capUnseen (hq : 0 ≤ q) {attempt : Nat} :
    min (initial.secs * q ^ Nat.min (attempt - 1) 1024) max.secs =
        min (initial.secs * q ^ (attempt - 1)) max.secs ↔
      CapUnseen initial.secs max.secs q attempt := by
  have hinitial := initial.secs_nonneg
  have hmax := max.secs_nonneg
  unfold CapUnseen
  by_cases hlow : attempt ≤ 1025
  · have hexp : Nat.min (attempt - 1) 1024 = attempt - 1 := Nat.min_eq_left (by omega)
    rw [hexp]
    simp [hlow]
  · have hexp : Nat.min (attempt - 1) 1024 = 1024 := Nat.min_eq_right (by omega)
    rw [hexp, min_mul_pow_eq_iff hinitial hq (by norm_num) (by omega)]
    simp only [hlow, false_or]
    by_cases hzero : max.secs = 0
    · have hleft : 0 ≤ initial.secs * q ^ 1024 := mul_nonneg hinitial (pow_nonneg hq _)
      have hright : 0 ≤ initial.secs * q ^ (attempt - 1) :=
        mul_nonneg hinitial (pow_nonneg hq _)
      rw [hzero]
      simp only [hleft, hright, and_true, true_or, or_true, iff_true]
      rcases lt_trichotomy q 1 with hlt | heq | hgt <;> simp [*]
    · simp [hzero]

theorem exponentialWait_max {attempt : Nat}
    (h : exponentialSecs .finite (initial.asSecsF64 .finite) (max.asSecsF64 .finite) (.finite q)
      attempt = .finite max.secs) :
    exponentialWait .finite initial max (.finite q) attempt = some max := by
  rw [exponentialWait, h, fromSecsF64_secs]

def MeetsFormula (initial max : Duration) (q : ℚ) (attempt : Nat) : Prop :=
  exponentialSecs .finite (initial.asSecsF64 .finite) (max.asSecsF64 .finite) (.finite q) attempt =
    .finite (min (initial.secs * q ^ (attempt - 1)) max.secs)

def WaitsMax (initial max : Duration) (q : ℚ) (attempt : Nat) : Prop :=
  exponentialSecs .finite (initial.asSecsF64 .finite) (max.asSecsF64 .finite) (.finite q) attempt =
      .finite max.secs ∧
    exponentialWait .finite initial max (.finite q) attempt = some max

theorem meetsFormula_iff (hq : 0 ≤ q) (attempt : Nat) :
    MeetsFormula initial max q attempt ↔ CapUnseen initial.secs max.secs q attempt := by
  rw [MeetsFormula, exponentialSecs_exact initial max hq, FloatValue.finite.injEq,
    capped_iff_capUnseen hq]

theorem waitsMax_of_capUnseen (hq : 1 < q) {attempt : Nat}
    (hreach : max.secs ≤ initial.secs * q ^ (attempt - 1))
    (hunseen : CapUnseen initial.secs max.secs q attempt) {later : Nat} (hle : attempt ≤ later) :
    WaitsMax initial max q later := by
  have hinitial := initial.secs_nonneg
  have hmono : ∀ {k n : Nat}, k ≤ n → initial.secs * q ^ k ≤ initial.secs * q ^ n := fun hkn =>
    mul_le_mul_of_nonneg_left (pow_le_pow_right₀ hq.le hkn) hinitial
  have hcapped : max.secs ≤ initial.secs * q ^ Nat.min (later - 1) 1024 := by
    have hcut : max.secs ≤ initial.secs * q ^ 1024 →
        max.secs ≤ initial.secs * q ^ Nat.min (later - 1) 1024 := by
      intro hcap
      rcases le_total (later - 1) 1024 with hlow | hhigh
      · have hexp : Nat.min (later - 1) 1024 = later - 1 := Nat.min_eq_left hlow
        rw [hexp]
        exact hreach.trans (hmono (by omega))
      · have hexp : Nat.min (later - 1) 1024 = 1024 := Nat.min_eq_right hhigh
        rwa [hexp]
    have hnone : max.secs = 0 → max.secs ≤ initial.secs * q ^ Nat.min (later - 1) 1024 := by
      intro hzero
      rw [hzero]
      exact mul_nonneg hinitial (pow_nonneg (zero_le_one.trans hq.le) _)
    rcases hunseen with hlow | hzero | hzero | hzero | hone | ⟨-, hcap⟩ | ⟨hsmall, -⟩
    · exact hcut (hreach.trans (hmono (by omega)))
    · rw [hzero, zero_mul] at hreach
      exact hnone (le_antisymm hreach max.secs_nonneg)
    · exact hnone hzero
    · linarith
    · linarith
    · exact hcut hcap
    · linarith
  have hvalue : exponentialSecs .finite (initial.asSecsF64 .finite) (max.asSecsF64 .finite)
      (.finite q) later = .finite max.secs := by
    rw [exponentialSecs_exact initial max (zero_le_one.trans hq.le), min_eq_right hcapped]
  exact ⟨hvalue, exponentialWait_max hvalue⟩

/--
The exponential formula holds exactly where the cap on the exponent cannot be
seen, and so does its consequence that a wait that has reached `max` stays there.
-/
theorem exponential_formula (initial max : Duration) (hq : 0 ≤ q) {attempt : Nat}
    (hlt : attempt < 2 ^ 32) :
    (MeetsFormula initial max q attempt ↔ CapUnseen initial.secs max.secs q attempt) ∧
      (1 < q → max.secs ≤ initial.secs * q ^ (attempt - 1) →
        ((∀ later, attempt ≤ later → later < 2 ^ 32 → WaitsMax initial max q later) ↔
          CapUnseen initial.secs max.secs q attempt)) := by
  refine ⟨meetsFormula_iff hq attempt, fun hlarge hreach => ⟨fun hwaits => ?_, ?_⟩⟩
  · rw [← meetsFormula_iff hq, MeetsFormula, min_eq_right hreach]
    exact (hwaits attempt le_rfl hlt).1
  · intro hunseen later hle _
    exact waitsMax_of_capUnseen hlarge hreach hunseen hle

theorem exponential_formula_doubling :
    (MeetsFormula (.fromSecs 1) (.fromSecs 60) 2 50 ↔
        CapUnseen (Duration.fromSecs 1).secs (Duration.fromSecs 60).secs 2 50) ∧
      ((1 : ℚ) < 2 → (Duration.fromSecs 60).secs ≤ (Duration.fromSecs 1).secs * 2 ^ (50 - 1) →
        ((∀ later, 50 ≤ later → later < 2 ^ 32 →
            WaitsMax (.fromSecs 1) (.fromSecs 60) 2 later) ↔
          CapUnseen (Duration.fromSecs 1).secs (Duration.fromSecs 60).secs 2 50)) :=
  exponential_formula (.fromSecs 1) (.fromSecs 60) (by norm_num) (by norm_num)

theorem fromSecs_secs (n : UInt64) : (Duration.fromSecs n).secs = n.toNat := by
  rw [Duration.secs, Duration.fromSecs]
  push_cast
  exact mul_div_cancel_right₀ _ (by norm_num)

/-- A growth of one per mille has reached a factor of three when the exponent stops. -/
theorem exponential_formula_slowGrowth :
    ¬ ∀ (initial max : Duration) (q : ℚ) (attempt : Nat), 0 ≤ q → 1 ≤ attempt →
      attempt < 2 ^ 32 → MeetsFormula initial max q attempt := by
  intro hlaw
  have hformula := hlaw (.fromSecs 1) (.fromSecs 100) (1001 / 1000) 2000 (by norm_num)
    (by norm_num) (by norm_num)
  have hinitial : (Duration.fromSecs 1).secs = 1 := fromSecs_secs 1
  have hmax : (Duration.fromSecs 100).secs = 100 := fromSecs_secs 100
  rw [meetsFormula_iff (by norm_num), hinitial, hmax] at hformula
  have hsmall : (1001 / 1000 : ℚ) ^ 1024 < 100 := calc
    (1001 / 1000 : ℚ) ^ 1024 = ((1001 / 1000) ^ 128) ^ 8 := by rw [← pow_mul]
    _ ≤ (6 / 5) ^ 8 := pow_le_pow_left₀ (by norm_num) (by norm_num) 8
    _ < 100 := by norm_num
  norm_num [CapUnseen] at hformula
  exact absurd hformula (not_le.mpr hsmall)

/-! ## Growth and jitter -/

theorem exponentialWait_exact (initial max : Duration) (hq : 0 ≤ q) (attempt : Nat) :
    ∃ w, exponentialWait .finite initial max (.finite q) attempt = some w ∧
      w.nanos = (roundHalfEven (min (initial.secs * q ^ Nat.min (attempt - 1) 1024) max.secs *
        10 ^ 9)).toNat ∧ w.nanos ≤ max.nanos := by
  rw [exponentialWait, exponentialSecs_exact initial max hq]
  apply fromSecsF64_le _ (min_le_right _ _)
  exact le_min (mul_nonneg initial.secs_nonneg (pow_nonneg hq _)) max.secs_nonneg

theorem exponentialWait_mono (initial max : Duration) (hq : 1 ≤ q) {attempt later : Nat}
    (hle : attempt ≤ later) :
    ∃ v w, exponentialWait .finite initial max (.finite q) attempt = some v ∧
      exponentialWait .finite initial max (.finite q) later = some w ∧
      v.nanos ≤ w.nanos ∧ w.nanos ≤ max.nanos := by
  have hzero : 0 ≤ q := zero_le_one.trans hq
  obtain ⟨v, hv, hvnanos, -⟩ := exponentialWait_exact initial max hzero attempt
  obtain ⟨w, hw, hwnanos, hmax⟩ := exponentialWait_exact initial max hzero later
  have hexp : Nat.min (attempt - 1) 1024 ≤ Nat.min (later - 1) 1024 :=
    min_le_min_right 1024 (Nat.sub_le_sub_right hle 1)
  have hsecs := min_mul_pow_mono initial.secs_nonneg hq hexp max.secs
  exact ⟨v, w, hv, hw, fromSecsF64_mono hsecs hvnanos hwnanos, hmax⟩

theorem exponentialSecs_total (initial max : Duration) (factor : FloatValue) (attempt : Nat) :
    ∃ x, exponentialSecs .finite (initial.asSecsF64 .finite) (max.asSecsF64 .finite) factor
        attempt = .finite x ∧ 0 ≤ x ∧ x ≤ max.secs := by
  have hmax := max.secs_nonneg
  have hcap : FloatValue.max (.finite max.secs) (.finite 0) = .finite max.secs := by
    rw [FloatValue.max_finite, max_eq_left hmax]
  unfold exponentialSecs
  dsimp only
  cases FloatValue.mul .finite (initial.asSecsF64 .finite)
      (factor.powNat .finite (Nat.min (attempt - 1) 1024)) with
  | nan => exact ⟨max.secs, hcap, hmax, le_rfl⟩
  | posInf => exact ⟨max.secs, hcap, hmax, le_rfl⟩
  | negInf => exact ⟨0, rfl, le_rfl, hmax⟩
  | finite q =>
      rw [Duration.asSecsF64, FloatValue.min_finite, FloatValue.max_finite]
      exact ⟨_, rfl, le_max_right _ _, max_le (min_le_right _ _) hmax⟩

theorem exponentialWait_total (initial max : Duration) (factor : FloatValue) (attempt : Nat) :
    ∃ w, exponentialWait .finite initial max factor attempt = some w ∧ w.nanos ≤ max.nanos := by
  obtain ⟨x, hx, hnonneg, hle⟩ := exponentialSecs_total initial max factor attempt
  obtain ⟨w, hw, -, hnanos⟩ := fromSecsF64_le hnonneg hle
  exact ⟨w, by rw [exponentialWait, hx, hw], hnanos⟩

theorem exponentialWait_posInf (initial max : Duration) {attempt : Nat} (h : 2 ≤ attempt) :
    exponentialWait .finite initial max .posInf attempt = some max := by
  have hmax : ¬ max.secs < 0 := not_lt.mpr max.secs_nonneg
  have hexp : ∃ n, Nat.min (attempt - 1) 1024 = n + 1 :=
    Nat.exists_eq_add_one.mpr (lt_min (by omega) (by norm_num))
  obtain ⟨n, hn⟩ := hexp
  have hinf : FloatValue.mul .finite (initial.asSecsF64 .finite) .posInf = .nan ∨
      FloatValue.mul .finite (initial.asSecsF64 .finite) .posInf = .posInf := by
    simp only [FloatValue.mul, FloatValue.infTimes, Duration.asSecsF64]
    split_ifs with hzero hpos
    · exact .inl rfl
    · exact .inr rfl
    · have := lt_of_le_of_ne initial.secs_nonneg (Ne.symm hzero)
      simp [this] at hpos
  have hcap : exponentialSecs .finite (initial.asSecsF64 .finite) (max.asSecsF64 .finite) .posInf
      attempt = .finite max.secs := by
    simp only [exponentialSecs, hn, FloatValue.powNat]
    rcases hinf with heq | heq
    all_goals
      rw [heq]
      change FloatValue.max (.finite max.secs) (.finite 0) = _
      rw [FloatValue.max_finite, max_eq_left max.secs_nonneg]
  rw [exponentialWait, hcap, fromSecsF64_secs]

theorem exponentialWait_le (initial max : Duration) {factor : FloatValue}
    (h : FloatValue.le (.finite 1) factor = true) {attempt later : Nat} (hle : attempt ≤ later) :
    ∃ v w, exponentialWait .finite initial max factor attempt = some v ∧
      exponentialWait .finite initial max factor later = some w ∧
      v.nanos ≤ w.nanos ∧ w.nanos ≤ max.nanos := by
  cases factor with
  | nan => cases h
  | negInf => cases h
  | finite q => exact exponentialWait_mono initial max (by simpa using h) hle
  | posInf =>
      obtain ⟨v, hv, hvmax⟩ := exponentialWait_total initial max .posInf attempt
      by_cases hfirst : later ≤ 1
      · have hsame : exponentialWait .finite initial max .posInf later =
            exponentialWait .finite initial max .posInf attempt := by
          have hzero : attempt - 1 = later - 1 := by omega
          simp only [exponentialWait, exponentialSecs, hzero]
        exact ⟨v, v, hv, hsame.trans hv, le_rfl, hvmax⟩
      · exact ⟨v, max, hv, exponentialWait_posInf initial max (by omega), hvmax, le_rfl⟩

theorem jitterScale_exact {jitter : FloatValue} (h : jitter ≠ .nan) (draw : Draw) :
    ∃ x, jitterScale .finite jitter draw = .finite x ∧ 0 ≤ x ∧ x ≤ 1 ∧
      (jitter.le (.finite 0) = true → x = 1) := by
  obtain ⟨j, hj, hnonneg, hle⟩ := FloatValue.clamp_of_ne_nan h (zero_le_one (α := ℚ))
  have hrand : (0 : ℚ) ≤ draw.val / 2 ^ 53 ∧ (draw.val / 2 ^ 53 : ℚ) ≤ 1 := by
    have hdraw : (draw.val : ℚ) ≤ 2 ^ 53 := by exact_mod_cast draw.isLt.le
    exact ⟨by positivity, (div_le_one (by norm_num)).mpr hdraw⟩
  have hprod : 0 ≤ j * (draw.val / 2 ^ 53) ∧ j * (draw.val / 2 ^ 53) ≤ 1 :=
    ⟨mul_nonneg hnonneg hrand.1, mul_le_one₀ hle hrand.1 hrand.2⟩
  have hscale : jitterScale .finite jitter draw = .finite (1 - j * (draw.val / 2 ^ 53)) := by
    have hlow : ¬ 1 - j * (draw.val / 2 ^ 53) < 0 := by linarith
    have hhigh : ¬ (1 : ℚ) < 1 - j * (draw.val / 2 ^ 53) := by linarith
    simp only [jitterScale, hj, jitterRand, FloatValue.mul_finite, FloatValue.sub]
    simp [FloatValue.clamp, hlow, hhigh]
  refine ⟨_, hscale, by linarith, by linarith, fun hneg => ?_⟩
  have hjzero : j = 0 := by
    cases jitter with
    | nan => exact absurd rfl h
    | posInf => cases hneg
    | negInf => exact (FloatValue.finite.inj hj).symm
    | finite a =>
        simp only [FloatValue.le_finite, decide_eq_true_eq] at hneg
        have hhigh : ¬ (1 : ℚ) < a := by linarith
        simp only [FloatValue.clamp, FloatValue.lt_finite, decide_eq_true_eq, hhigh,
          ↓reduceIte] at hj
        split_ifs at hj with hlow
        · exact (FloatValue.finite.inj hj).symm
        · have hja := FloatValue.finite.inj hj
          linarith
  rw [hjzero, zero_mul, sub_zero]

theorem jitter_exact {initial max base : Duration} {factor jitter : FloatValue} {attempt : Nat}
    (h : jitter ≠ .nan) (hbase : exponentialWait .finite initial max factor attempt = some base)
    (draw : Draw) :
    ∃ w, BackoffStrategy.waitFor .finite (.exponentialJitter initial max factor jitter)
        attempt draw = some w ∧
      w.nanos ≤ base.nanos ∧ (jitter.le (.finite 0) = true → w = base) := by
  obtain ⟨x, hx, hnonneg, hle, hone⟩ := jitterScale_exact h draw
  have hscaled : x * base.secs ≤ base.secs := mul_le_of_le_one_left base.secs_nonneg hle
  obtain ⟨w, hw, -, hnanos⟩ := fromSecsF64_le (mul_nonneg hnonneg base.secs_nonneg) hscaled
  refine ⟨w, ?_, hnanos, fun hneg => ?_⟩
  · simp only [BackoffStrategy.waitFor, hbase, hx, Duration.mulF64, Duration.asSecsF64,
      FloatValue.mul_finite]
    exact hw
  · rw [hone hneg, one_mul, fromSecsF64_secs] at hw
    exact (Option.some.inj hw).symm

end ExactValues

end Breaker
