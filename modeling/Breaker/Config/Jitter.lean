import Breaker.Config.Backoff
import Breaker.Foundation.Runs
import Breaker.Foundation.Xorshift

/-!
# The jitter generator

Each thread keeps a `u64` that starts as zero.  A draw seeds a zero from the wall
clock, advances the word by three xor-shifts, and samples its top 53 bits.  The
three shifts together are injective and fix zero, so that a thread that has
drawn once is never seeded again.
-/

namespace Breaker

open Foundation

namespace Jitter

/-- The nanoseconds since the epoch, truncated; `none` is a clock that is behind it. -/
def seed (sinceEpoch : Option Duration) : UInt64 :=
  let n := match sinceEpoch with
    | some d => UInt64.ofNat d.nanos
    | none => 0x9E37_79B9_7F4A_7C15
  n ||| 1

def xorshift (x : UInt64) : UInt64 :=
  let x := x ^^^ (x <<< 13)
  let x := x ^^^ (x >>> 7)
  x ^^^ (x <<< 17)

def sample (x : UInt64) : FloatValue :=
  binary64 (nearest64 (x >>> 11).toNat / nearest64 ((1 : UInt64) <<< 53).toNat)

/-- `jitter_rand` on the word of its thread; the clock is read by `seed` only. -/
def rand (state : UInt64) (sinceEpoch : Option Duration) : UInt64 × FloatValue :=
  let x := if state = 0 then seed sinceEpoch else state
  let x := xorshift x
  (x, sample x)

/-! ## The word -/

theorem seed_ne_zero (sinceEpoch : Option Duration) : seed sinceEpoch ≠ 0 := by
  intro hzero
  have hlow := congrArg (fun x : UInt64 => x.toBitVec.getLsbD 0) hzero
  simp [seed] at hlow

theorem xorshift_toBitVec (x : UInt64) :
    (xorshift x).toBitVec =
      xorShiftLeft 17 (xorShiftRight 7 (xorShiftLeft 13 x.toBitVec)) := by
  simp [xorshift, xorShiftLeft, xorShiftRight]

theorem xorshift_injective : Function.Injective xorshift := by
  intro x y h
  have hbits := congrArg UInt64.toBitVec h
  rw [xorshift_toBitVec, xorshift_toBitVec] at hbits
  have hsecond := xorShiftLeft_injective (by norm_num) hbits
  have hfirst := xorShiftRight_injective (by norm_num) hsecond
  exact UInt64.toBitVec_inj.mp (xorShiftLeft_injective (by norm_num) hfirst)

theorem xorshift_zero : xorshift 0 = 0 := rfl

theorem xorshift_ne_zero {x : UInt64} (h : x ≠ 0) : xorshift x ≠ 0 :=
  (xorshift_injective.ne_iff' xorshift_zero).mpr h

theorem rand_ne_zero (state : UInt64) (sinceEpoch : Option Duration) :
    (rand state sinceEpoch).1 ≠ 0 := by
  apply xorshift_ne_zero
  split_ifs with hzero
  · exact seed_ne_zero sinceEpoch
  · exact hzero

/-! ## The sample -/

theorem shiftRight_lt (x : UInt64) : (x >>> 11).toNat < 2 ^ 53 := by
  have hlt := x.toNat_lt
  rw [UInt64.toNat_shiftRight, Nat.shiftRight_eq_div_pow]
  exact Nat.div_lt_of_lt_mul (by simpa using hlt)

def draw (x : UInt64) : Draw := ⟨(x >>> 11).toNat, shiftRight_lt x⟩

theorem jitterRand_lt_one (d : Draw) : (d.val / 2 ^ 53 : ℚ) < 1 := by
  rw [div_lt_one (by norm_num)]
  exact_mod_cast d.isLt

theorem sample_eq (x : UInt64) : sample x = jitterRand (draw x) := by
  have hcast : nearest64 (x >>> 11).toNat = (draw x).val := by
    have h := nearest64_of_places (n := (draw x).val) (e := 0) (by positivity)
      (by exact_mod_cast (draw x).isLt.le) (by norm_num)
    change nearest64 (draw x).val = (draw x).val
    simpa using h
  have hone : nearest64 ((1 : UInt64) <<< 53).toNat = 2 ^ 53 := by
    have h := nearest64_of_places (n := 1) (e := 53) (by norm_num) (by norm_num) (by norm_num)
    have hshift : ((1 : UInt64) <<< 53).toNat = 2 ^ 53 := rfl
    rw [hshift]
    norm_num at h ⊢
    exact h
  have hquot : nearest64 ((draw x).val / 2 ^ 53) = (draw x).val / 2 ^ 53 := by
    have h := nearest64_of_places (n := (draw x).val) (e := -53) (by positivity)
      (by exact_mod_cast (draw x).isLt.le) (by norm_num)
    simpa [div_eq_mul_inv] using h
  have hnonneg : (0 : ℚ) ≤ (draw x).val / 2 ^ 53 := by positivity
  have hlimit : (1 : ℚ) < 2 ^ 1024 := one_lt_pow₀ (by norm_num) (by norm_num)
  rw [sample, hcast, hone, binary64_eq_finite hnonneg (by
    rw [hquot]
    exact (jitterRand_lt_one _).trans hlimit), hquot]
  rfl

/-! ## The draws of a thread -/

theorem runFrom_rand_ne_zero {state : UInt64} {readings : List (Option Duration)}
    (h : readings ≠ []) : runFrom rand state readings ≠ 0 := by
  obtain ⟨before, last, rfl⟩ := (List.eq_nil_or_concat readings).resolve_left h
  rw [List.concat_eq_append, runFrom_append]
  exact rand_ne_zero _ last

/--
The step of the generator is injective and keeps the word from zero: only the
first draw of a thread finds a zero to seed, and every sample lies in `[0, 1)`.
-/
theorem never_degenerates :
    (∀ x, x ≠ 0 → xorshift x ≠ 0) ∧ Function.Injective xorshift ∧
      ∀ readings : List (Option Duration),
        (∀ i ≤ readings.length, runFrom rand 0 (readings.take i) = 0 ↔ i = 0) ∧
        ∀ step ∈ trace rand 0 readings, step.1 ≠ 0 ∧
          ∃ q, step.2 = .finite q ∧ q = (step.1 >>> 11).toNat / 2 ^ 53 ∧ 0 ≤ q ∧ q < 1 := by
  refine ⟨fun x => xorshift_ne_zero, xorshift_injective, fun readings => ⟨fun i hi => ?_, ?_⟩⟩
  · constructor
    · intro hzero
      by_contra hne
      refine runFrom_rand_ne_zero (fun hnil => ?_) hzero
      have hlength := congrArg List.length hnil
      rw [List.length_take, List.length_nil] at hlength
      omega
    · rintro rfl
      rfl
  · refine forall_mem_trace (I := fun _ => True) trivial fun state reading _ => ⟨trivial, ?_⟩
    exact ⟨rand_ne_zero state reading, _, sample_eq _, rfl, by positivity, jitterRand_lt_one _⟩

end Jitter

end Breaker
