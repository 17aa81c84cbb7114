import Breaker.Config.Rates
import Breaker.Foundation.FloatValue
import Breaker.Foundation.Lists
import Mathlib.Tactic.Push

/-!
# The sliding window

`Window` is the ring buffer of the most recent outcomes with its incrementally
maintained failure count.  `Window.Tracks` says what it is for: after the
outcomes of a history have been recorded, the buffer holds the last `capacity`
of them.
-/

namespace Breaker

open Foundation

/-- The cast of a length to `u32`. -/
def asU32 (n : Nat) : Nat := n % 2 ^ 32

/-- In the buffer `true` stands for the byte `1`, a failure. -/
structure Window where
  outcomes : List Bool
  failures : Nat
  capacity : Nat
  deriving DecidableEq, Repr

namespace Window

def new (capacity : Nat) : Window := ⟨[], 0, max capacity 1⟩

def popFront (w : Window) : Window :=
  match w.outcomes with
  | [] => w
  | evicted :: rest => { w with outcomes := rest, failures := w.failures - evicted.toNat }

def record (w : Window) (failed : Bool) : Window :=
  let w := if w.capacity ≤ asU32 w.outcomes.length then w.popFront else w
  { w with
    outcomes := w.outcomes ++ [failed]
    failures := if failed then w.failures + 1 else w.failures }

def filled (w : Window) : Nat := asU32 w.outcomes.length

def failureRate (w : Window) (arith : RateArithmetic) : FloatValue :=
  if w.filled = 0 then .finite 0 else .finite (arith.rate w.failures w.filled)

def clear (w : Window) : Window := { w with outcomes := [], failures := 0 }

@[simp] theorem popFront_capacity (w : Window) : w.popFront.capacity = w.capacity := by
  unfold popFront
  cases w.outcomes <;> rfl

@[simp] theorem record_capacity (w : Window) (failed : Bool) :
    (w.record failed).capacity = w.capacity := by
  unfold record
  dsimp only
  split_ifs <;> simp

/-! ## The window as the end of a history -/

/-- `w` holds the last `capacity` outcomes of `history`, oldest first. -/
structure Tracks (w : Window) (history : List Bool) : Prop where
  outcomes_eq : w.outcomes = history.rtake w.capacity
  failures_eq : w.failures = w.outcomes.countP id
  capacity_pos : 1 ≤ w.capacity
  capacity_lt : w.capacity < 2 ^ 32

variable {w : Window} {history : List Bool}

theorem tracks_new {capacity : Nat} (h : capacity < 2 ^ 32) : (new capacity).Tracks [] where
  outcomes_eq := by simp [new]
  failures_eq := rfl
  capacity_pos := le_max_right _ _
  capacity_lt := max_lt h (by norm_num)

theorem Tracks.clear (h : w.Tracks history) : w.clear.Tracks [] where
  outcomes_eq := by simp [Window.clear]
  failures_eq := rfl
  capacity_pos := h.capacity_pos
  capacity_lt := h.capacity_lt

theorem Tracks.length (h : w.Tracks history) :
    w.outcomes.length = min w.capacity history.length := by
  rw [h.outcomes_eq, length_rtake]

theorem Tracks.filled_eq (h : w.Tracks history) :
    w.filled = min w.capacity history.length := by
  have := h.capacity_lt
  rw [filled, asU32, h.length, Nat.mod_eq_of_lt]
  omega

private theorem popFront_tracks_tail (hcount : w.failures = w.outcomes.countP id) :
    w.popFront.outcomes = w.outcomes.tail ∧
      w.popFront.failures = w.outcomes.tail.countP id := by
  unfold popFront
  cases hout : w.outcomes with
  | nil => simp [hcount, hout]
  | cons evicted rest => cases evicted <;> simp [hcount, hout]

private theorem record_failures_count {v : Window} {kept : List Bool} (failed : Bool)
    (hcount : v.failures = kept.countP id) :
    (if failed then v.failures + 1 else v.failures) = (kept ++ [failed]).countP id := by
  cases failed <;> simp [hcount]

theorem Tracks.record (h : w.Tracks history) (failed : Bool) :
    (w.record failed).Tracks (history ++ [failed]) := by
  have hfilled : asU32 w.outcomes.length = min w.capacity history.length := h.filled_eq
  by_cases hfull : w.capacity ≤ history.length
  · -- The buffer is full: its first outcome leaves.
    have hpop := popFront_tracks_tail h.failures_eq
    have hcond : w.capacity ≤ asU32 w.outcomes.length := by omega
    have hout : (w.record failed).outcomes = w.outcomes.tail ++ [failed] := by
      simp [Window.record, hcond, hpop.1]
    have hfail : (w.record failed).failures = (w.outcomes.tail ++ [failed]).countP id := by
      simp only [Window.record, hcond, ↓reduceIte]
      exact record_failures_count failed hpop.2
    refine ⟨?_, by rw [hfail, hout], by simpa using h.capacity_pos, by simpa using h.capacity_lt⟩
    rw [hout, record_capacity, rtake_concat_of_le h.capacity_pos hfull, h.outcomes_eq]
  · have hcond : ¬ w.capacity ≤ asU32 w.outcomes.length := by omega
    have hout : (w.record failed).outcomes = w.outcomes ++ [failed] := by
      simp [Window.record, hcond]
    have hfail : (w.record failed).failures = (w.outcomes ++ [failed]).countP id := by
      simp only [Window.record, hcond, ↓reduceIte]
      exact record_failures_count failed h.failures_eq
    refine ⟨?_, by rw [hfail, hout], by simpa using h.capacity_pos, by simpa using h.capacity_lt⟩
    rw [hout, record_capacity, rtake_concat_of_lt (not_le.mp hfull), h.outcomes_eq]

theorem Tracks.failures_rtake (h : w.Tracks history) :
    w.failures = (history.rtake w.capacity).countP id := by
  rw [h.failures_eq, h.outcomes_eq]

/-! ## Recording and the failure rate -/

theorem Tracks.failures_le_filled (h : w.Tracks history) : w.failures ≤ w.filled := by
  rw [h.filled_eq, ← h.length, h.failures_eq]
  exact List.countP_le_length

theorem Tracks.filled_record (h : w.Tracks history) (failed : Bool) :
    w.filled ≤ (w.record failed).filled ∧ 1 ≤ (w.record failed).filled := by
  have := h.capacity_pos
  rw [h.filled_eq, (h.record failed).filled_eq, record_capacity, List.length_append,
    List.length_singleton]
  omega

theorem Tracks.failures_record_success (h : w.Tracks history) :
    (w.record false).failures ≤ w.failures := by
  rw [(h.record false).failures_rtake, h.failures_rtake, record_capacity]
  rcases lt_or_ge history.length w.capacity with hlt | hge
  · rw [rtake_concat_of_lt hlt]
    simp
  · rw [rtake_concat_of_le h.capacity_pos hge, List.countP_append]
    simpa using (List.tail_sublist _).countP_le

theorem failureRate_eq (w : Window) (arith : RateArithmetic) (hle : w.failures ≤ w.filled) :
    w.failureRate arith = .finite (arith.rate w.failures w.filled) := by
  unfold failureRate
  split_ifs with hzero
  · have hnone : w.failures = 0 := by omega
    rw [hnone, arith.rate_zero]
  · rfl

theorem Tracks.rate_record_success (h : w.Tracks history) (arith : RateArithmetic) :
    arith.rate (w.record false).failures (w.record false).filled ≤
      arith.rate w.failures w.filled := by
  obtain ⟨hfilled, -⟩ := h.filled_record false
  have hfailures := h.failures_record_success
  have hle := h.failures_le_filled
  rcases Nat.eq_zero_or_pos w.filled with hzero | hold
  · have hnone : (w.record false).failures = 0 := by omega
    rw [hnone, arith.rate_zero]
    exact arith.rate_nonneg _ _
  · exact arith.rate_mono hfailures hold hfilled

end Window

end Breaker
