import Breaker.State.Overflow

/-!
# Runs of the window

Any sequence of recordings and clearings leaves the window with the last
`capacity` of the outcomes recorded since the last clearing, although the
failure count is only ever maintained.  The checked operations take the same
run, so that no eviction underflows and no recording overflows.
-/

namespace Breaker

open Foundation

inductive WindowOp where
  | record (failed : Bool)
  | clear
  deriving DecidableEq, Repr

def WindowOp.outcome : WindowOp → Option Bool
  | record failed => some failed
  | clear => none

def sinceClear (ops : List WindowOp) : List Bool :=
  (ops.rtakeWhile fun op => op.outcome.isSome).filterMap WindowOp.outcome

theorem sinceClear_record (ops : List WindowOp) (failed : Bool) :
    sinceClear (ops ++ [.record failed]) = sinceClear ops ++ [failed] := by
  rw [sinceClear, List.rtakeWhile_concat_pos _ _ _ rfl, List.filterMap_append]
  rfl

theorem sinceClear_clear (ops : List WindowOp) : sinceClear (ops ++ [.clear]) = [] := by
  rw [sinceClear, List.rtakeWhile_concat_neg _ _ _ (by simp [WindowOp.outcome])]
  rfl

namespace Window

def apply (w : Window) : WindowOp → Window
  | .record failed => w.record failed
  | .clear => w.clear

def checkedApply (w : Window) : WindowOp → Option Window
  | .record failed => w.checkedRecord failed
  | .clear => some w.clear

def run (w : Window) (ops : List WindowOp) : Window := ops.foldl apply w

structure HoldsLast (capacity : Nat) (history : List Bool) (w : Window) : Prop where
  outcomes : w.outcomes = history.rtake (min capacity history.length)
  failures : w.failures = w.outcomes.countP id
  /-- The cast of the length does not truncate it. -/
  filled : w.filled = w.outcomes.length
  bounded : w.filled ≤ capacity
  quotient : w.failureRate .exact = .finite (w.failures / w.filled)
  rate : ∀ arith, ∃ q, w.failureRate arith = .finite q ∧ 0 ≤ q ∧ q ≤ 1
  empty : w.outcomes = [] → ∀ arith, w.failureRate arith = .finite 0

variable {w : Window} {history : List Bool}

theorem Tracks.holdsLast (h : w.Tracks history) : HoldsLast w.capacity history w where
  outcomes := by rw [min_comm, rtake_min_length, h.outcomes_eq]
  failures := h.failures_eq
  filled := by rw [h.filled_eq, h.length]
  bounded := h.filled_eq ▸ min_le_left _ _
  quotient := w.failureRate_eq .exact h.failures_le_filled
  rate := fun arith => ⟨_, w.failureRate_eq arith h.failures_le_filled, arith.rate_nonneg _ _,
    arith.rate_le_one h.failures_le_filled⟩
  empty := by
    intro hnone arith
    have hfilled : w.filled = 0 := by rw [h.filled_eq, ← h.length, hnone, List.length_nil]
    rw [failureRate, if_pos hfilled]

theorem apply_capacity (w : Window) (op : WindowOp) : (w.apply op).capacity = w.capacity := by
  cases op with
  | record failed => exact record_capacity w failed
  | clear => rfl

theorem run_capacity (w : Window) (ops : List WindowOp) : (w.run ops).capacity = w.capacity := by
  induction ops generalizing w with
  | nil => rfl
  | cons op ops ih => exact (ih (w.apply op)).trans (apply_capacity w op)

theorem Tracks.run (h : w.Tracks []) (ops : List WindowOp) :
    (w.run ops).Tracks (sinceClear ops) := by
  induction ops using List.reverseRecOn with
  | nil => exact h
  | append_singleton ops op ih =>
      rw [Window.run, List.foldl_append]
      cases op with
      | record failed =>
          rw [sinceClear_record]
          exact ih.record failed
      | clear =>
          rw [sinceClear_clear]
          exact ih.clear

theorem Tracks.checkedApply (h : w.Tracks history) (op : WindowOp) :
    w.checkedApply op = some (w.apply op) ∧ ∃ next, (w.apply op).Tracks next := by
  cases op with
  | record failed => exact ⟨h.checkedRecord_eq failed, _, h.record failed⟩
  | clear => exact ⟨rfl, _, h.clear⟩

theorem Tracks.checkedRun (h : w.Tracks history) (ops : List WindowOp) :
    execute Window.checkedApply w ops = some (w.run ops) := by
  induction ops generalizing w history with
  | nil => rfl
  | cons op ops ih =>
      obtain ⟨hchecked, next, hnext⟩ := h.checkedApply op
      rw [execute, hchecked]
      exact ih hnext

/-- The window is the last `max c 1` outcomes, after any recordings and clearings. -/
theorem last_outcomes (c : UInt32) (ops : List WindowOp) :
    HoldsLast (max c.toNat 1) (sinceClear ops) ((new c.toNat).run ops) ∧
      execute Window.checkedApply (new c.toNat) ops = some ((new c.toNat).run ops) := by
  have hnew := tracks_new c.toNat_lt
  have hholds := (hnew.run ops).holdsLast
  rw [run_capacity] at hholds
  exact ⟨hholds, hnew.checkedRun ops⟩

end Window

end Breaker
