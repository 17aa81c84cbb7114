import Breaker.State.Reachable

/-!
# What the reading of the state depends on

The effective state is read from three fields, and an operation that counts no
transition leaves them alone.  So two readings between which the counter of
transitions stands differ only by a wait that has run out in between.
-/

namespace Breaker

open Foundation

universe u

variable {arith : RateArithmetic} {ε : Type u}

namespace StateMachine

variable {s t : StateMachine}

/-- Everything that the reading of the state depends on is the same. -/
def SameStanding (s t : StateMachine) : Prop :=
  t.current = s.current ∧ t.openSince = s.openSince ∧ t.waitDuration = s.waitDuration

theorem SameStanding.due_iff (h : s.SameStanding t) (now : Nat) : t.Due now ↔ s.Due now := by
  obtain ⟨hcurrent, hsince, hwait⟩ := h
  rw [Due, Due, hcurrent, hsince, hwait]

theorem SameStanding.currentAt (h : s.SameStanding t) {now now' : Nat} (hle : now ≤ now') :
    t.currentAt now' = s.currentAt now ∨
      s.currentAt now = .opened ∧ t.currentAt now' = .halfOpen := by
  by_cases hdue : s.Due now
  · left
    rw [currentAt_of_due hdue, currentAt_of_due ((h.due_iff now').mpr (hdue.mono hle))]
  · rw [currentAt_of_not_due hdue]
    by_cases hdue' : t.Due now'
    · exact .inr ⟨h.1.symm.trans hdue'.1, currentAt_of_due hdue'⟩
    · exact .inl ((currentAt_of_not_due hdue').trans h.1)

theorem SameStanding.currentAt_eq {clock : Nat} (h : s.SameStanding t) (hopened : s.OpenedBy clock)
    {now now' : Nat} (hclock : clock ≤ now) (hle : now ≤ now')
    (hwait : ∀ since ∈ s.openSince, ¬ (now < since + s.waitDuration.nanos ∧
      since + s.waitDuration.nanos ≤ now')) : t.currentAt now' = s.currentAt now := by
  by_cases hdue : s.Due now'
  · obtain ⟨hopen, since, hsince, helapsed⟩ := hdue
    have hstart := hopened since hsince
    have hends := hwait since hsince
    have hearlier : s.Due now := ⟨hopen, since, hsince, by omega⟩
    rw [currentAt_of_due hearlier, currentAt_of_due ((h.due_iff now').mpr (hearlier.mono hle))]
  · rw [currentAt_of_not_due (mt (h.due_iff now').mp hdue),
      currentAt_of_not_due (mt (fun hearly => hearly.mono hle) hdue), h.1]

/-- A step that makes no transition leaves the standing of the machine alone. -/
def KeepsStanding (s t : StateMachine) : Prop :=
  s.transitions < t.transitions ∨ t.transitions = s.transitions ∧ s.SameStanding t

theorem KeepsStanding.refl (s : StateMachine) : s.KeepsStanding s := .inr ⟨rfl, rfl, rfl, rfl⟩

theorem KeepsStanding.trans {u : StateMachine} (hst : s.KeepsStanding t) (htu : t.KeepsStanding u) :
    s.KeepsStanding u := by
  rcases hst with hlt | ⟨heq, hcurrent, hsince, hwait⟩
  · rcases htu with hlt' | ⟨heq', -⟩
    · exact .inl (hlt.trans hlt')
    · exact .inl (hlt.trans_eq heq'.symm)
  · rcases htu with hlt' | ⟨heq', hcurrent', hsince', hwait'⟩
    · exact .inl (heq.symm.trans_lt hlt')
    · exact .inr ⟨heq'.trans heq, hcurrent'.trans hcurrent, hsince'.trans hsince,
        hwait'.trans hwait⟩

theorem keepsStanding_maybeTransition (s : StateMachine) (now : Nat) :
    s.KeepsStanding (s.maybeTransitionToHalfOpen now) := by
  by_cases hdue : s.Due now
  · rw [maybeTransitionToHalfOpen_of_due hdue]
    exact .inl (Nat.lt_succ_self _)
  · rw [maybeTransitionToHalfOpen_of_not_due hdue]
    exact .inr ⟨rfl, rfl, rfl, rfl⟩

theorem keepsStanding_apply (config : CircuitBreakerConfig arith ε) (s : StateMachine)
    (input : Op × Tick) : s.KeepsStanding (s.apply config input).1 := by
  obtain ⟨op, tick⟩ := input
  cases op with
  | success =>
      refine (keepsStanding_maybeTransition s.countSuccess tick.now).trans ?_
      rw [apply, recordSuccess]
      generalize s.countSuccess.maybeTransitionToHalfOpen tick.now = t
      rcases t.settleSuccess_cases config tick with ⟨-, heq⟩ | ⟨-, heq⟩ | ⟨-, -, heq⟩ | ⟨-, -, heq⟩
      · rw [heq]
        exact .inr ⟨rfl, rfl, rfl, rfl⟩
      · rw [heq]
        exact .inr ⟨rfl, rfl, rfl, rfl⟩
      · rw [heq]
        exact .inr ⟨rfl, rfl, rfl, rfl⟩
      · rw [heq]
        exact .inl (Nat.lt_succ_self _)
  | failure =>
      refine (keepsStanding_maybeTransition s.countFailure tick.now).trans ?_
      rw [apply, recordFailure]
      generalize s.countFailure.maybeTransitionToHalfOpen tick.now = t
      rcases t.settleFailure_cases config tick with
        ⟨-, heq⟩ | ⟨-, -, heq⟩ | ⟨-, -, wait, heq⟩ | ⟨-, wait, heq⟩
      · rw [heq]
        exact .inr ⟨rfl, rfl, rfl, rfl⟩
      · rw [heq]
        exact .inr ⟨rfl, rfl, rfl, rfl⟩
      · rw [heq]
        exact .inl (Nat.lt_succ_self _)
      · rw [heq]
        exact .inl (Nat.lt_succ_self _)
  | forceOpen =>
      obtain ⟨wait, heq⟩ := transition_opened_cases config tick s
      change s.KeepsStanding (s.transition .opened config tick).1
      rw [heq]
      exact .inl (Nat.lt_succ_self _)
  | forceClosed => exact .inl (Nat.lt_succ_self _)

end StateMachine

end Breaker
