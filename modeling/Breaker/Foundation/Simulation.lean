import Breaker.Foundation.Runs
import Mathlib.Data.List.Forall2

/-!
# Simulations and measures

A relation between the states of two labelled relations is a simulation when the
second system answers every step of the first with a step of its own, whose
label is related to that of the first, or stands still.  A run of the first is
then matched, label by label and in the same order, by a run of the second.

A measure is a number that every step lowers, except the steps that are free.
It bounds the length of a run by the measure it starts from and the number of
its free steps; and where some step is always left to take, a run goes on until
the measure is used up.
-/

namespace Breaker.Foundation

variable {σ τ α β : Type*}

/-! ## Simulations -/

def Simulates (step : σ → α → σ → Prop) (step' : τ → β → τ → Prop) (same : α → β → Prop)
    (R : σ → τ → Prop) : Prop :=
  ∀ s t a s', R s t → step s a s' → R s' t ∨ ∃ b t', same a b ∧ step' t b t' ∧ R s' t'

/-- The second list has one entry for some of the entries of the first, in the same order. -/
def Matches (same : α → β → Prop) (labels : List α) (labels' : List β) : Prop :=
  ∃ kept, List.Sublist kept labels ∧ List.Forall₂ same kept labels'

variable {step : σ → α → σ → Prop} {step' : τ → β → τ → Prop} {same : α → β → Prop}

theorem Matches.skip {labels : List α} {labels' : List β} (h : Matches same labels labels')
    (a : α) : Matches same (labels ++ [a]) labels' := by
  obtain ⟨kept, hsub, hsame⟩ := h
  exact ⟨kept, hsub.trans (List.sublist_append_left labels [a]), hsame⟩

theorem Matches.concat {labels : List α} {labels' : List β} (h : Matches same labels labels')
    {a : α} {b : β} (hab : same a b) : Matches same (labels ++ [a]) (labels' ++ [b]) := by
  obtain ⟨kept, hsub, hsame⟩ := h
  exact ⟨kept ++ [a], hsub.append (List.Sublist.refl [a]),
    List.rel_append hsame (.cons hab .nil)⟩

theorem Simulates.runs {R : σ → τ → Prop} (h : Simulates step step' same R) {s s' : σ} {t : τ}
    {labels : List α} (hR : R s t) (hrun : Runs step s labels s') :
    ∃ labels' t', Runs step' t labels' t' ∧ R s' t' ∧ Matches same labels labels' := by
  induction hrun with
  | refl => exact ⟨[], t, .refl t, hR, [], .slnil, .nil⟩
  | @snoc s s' labels a _ hlast ih =>
      obtain ⟨labels', u, hrun', hRu, hmatches⟩ := ih
      rcases h s u a s' hRu hlast with hstay | ⟨b, u', hab, hstep', hRu'⟩
      · exact ⟨labels', u, hrun', hstay, hmatches.skip a⟩
      · exact ⟨labels' ++ [b], u', hrun'.snoc hstep', hRu', hmatches.concat hab⟩

/-! ## Measures -/

variable {next : σ → α → Option σ}

/--
A run is no longer than its measure and the number of its free steps.  The steps
are judged by what the run ends in: `I` holds before a step if it holds after it.
-/
theorem length_le_of_measure {μ : σ → Nat} {free : σ → α → Bool} {I : σ → Prop}
    (hstep : ∀ s a s', I s' → next s a = some s' → I s ∧ μ s' + 1 ≤ μ s + (free s a).toNat)
    {s s' : σ} {labels : List α} (hrun : Runs (fun s a s' => next s a = some s') s labels s')
    (hend : I s') : I s ∧ labels.length + μ s' ≤ μ s + countSteps next free s labels := by
  induction hrun with
  | refl => exact ⟨hend, by simp [countSteps]⟩
  | @snoc t t' labels a hprefix hlast ih =>
      obtain ⟨hI, hmeasure⟩ := hstep t a t' hend hlast
      obtain ⟨hstart, hlength⟩ := ih hI
      rw [countSteps_concat free hprefix, List.length_append, List.length_singleton]
      exact ⟨hstart, by omega⟩

/-- Where a step that lowers the measure is left short of the goal, some run ends in the goal. -/
theorem exists_run_of_measure {μ : σ → Nat} {I goal : σ → Prop} {allowed : α → Prop}
    (hstep : ∀ s, I s → ¬ goal s → ∃ a s', allowed a ∧ step s a s' ∧ I s' ∧ μ s' < μ s)
    {s : σ} (hstart : I s) :
    ∃ labels s', Runs step s labels s' ∧ (∀ a ∈ labels, allowed a) ∧ I s' ∧ goal s' := by
  induction hn : μ s using Nat.strongRecOn generalizing s with
  | ind n ih =>
      subst hn
      by_cases hgoal : goal s
      · exact ⟨[], s, .refl s, by simp, hstart, hgoal⟩
      · obtain ⟨a, t, hallowed, hnext, hI, hlt⟩ := hstep s hstart hgoal
        obtain ⟨labels, s', hrun, hall, hend⟩ := ih _ hlt hI rfl
        refine ⟨a :: labels, s', hrun.cons hnext, ?_, hend⟩
        rw [List.forall_mem_cons]
        exact ⟨hallowed, hall⟩

end Breaker.Foundation
