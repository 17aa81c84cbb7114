import Mathlib.Data.List.Basic

/-!
# Runs of transition systems

Two kinds of system are used throughout.  A *labelled transition relation*
`step : σ → α → σ → Prop` may block and may branch; `Runs` is its finite
executions, with the labels in the order in which they were taken.  A *Mealy
machine* `step : σ → α → σ × β` is total and deterministic; `runFrom` and
`trace` are its final state and its outputs.  The rules below are the inductions
that every invariant and every comparison of two systems goes through.
-/

namespace Breaker.Foundation

variable {σ τ α β : Type*}

/-! ## Labelled transition relations -/

inductive Runs (step : σ → α → σ → Prop) : σ → List α → σ → Prop
  | refl (s : σ) : Runs step s [] s
  | snoc {s s' s'' : σ} {labels : List α} {a : α} :
      Runs step s labels s' → step s' a s'' → Runs step s (labels ++ [a]) s''

def Reachable (step : σ → α → σ → Prop) (start s : σ) : Prop :=
  ∃ labels, Runs step start labels s

variable {step : σ → α → σ → Prop}

theorem Runs.single {s s' : σ} {a : α} (h : step s a s') : Runs step s [a] s' :=
  .snoc (.refl s) h

theorem Runs.trans {s s' s'' : σ} {first second : List α}
    (hfirst : Runs step s first s') (hsecond : Runs step s' second s'') :
    Runs step s (first ++ second) s'' := by
  induction hsecond with
  | refl => simpa using hfirst
  | snoc _ hstep ih =>
      rw [← List.append_assoc]
      exact .snoc ih hstep

theorem Runs.cons {s s' s'' : σ} {a : α} {labels : List α}
    (hstep : step s a s') (hrest : Runs step s' labels s'') :
    Runs step s (a :: labels) s'' :=
  (Runs.single hstep).trans hrest

theorem Runs.eq_of_nil {s s' : σ} (h : Runs step s [] s') : s' = s := by
  generalize hnil : [] = labels at h
  cases h with
  | refl => rfl
  | snoc => simp at hnil

theorem Runs.uncons {s s'' : σ} {a : α} {labels : List α}
    (h : Runs step s (a :: labels) s'') : ∃ s', step s a s' ∧ Runs step s' labels s'' := by
  generalize hall : a :: labels = all at h
  induction h generalizing labels with
  | refl => cases hall
  | @snoc s' s'' first b hrun hstep ih =>
      cases first with
      | nil =>
          cases hall
          cases hrun.eq_of_nil
          exact ⟨_, hstep, .refl _⟩
      | cons =>
          cases hall
          obtain ⟨t, hfirst, hrest⟩ := ih rfl
          exact ⟨t, hfirst, hrest.snoc hstep⟩

theorem Runs.mono {step' : σ → α → σ → Prop} {s s' : σ} {labels : List α}
    (hle : ∀ s a s', step s a s' → step' s a s') (hrun : Runs step s labels s') :
    Runs step' s labels s' := by
  induction hrun with
  | refl => exact .refl _
  | snoc _ hlast ih => exact .snoc ih (hle _ _ _ hlast)

theorem Runs.invariant {I : σ → Prop} {s s' : σ} {labels : List α}
    (hrun : Runs step s labels s') (hstart : I s)
    (hstep : ∀ s a s', a ∈ labels → I s → step s a s' → I s') : I s' := by
  induction hrun with
  | refl => exact hstart
  | snoc _ hlast ih =>
      have hprefix := ih fun s a s' ha =>
        hstep s a s' (List.mem_append_left _ ha)
      exact hstep _ _ _ (by simp) hprefix hlast

theorem Reachable.refl (s : σ) : Reachable step s s := ⟨[], .refl s⟩

theorem Reachable.snoc {start s s' : σ} {a : α}
    (h : Reachable step start s) (hstep : step s a s') : Reachable step start s' := by
  obtain ⟨labels, hrun⟩ := h
  exact ⟨labels ++ [a], .snoc hrun hstep⟩

/--
The invariant rule.  The step case may use that the state it starts from is
itself reachable, so that invariants can be stacked.
-/
theorem Reachable.invariant {I : σ → Prop} {start s : σ}
    (h : Reachable step start s) (hstart : I start)
    (hstep : ∀ s a s', Reachable step start s → I s → step s a s' → I s') : I s := by
  obtain ⟨labels, hrun⟩ := h
  induction hrun with
  | refl => exact hstart
  | snoc hprefix hlast ih => exact hstep _ _ _ ⟨_, hprefix⟩ ih hlast

theorem Runs.unsnoc {s s'' : σ} {labels : List α} {a : α} (h : Runs step s (labels ++ [a]) s'') :
    ∃ s', Runs step s labels s' ∧ step s' a s'' := by
  generalize hall : labels ++ [a] = all at h
  cases h with
  | refl => simp at hall
  | snoc hrun hstep =>
      obtain ⟨rfl, hlast⟩ := List.append_inj' hall rfl
      cases hlast
      exact ⟨_, hrun, hstep⟩

theorem Runs.unique (hstep : ∀ s a t t', step s a t → step s a t' → t = t') {s t t' : σ}
    {labels : List α} (h : Runs step s labels t) (h' : Runs step s labels t') : t = t' := by
  induction h generalizing t' with
  | refl => exact h'.eq_of_nil.symm
  | snoc _ hlast ih =>
      obtain ⟨u, hrun, hlast'⟩ := h'.unsnoc
      cases ih hrun
      exact hstep _ _ _ _ hlast hlast'

/-- Every step of the run from `start` with these labels is taken where `P` holds. -/
def AlongRun (step : σ → α → σ → Prop) (P : σ → α → Prop) (start : σ) (labels : List α) : Prop :=
  ∀ before a after s, labels = before ++ a :: after → Runs step start before s → P s a

theorem alongRun_nil (P : σ → α → Prop) (start : σ) : AlongRun step P start [] := by
  intro before a after s hnil
  simp at hnil

theorem alongRun_concat (hstep : ∀ s a t t', step s a t → step s a t' → t = t')
    {P : σ → α → Prop} {start s : σ} {labels : List α} {a : α} (hrun : Runs step start labels s) :
    AlongRun step P start (labels ++ [a]) ↔ AlongRun step P start labels ∧ P s a := by
  constructor
  · intro h
    refine ⟨fun before b after t heq hbefore => h before b (after ++ [a]) t ?_ hbefore,
      h labels a [] s rfl hrun⟩
    rw [heq, List.append_assoc, List.cons_append]
  · rintro ⟨hbefore, hlast⟩ before b after t heq ht
    rcases List.eq_nil_or_concat after with rfl | ⟨init, last, rfl⟩
    · obtain ⟨rfl, hb⟩ := List.append_inj' heq rfl
      cases hb
      cases Runs.unique hstep hrun ht
      exact hlast
    · rw [List.concat_eq_append, ← List.cons_append, ← List.append_assoc] at heq
      obtain ⟨rfl, -⟩ := List.append_inj' heq rfl
      exact hbefore before b init t rfl ht

/-! ### Executable relations -/

def execute (next : σ → α → Option σ) : σ → List α → Option σ
  | s, [] => some s
  | s, a :: labels =>
      match next s a with
      | none => none
      | some s' => execute next s' labels

theorem runs_of_execute {next : σ → α → Option σ} {s s' : σ} {labels : List α}
    (h : execute next s labels = some s') :
    Runs (fun s a s' => next s a = some s') s labels s' := by
  induction labels generalizing s with
  | nil =>
      simp only [execute, Option.some.injEq] at h
      subst h
      exact .refl s
  | cons a labels ih =>
      simp only [execute] at h
      cases hnext : next s a with
      | none => simp [hnext] at h
      | some t => exact .cons hnext (ih (by simpa [hnext] using h))

theorem runs_of_execute_if {next : σ → α → Option σ} {P : σ → α → Prop}
    [∀ s a, Decidable (P s a)] {s s' : σ} {labels : List α}
    (h : execute (fun s a => if P s a then next s a else none) s labels = some s') :
    Runs (fun s a s' => P s a ∧ next s a = some s') s labels s' := by
  refine (runs_of_execute h).mono fun s a s' hstep => ?_
  split_ifs at hstep with hP
  exact ⟨hP, hstep⟩

def countSteps (next : σ → α → Option σ) (q : σ → α → Bool) : σ → List α → Nat
  | _, [] => 0
  | s, a :: labels =>
      (q s a).toNat + match next s a with
        | none => 0
        | some s' => countSteps next q s' labels

theorem countSteps_concat {next : σ → α → Option σ} (q : σ → α → Bool) {s s' : σ}
    {labels : List α} (hrun : Runs (fun s a s' => next s a = some s') s labels s') (a : α) :
    countSteps next q s (labels ++ [a]) = countSteps next q s labels + (q s' a).toNat := by
  induction labels generalizing s with
  | nil =>
      have hsame := hrun.eq_of_nil
      subst hsame
      cases h : next s' a <;> simp [countSteps, h]
  | cons b labels ih =>
      obtain ⟨t, hstep, hrest⟩ := hrun.uncons
      simp [countSteps, hstep, ih hrest, Nat.add_assoc]

theorem countSteps_eq_zero_iff {next : σ → α → Option σ} {P : σ → α → Prop}
    [∀ s a, Decidable (P s a)] {s s' : σ} {labels : List α}
    (hrun : Runs (fun s a s' => next s a = some s') s labels s') :
    countSteps next (fun s a => decide (¬ P s a)) s labels = 0 ↔
      AlongRun (fun s a s' => next s a = some s') P s labels := by
  have hunique : ∀ s a t t', next s a = some t → next s a = some t' → t = t' :=
    fun s a t t' h h' => Option.some.inj (h.symm.trans h')
  induction hrun with
  | refl => simp [countSteps, alongRun_nil]
  | snoc hprefix _ ih =>
      rw [countSteps_concat _ hprefix, alongRun_concat hunique hprefix, Nat.add_eq_zero_iff]
      exact and_congr ih (by simp)

/-! ## Mealy machines -/

variable (next : σ → α → σ × β)

def runFrom (s : σ) (inputs : List α) : σ :=
  inputs.foldl (fun s a => (next s a).1) s

/-- The state after each input, with the output of that input. -/
def trace : σ → List α → List (σ × β)
  | _, [] => []
  | s, a :: inputs => next s a :: trace (next s a).1 inputs

@[simp] theorem runFrom_nil (s : σ) : runFrom next s [] = s := rfl

@[simp] theorem runFrom_cons (s : σ) (a : α) (inputs : List α) :
    runFrom next s (a :: inputs) = runFrom next (next s a).1 inputs := rfl

@[simp] theorem runFrom_append (s : σ) (first second : List α) :
    runFrom next s (first ++ second) = runFrom next (runFrom next s first) second := by
  simp [runFrom]

@[simp] theorem trace_nil (s : σ) : trace next s [] = [] := rfl

@[simp] theorem trace_cons (s : σ) (a : α) (inputs : List α) :
    trace next s (a :: inputs) = next s a :: trace next (next s a).1 inputs := rfl

theorem trace_concat (s : σ) (inputs : List α) (a : α) :
    trace next s (inputs ++ [a]) = trace next s inputs ++ [next (runFrom next s inputs) a] := by
  induction inputs generalizing s with
  | nil => rfl
  | cons b inputs ih => simp [ih]

theorem getElem?_trace (s : σ) (inputs : List α) (i : Nat) :
    (trace next s inputs)[i]? =
      inputs[i]?.map fun a => next (runFrom next s (inputs.take i)) a := by
  induction inputs generalizing s i with
  | nil => simp
  | cons a inputs ih =>
      cases i with
      | zero => simp
      | succ i => simpa using ih (next s a).1 i

variable {next}

theorem runFrom_invariant {I : σ → Prop} {s : σ} {inputs : List α} (hstart : I s)
    (hstep : ∀ s a, a ∈ inputs → I s → I (next s a).1) : I (runFrom next s inputs) := by
  induction inputs generalizing s with
  | nil => exact hstart
  | cons a inputs ih =>
      exact ih (hstep s a (by simp) hstart) fun s a ha => hstep s a (by simp [ha])

theorem forall_mem_trace {I : σ → Prop} {P : σ × β → Prop} {s : σ} {inputs : List α}
    (hstart : I s) (hstep : ∀ s a, I s → I (next s a).1 ∧ P (next s a)) :
    ∀ step ∈ trace next s inputs, P step := by
  induction inputs generalizing s with
  | nil => simp
  | cons a inputs ih =>
      obtain ⟨hnext, hhead⟩ := hstep s a hstart
      rw [trace_cons, List.forall_mem_cons]
      exact ⟨hhead, ih hnext⟩

def sumAlong (next : σ → α → σ × β) (w : σ → α → Nat) : σ → List α → Nat
  | _, [] => 0
  | s, a :: inputs => w s a + sumAlong next w (next s a).1 inputs

theorem sumAlong_append (w : σ → α → Nat) (s : σ) (first second : List α) :
    sumAlong next w s (first ++ second) =
      sumAlong next w s first + sumAlong next w (runFrom next s first) second := by
  induction first generalizing s with
  | nil => simp [sumAlong]
  | cons a first ih => simp [sumAlong, ih, Nat.add_assoc]

theorem sumAlong_linear (k : Nat) (v w : σ → α → Nat) (s : σ) (inputs : List α) :
    sumAlong next (fun s a => k * v s a + w s a) s inputs =
      k * sumAlong next v s inputs + sumAlong next w s inputs := by
  induction inputs generalizing s with
  | nil => rfl
  | cons a inputs ih =>
      simp only [sumAlong, ih, Nat.mul_add]
      omega

theorem sumAlong_eq_zero {w : σ → α → Nat} (hw : ∀ s a, w s a = 0) (s : σ) (inputs : List α) :
    sumAlong next w s inputs = 0 := by
  induction inputs generalizing s with
  | nil => rfl
  | cons a inputs ih => rw [sumAlong, hw, ih]

/-- What the steps cost is paid for by what `Φ` and the income `B` have gained. -/
theorem sumAlong_le {Φ B : σ → Nat} {cost : σ → α → Nat}
    (hstep : ∀ s a, Φ (next s a).1 + cost s a + B s ≤ Φ s + B (next s a).1)
    (s : σ) (inputs : List α) :
    Φ (runFrom next s inputs) + sumAlong next cost s inputs + B s ≤
      Φ s + B (runFrom next s inputs) := by
  induction inputs generalizing s with
  | nil => simp [sumAlong]
  | cons a inputs ih =>
      have hhead := hstep s a
      have htail := ih (next s a).1
      rw [runFrom_cons, sumAlong]
      omega

theorem runFrom_fst {γ : Type*} {ghost : σ × γ → α → (σ × γ) × β}
    (hghost : ∀ x a, (ghost x a).1.1 = (next x.1 a).1) (x : σ × γ) (inputs : List α) :
    (runFrom ghost x inputs).1 = runFrom next x.1 inputs := by
  induction inputs generalizing x with
  | nil => rfl
  | cons a inputs ih => rw [runFrom_cons, ih, hghost, runFrom_cons]

/-- Two machines on the same states: where their traces differ there is a first difference. -/
theorem exists_first_difference {next' : σ → α → σ × β} {s : σ} {inputs : List α}
    (h : trace next' s inputs ≠ trace next s inputs) :
    ∃ before a after, inputs = before ++ a :: after ∧
      trace next' s before = trace next s before ∧
      next' (runFrom next s before) a ≠ next (runFrom next s before) a := by
  induction inputs generalizing s with
  | nil => exact absurd rfl h
  | cons a inputs ih =>
      by_cases hhead : next' s a = next s a
      · have htail : trace next' (next s a).1 inputs ≠ trace next (next s a).1 inputs := by
          intro heq
          exact h (by rw [trace_cons, trace_cons, hhead, heq])
        obtain ⟨before, b, after, rfl, hbefore, hne⟩ := ih htail
        exact ⟨a :: before, b, after, rfl, by rw [trace_cons, trace_cons, hhead, hbefore], hne⟩
      · exact ⟨[], a, inputs, rfl, rfl, hhead⟩

theorem forall₂_trace {γ : Type*} {next' : τ → γ → τ × β} {R : σ → τ → Prop} {A : α → γ → Prop}
    (hstep : ∀ s t a b, R s t → A a b →
      (next s a).2 = (next' t b).2 ∧ R (next s a).1 (next' t b).1)
    {s : σ} {t : τ} {inputs : List α} {inputs' : List γ} (h : R s t)
    (hinputs : List.Forall₂ A inputs inputs') :
    List.Forall₂ (fun p q => p.2 = q.2 ∧ R p.1 q.1) (trace next s inputs)
      (trace next' t inputs') := by
  induction hinputs generalizing s t with
  | nil => exact .nil
  | cons hinput _ ih =>
      have hnext := hstep _ _ _ _ h hinput
      exact .cons hnext (ih hnext.2)

def SampledAlong (next : σ → α → σ × β) {γ : Type*} (f : σ → γ) (s : σ) (inputs : List α)
    (samples : List γ) : Prop :=
  ∃ times : List Nat, times.Pairwise (· ≤ ·) ∧ (∀ t ∈ times, t ≤ inputs.length) ∧
    samples = times.map fun t => f (runFrom next s (inputs.take t))

theorem SampledAlong.append {γ : Type*} {f : σ → γ} {s : σ} {inputs : List α} {samples : List γ}
    (h : SampledAlong next f s inputs samples) (more : List α) :
    SampledAlong next f s (inputs ++ more) samples := by
  obtain ⟨times, hsorted, hbound, rfl⟩ := h
  refine ⟨times, hsorted, fun t hmem => ?_, List.map_congr_left fun t hmem => ?_⟩
  · rw [List.length_append]
    exact Nat.le_trans (hbound t hmem) (Nat.le_add_right _ _)
  · rw [List.take_append_of_le_length (hbound t hmem)]

theorem SampledAlong.sample {γ : Type*} {f : σ → γ} {s : σ} {inputs : List α} {samples : List γ}
    (h : SampledAlong next f s inputs samples) :
    SampledAlong next f s inputs (samples ++ [f (runFrom next s inputs)]) := by
  obtain ⟨times, hsorted, hbound, rfl⟩ := h
  refine ⟨times ++ [inputs.length], ?_, ?_, ?_⟩
  · rw [List.pairwise_append]
    refine ⟨hsorted, List.pairwise_singleton _ _, fun t hmem t' hlast => ?_⟩
    rw [List.mem_singleton.mp hlast]
    exact hbound t hmem
  · intro t hmem
    rcases List.mem_append.mp hmem with hold | hlast
    · exact hbound t hold
    · exact Nat.le_of_eq (List.mem_singleton.mp hlast)
  · rw [List.map_append, List.map_singleton, List.take_length]

theorem SampledAlong.forall_mem {γ : Type*} {f : σ → γ} {s : σ} {inputs : List α}
    {samples : List γ} (h : SampledAlong next f s inputs samples) {P : γ → Prop}
    (hP : ∀ before, P (f (runFrom next s before))) : ∀ x ∈ samples, P x := by
  obtain ⟨times, -, -, rfl⟩ := h
  intro x hmem
  obtain ⟨t, -, rfl⟩ := List.mem_map.mp hmem
  exact hP _

/--
A checked step that agrees with the machine as long as `I` bounds its state
executes without failing, and ends in the machine's final state.
-/
theorem execute_eq_runFrom {checked : σ → α → Option σ} {I : Nat → σ → Prop} {limit : Nat}
    (hstep : ∀ n s a, n < limit → I n s →
      checked s a = some (next s a).1 ∧ I (n + 1) (next s a).1)
    {n : Nat} {s : σ} {inputs : List α} (hstart : I n s) (hlength : n + inputs.length ≤ limit) :
    execute checked s inputs = some (runFrom next s inputs) := by
  induction inputs generalizing n s with
  | nil => rfl
  | cons a inputs ih =>
      rw [List.length_cons] at hlength
      obtain ⟨hchecked, hnext⟩ := hstep n s a (by omega) hstart
      simpa [execute, hchecked] using ih hnext (by omega)

end Breaker.Foundation
