import Breaker.Foundation.Pool

/-!
# Effects that tasks perform after they have acted

An act of a task decides on a list of effects, which the task performs one at a
time before it acts again.  An effect reads the shared state and changes only an
account beside it, so that the other tasks run in between; a task that owes some
effects may however hold a lock that acts of a certain kind wait for.

Effects can be erased from a run, and added to any run.  What has been entered
into the account and what is still owed is what the acts have decided on.
-/

namespace Breaker.Foundation

universe u v w x y z

variable {σ : Type u} {π : Type v} {ι : Type w} {α : Type x} {κ : Type y} {μ : Type z}

structure Deferral (σ : Type u) (π : Type v) (α : Type x) (κ : Type y) (μ : Type z) where
  /-- The effects that an act of the pool decides on, the first one first. -/
  owes : Pool σ π → π → α → π → List κ
  perform : σ → μ → κ → μ
  /-- A task that owes these effects holds the lock. -/
  holds : List κ → Bool
  holds_nil : holds [] = false
  /-- An act that needs the lock for itself. -/
  waits : α → Bool

inductive DeferredAction (α : Type x) where
  | act (a : α)
  | effect

namespace Deferral

variable (d : Deferral σ π α κ μ) (start : ι → π)
  (act : Pool σ π → Nat → π → α → Option (σ × π))

def erase (p : Pool (σ × μ) (π × List κ)) : Pool σ π where
  shared := p.shared.1
  tasks := p.tasks.map Prod.fst

def begin (job : ι) : π × List κ := (start job, [])

def deferredAct (p : Pool (σ × μ) (π × List κ)) (i : Nat) :
    π × List κ → DeferredAction α → Option ((σ × μ) × (π × List κ))
  | (phase, []), .act a =>
      if d.waits a ∧ p.tasks.any (fun task => d.holds task.2) then none
      else
        match act (erase p) i phase a with
        | none => none
        | some (shared, phase') =>
            some ((shared, p.shared.2), (phase', d.owes (erase p) phase a phase'))
  | (phase, effect :: rest), .effect =>
      some ((p.shared.1, d.perform p.shared.1 p.shared.2 effect), (phase, rest))
  | (_, _ :: _), .act _ | (_, []), .effect => none

abbrev Step : Pool (σ × μ) (π × List κ) → PoolAction ι (DeferredAction α) →
    Pool (σ × μ) (π × List κ) → Prop :=
  Pool.Step (begin start) (d.deferredAct act)

def visible : PoolAction ι (DeferredAction α) → Option (PoolAction ι α)
  | .spawn job => some (.spawn job)
  | .act i (.act a) => some (.act i a)
  | .act _ .effect => none

def Settled (p : Pool (σ × μ) (π × List κ)) : Prop := ∀ task ∈ p.tasks, task.2 = []

/-- The pool with an account beside it, and nothing owed. -/
def attach (account : μ) (s : Pool σ π) : Pool (σ × μ) (π × List κ) where
  shared := (s.shared, account)
  tasks := s.tasks.map fun phase => (phase, [])

theorem erase_attach (account : μ) (s : Pool σ π) :
    erase (attach account s : Pool (σ × μ) (π × List κ)) = s := by
  simp [erase, attach, Function.comp_def]

theorem settled_attach (account : μ) (s : Pool σ π) :
    Settled (attach account s : Pool (σ × μ) (π × List κ)) := by
  intro task hmem
  obtain ⟨phase, -, rfl⟩ := List.mem_map.mp hmem
  rfl

variable {d start act} {p p' : Pool (σ × μ) (π × List κ)} {s' : Pool σ π}
  {label : PoolAction ι (DeferredAction α)} {labels : List (PoolAction ι (DeferredAction α))}
  {actions : List (PoolAction ι α)}

theorem step_cases (h : Step d start act p label p') :
    (∃ job, label = .spawn job ∧ p' = { p with tasks := p.tasks ++ [(start job, [])] }) ∨
      (∃ i a phase shared phase', label = .act i (.act a) ∧ p.tasks[i]? = some (phase, []) ∧
        (d.waits a = true → ∀ task ∈ p.tasks, d.holds task.2 = false) ∧
        act (erase p) i phase a = some (shared, phase') ∧
        p' = { shared := (shared, p.shared.2),
               tasks := p.tasks.set i (phase', d.owes (erase p) phase a phase') }) ∨
      ∃ i phase effect rest, label = .act i .effect ∧
        p.tasks[i]? = some (phase, effect :: rest) ∧
        p' = { shared := (p.shared.1, d.perform p.shared.1 p.shared.2 effect),
               tasks := p.tasks.set i (phase, rest) } := by
  rcases Pool.step_cases h with
    ⟨job, rfl, rfl⟩ | ⟨i, a, ⟨phase, queue⟩, shared, task', rfl, htask, hact, rfl⟩
  · exact .inl ⟨job, rfl, rfl⟩
  · cases a with
    | act a =>
        cases queue with
        | cons => cases hact
        | nil =>
            simp only [deferredAct] at hact
            split_ifs at hact with hblocked
            split at hact
            · cases hact
            · rename_i shared phase' hbase
              cases hact
              refine .inr (.inl ⟨i, a, phase, _, _, rfl, htask, fun hwaits => ?_, hbase, rfl⟩)
              simpa [hwaits] using hblocked
    | effect =>
        cases queue with
        | nil => cases hact
        | cons effect rest =>
            cases hact
            exact .inr (.inr ⟨i, phase, effect, rest, rfl, htask, rfl⟩)

/-! ## Erasing the effects -/

theorem erase_tasks {i : Nat} {phase : π} {queue : List κ}
    (h : p.tasks[i]? = some (phase, queue)) : (erase p).tasks[i]? = some phase := by
  simp [erase, h]

theorem erase_set (shared : σ × μ) (i : Nat) (phase : π) (queue : List κ) :
    erase { shared := shared, tasks := p.tasks.set i (phase, queue) } =
      { shared := shared.1, tasks := (erase p).tasks.set i phase } := by
  simp only [erase, List.map_set]

theorem erase_effect {i : Nat} {phase : π} {queue rest : List κ} {account : μ}
    (h : p.tasks[i]? = some (phase, queue)) :
    erase { shared := (p.shared.1, account), tasks := p.tasks.set i (phase, rest) } = erase p := by
  rw [erase_set, set_getElem?_self (erase_tasks h)]
  rfl

theorem erase_step (h : Step d start act p label p') :
    (∃ action, visible label = some action ∧ p'.shared.2 = p.shared.2 ∧
        Pool.Step start act (erase p) action (erase p')) ∨
      ∃ i phase effect rest, label = .act i .effect ∧
        p.tasks[i]? = some (phase, effect :: rest) ∧
        p' = { shared := (p.shared.1, d.perform p.shared.1 p.shared.2 effect),
               tasks := p.tasks.set i (phase, rest) } := by
  rcases step_cases h with
    ⟨job, rfl, rfl⟩ | ⟨i, a, phase, shared, phase', rfl, htask, -, hbase, rfl⟩ | heffect
  · refine .inl ⟨.spawn job, rfl, rfl, ?_⟩
    have hspawn := @Pool.step_spawn σ π ι α start act (erase p) job
    simpa [erase] using hspawn
  · refine .inl ⟨.act i a, rfl, rfl, ?_⟩
    rw [erase_set]
    exact Pool.step_act (erase_tasks htask) hbase
  · exact .inr heffect

theorem erase_runs (hrun : Runs (Step d start act) p labels p') :
    Runs (Pool.Step start act) (erase p) (labels.filterMap visible) (erase p') := by
  induction hrun with
  | refl => exact .refl _
  | @snoc q q' labels label _ hlast ih =>
      rw [List.filterMap_append, List.filterMap_cons, List.filterMap_nil]
      rcases erase_step hlast with
        ⟨action, hsome, -, hstep⟩ | ⟨i, phase, effect, rest, rfl, htask, rfl⟩
      · rw [hsome]
        exact ih.snoc hstep
      · rw [erase_effect htask]
        simpa [visible] using ih

theorem erase_reachable (hrun : Runs (Step d start act) p labels p') :
    Reachable (Pool.Step start act) (erase p) (erase p') := ⟨_, erase_runs hrun⟩

/-! ## Adding the effects -/

theorem forall_tasks {Q : π → List κ → Prop} (hsettled : Settled p) (hnil : ∀ phase, Q phase [])
    (hact : ∀ s i phase a shared phase', Reachable (Pool.Step start act) (erase p) s →
      act s i phase a = some (shared, phase') → Q phase' (d.owes s phase a phase'))
    (htail : ∀ phase effect rest, Q phase (effect :: rest) → Q phase rest)
    (hrun : Runs (Step d start act) p labels p') : ∀ task ∈ p'.tasks, Q task.1 task.2 := by
  induction hrun with
  | refl =>
      intro task hmem
      rw [hsettled task hmem]
      exact hnil task.1
  | @snoc q q' labels label hprefix hlast ih =>
      rcases step_cases hlast with ⟨job, rfl, rfl⟩ |
        ⟨i, a, phase, shared, phase', rfl, htask, -, hbase, rfl⟩ |
        ⟨i, phase, effect, rest, rfl, htask, rfl⟩
      · intro task hmem
        rcases List.mem_append.mp hmem with hold | hnew
        · exact ih task hold
        · rw [List.mem_singleton.mp hnew]
          exact hnil _
      · intro task hmem
        rcases List.mem_or_eq_of_mem_set hmem with hold | rfl
        · exact ih task hold
        · exact hact (erase q) i phase a shared phase' (erase_reachable hprefix) hbase
      · intro task hmem
        rcases List.mem_or_eq_of_mem_set hmem with hold | rfl
        · exact ih task hold
        · exact htail phase effect rest (ih _ (List.mem_of_getElem? htask))

/-! ## The account -/

def owed (w : κ → Nat) (p : Pool (σ × μ) (π × List κ)) : Nat :=
  (p.tasks.map fun task => (task.2.map w).sum).sum

theorem Settled.owed (h : Settled p) (w : κ → Nat) : owed w p = 0 := by
  have hzero : ∀ task ∈ p.tasks, (task.2.map w).sum = 0 := fun task hmem => by
    rw [h task hmem]
    rfl
  rw [Deferral.owed, List.map_congr_left hzero]
  simp

/--
What has been entered and what is owed together are worth what the acts have
decided on, where `decided` grows by that worth with every act.
-/
theorem entered_add_owed (w : κ → Nat) (entered : μ → Nat) (decided : Pool σ π → Nat)
    (hperform : ∀ shared account effect,
      entered (d.perform shared account effect) = entered account + w effect)
    (hspawn : ∀ s job, decided { s with tasks := s.tasks ++ [start job] } = decided s)
    (hact : ∀ s i phase a shared phase', Reachable (Pool.Step start act) (erase p) s →
      s.tasks[i]? = some phase → act s i phase a = some (shared, phase') →
      decided { shared := shared, tasks := s.tasks.set i phase' } =
        decided s + ((d.owes s phase a phase').map w).sum)
    (hrun : Runs (Step d start act) p labels p') :
    entered p'.shared.2 + owed w p' + decided (erase p) =
      entered p.shared.2 + owed w p + decided (erase p') := by
  induction hrun with
  | refl => rfl
  | @snoc q q' labels label hprefix hlast ih =>
      rcases step_cases hlast with ⟨job, rfl, rfl⟩ |
        ⟨i, a, phase, shared, phase', rfl, htask, -, hbase, rfl⟩ |
        ⟨i, phase, effect, rest, rfl, htask, rfl⟩
      · have hdecided := hspawn (erase q) job
        have herase : erase { q with tasks := q.tasks ++ [(start job, [])] } =
            { erase q with tasks := (erase q).tasks ++ [start job] } := by
          simp [erase]
        rw [herase, hdecided, ← ih]
        simp [owed]
      · have hdecided := hact (erase q) i phase a shared phase' (erase_reachable hprefix)
          (erase_tasks htask) hbase
        have howed := sum_map_set_add (fun task => (task.2.map w).sum) htask
          (phase', d.owes (erase q) phase a phase')
        rw [erase_set, hdecided]
        simp only [owed, List.map_nil, List.sum_nil, Nat.add_zero] at howed ih ⊢
        omega
      · have hperformed := hperform q.shared.1 q.shared.2 effect
        have howed := sum_map_set_add (fun task => (task.2.map w).sum) htask (phase, rest)
        rw [erase_effect htask]
        simp only [owed, List.map_cons, List.sum_cons] at howed ih ⊢
        omega

end Deferral

end Breaker.Foundation
