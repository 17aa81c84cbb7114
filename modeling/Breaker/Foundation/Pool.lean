import Breaker.Foundation.Lists
import Breaker.Foundation.Runs

/-!
# Pools of tasks over a shared state

A pool is a shared state together with the local phases of any number of tasks.
A step starts a new task, or lets one task act: the task reads the whole pool,
and writes the shared state and its own phase.  An interleaving of the tasks is
a run of the pool.  A task keeps its index for ever.

The labels of a run determine the job of every task and the acts that it has
made; `runs_tasks` is the induction for what these say about its phase.
-/

namespace Breaker.Foundation

universe u v w x

variable {σ : Type u} {π : Type v} {ι : Type w} {α : Type x}

structure Pool (σ : Type u) (π : Type v) where
  shared : σ
  tasks : List π

inductive PoolAction (ι : Type w) (α : Type x) where
  | spawn (job : ι)
  | act (i : Nat) (a : α)

namespace Pool

variable (start : ι → π) (act : Pool σ π → Nat → π → α → Option (σ × π))

def step (p : Pool σ π) : PoolAction ι α → Option (Pool σ π)
  | .spawn job => some { p with tasks := p.tasks ++ [start job] }
  | .act i a =>
      match p.tasks[i]? with
      | none => none
      | some phase =>
          match act p i phase a with
          | none => none
          | some (shared, phase') => some { shared := shared, tasks := p.tasks.set i phase' }

def Step (p : Pool σ π) (action : PoolAction ι α) (p' : Pool σ π) : Prop :=
  p.step start act action = some p'

variable {start act} {p p' : Pool σ π} {action : PoolAction ι α}

theorem step_cases (h : Step start act p action p') :
    (∃ job, action = .spawn job ∧ p' = { p with tasks := p.tasks ++ [start job] }) ∨
      ∃ i a phase shared phase', action = .act i a ∧ p.tasks[i]? = some phase ∧
        act p i phase a = some (shared, phase') ∧
        p' = { shared := shared, tasks := p.tasks.set i phase' } := by
  cases action with
  | spawn job => exact .inl ⟨job, rfl, (Option.some.inj h).symm⟩
  | act i a =>
      right
      simp only [Step, step] at h
      cases hphase : p.tasks[i]? with
      | none => simp [hphase] at h
      | some phase =>
          cases hact : act p i phase a with
          | none => simp [hphase, hact] at h
          | some result =>
              simp only [hphase, hact, Option.some.injEq] at h
              exact ⟨i, a, phase, result.1, result.2, rfl, hphase, hact, h.symm⟩

theorem step_unique {q : Pool σ π} (h : Step start act p action p')
    (h' : Step start act p action q) : p' = q :=
  Option.some.inj (h.symm.trans h')

theorem step_spawn (p : Pool σ π) (job : ι) :
    Step start act p (.spawn job) { p with tasks := p.tasks ++ [start job] } := rfl

theorem step_act {i : Nat} {a : α} {phase phase' : π} {shared : σ}
    (hphase : p.tasks[i]? = some phase) (hact : act p i phase a = some (shared, phase')) :
    Step start act p (.act i a) { shared := shared, tasks := p.tasks.set i phase' } := by
  simp [Step, step, hphase, hact]

theorem getElem?_set_cases {tasks : List π} {i j : Nat} {phase' other : π}
    (h : (tasks.set i phase')[j]? = some other) :
    (j = i ∧ other = phase') ∨ (j ≠ i ∧ tasks[j]? = some other) := by
  by_cases hij : i = j
  · subst hij
    obtain ⟨hlt, -⟩ := List.getElem?_eq_some_iff.mp h
    rw [List.length_set] at hlt
    rw [List.getElem?_set_self hlt, Option.some.injEq] at h
    exact .inl ⟨rfl, h.symm⟩
  · right
    rw [List.getElem?_set_ne hij] at h
    exact ⟨fun hji => hij hji.symm, h⟩

theorem getElem?_concat_cases {tasks : List π} {j : Nat} {phase other : π}
    (h : (tasks ++ [phase])[j]? = some other) :
    tasks[j]? = some other ∨ (j = tasks.length ∧ other = phase) := by
  rcases lt_or_ge j tasks.length with hlt | hge
  · left
    rwa [List.getElem?_append_left hlt] at h
  · right
    rw [List.getElem?_append_right hge] at h
    have hzero : j - tasks.length = 0 := by
      by_contra hne
      obtain ⟨k, hk⟩ := Nat.exists_eq_succ_of_ne_zero hne
      simp [hk] at h
    rw [hzero] at h
    exact ⟨by omega, by simpa using h.symm⟩

theorem getElem?_concat_of_some {tasks : List π} {j : Nat} {phase : π}
    (h : tasks[j]? = some phase) (last : π) : (tasks ++ [last])[j]? = some phase := by
  rw [List.getElem?_append_left (List.getElem?_eq_some_iff.mp h).1]
  exact h

theorem getElem?_set_own {tasks : List π} {i : Nat} {phase : π} (hphase : tasks[i]? = some phase)
    (phase' : π) : (tasks.set i phase')[i]? = some phase' :=
  List.getElem?_set_self (List.getElem?_eq_some_iff.mp hphase).1

theorem exists_set {q : π → Prop} {tasks : List π} {i j : Nat} {phase phase' : π}
    (hphase : tasks[i]? = some phase) (hq : q phase → q phase')
    (h : ∃ other, tasks[j]? = some other ∧ q other) :
    ∃ other, (tasks.set i phase')[j]? = some other ∧ q other := by
  obtain ⟨other, hother, hqother⟩ := h
  by_cases hij : i = j
  · subst hij
    rw [hphase, Option.some.injEq] at hother
    subst hother
    exact ⟨phase', getElem?_set_own hphase phase', hq hqother⟩
  · exact ⟨other, by rw [List.getElem?_set_ne hij]; exact hother, hqother⟩

theorem countP_set (q : π → Bool) {tasks : List π} {i : Nat} {phase : π}
    (hphase : tasks[i]? = some phase) (phase' : π) :
    (tasks.set i phase').countP q + (q phase).toNat = tasks.countP q + (q phase').toNat := by
  have h := countP_set_add q hphase phase'
  cases hq : q phase <;> cases hq' : q phase' <;> simp_all

end Pool

/-! ## The history of a task -/

namespace PoolAction

def spawned : PoolAction ι α → Option ι
  | spawn job => some job
  | act _ _ => none

def actOf (i : Nat) : PoolAction ι α → Option α
  | spawn _ => none
  | act j a => if j = i then some a else none

def jobs (actions : List (PoolAction ι α)) : List ι := actions.filterMap spawned

def acts (i : Nat) (actions : List (PoolAction ι α)) : List α := actions.filterMap (actOf i)

theorem mem_jobs {actions : List (PoolAction ι α)} {job : ι} :
    job ∈ jobs actions ↔ .spawn job ∈ actions := by
  rw [jobs, List.mem_filterMap]
  constructor
  · rintro ⟨action, hmem, hspawned⟩
    cases action with
    | spawn => cases hspawned; exact hmem
    | act => cases hspawned
  · exact fun h => ⟨_, h, rfl⟩

@[simp] theorem jobs_concat_spawn (actions : List (PoolAction ι α)) (job : ι) :
    jobs (actions ++ [.spawn job]) = jobs actions ++ [job] := by
  simp [jobs, spawned]

@[simp] theorem jobs_concat_act (actions : List (PoolAction ι α)) (i : Nat) (a : α) :
    jobs (actions ++ [.act i a]) = jobs actions := by
  simp [jobs, spawned]

@[simp] theorem acts_concat_spawn (actions : List (PoolAction ι α)) (i : Nat) (job : ι) :
    acts i (actions ++ [.spawn job]) = acts i actions := by
  simp [acts, actOf]

@[simp] theorem acts_concat_own (actions : List (PoolAction ι α)) (i : Nat) (a : α) :
    acts i (actions ++ [.act i a]) = acts i actions ++ [a] := by
  simp [acts, actOf]

theorem acts_concat_other (actions : List (PoolAction ι α)) {i j : Nat} (h : i ≠ j) (a : α) :
    acts j (actions ++ [.act i a]) = acts j actions := by
  simp [acts, actOf, h]

end PoolAction

namespace Pool

open PoolAction

variable {start : ι → π} {act : Pool σ π → Nat → π → α → Option (σ × π)} {p p' : Pool σ π}
  {actions : List (PoolAction ι α)}

theorem length_tasks (hrun : Runs (Step start act) p actions p') (hempty : p.tasks = []) :
    p'.tasks.length = (jobs actions).length := by
  induction hrun with
  | refl => simp [hempty, jobs]
  | snoc hprefix hlast ih =>
      rcases step_cases hlast with
        ⟨job, rfl, rfl⟩ | ⟨i, a, phase, shared, phase', rfl, -, -, rfl⟩
      · simp [ih]
      · simp [ih]

theorem acts_eq_nil (hrun : Runs (Step start act) p actions p') {i : Nat}
    (hlen : p'.tasks.length ≤ i) : acts i actions = [] := by
  induction hrun with
  | refl => rfl
  | snoc hprefix hlast ih =>
      rcases step_cases hlast with
        ⟨job, rfl, rfl⟩ | ⟨j, a, phase, shared, phase', rfl, hphase, -, rfl⟩
      · simp only [List.length_append, List.length_singleton] at hlen
        simpa using ih (by omega)
      · simp only [List.length_set] at hlen
        have hlt := (List.getElem?_eq_some_iff.mp hphase).1
        rw [acts_concat_other _ (by omega), ih hlen]

/--
The rule for one task among the others.  `Q` relates the shared state, the index
and the job of a task, the acts it has made and its phase; the other tasks have
to keep it.
-/
theorem runs_tasks {Q : σ → Nat → ι → List α → π → Prop}
    (hrun : Runs (Step start act) p actions p') (hempty : p.tasks = [])
    (hspawn : ∀ q job, Reachable (Step start act) p q →
      Q q.shared q.tasks.length job [] (start job))
    (hown : ∀ q i phase a shared phase' job before, Reachable (Step start act) p q →
      q.tasks[i]? = some phase → act q i phase a = some (shared, phase') →
      Q q.shared i job before phase → Q shared i job (before ++ [a]) phase')
    (hother : ∀ q i phase a shared phase' j job before other, Reachable (Step start act) p q →
      q.tasks[i]? = some phase → act q i phase a = some (shared, phase') → i ≠ j →
      Q q.shared j job before other → Q shared j job before other) :
    ∀ i phase, p'.tasks[i]? = some phase →
      ∃ job, (jobs actions)[i]? = some job ∧ Q p'.shared i job (acts i actions) phase := by
  induction hrun with
  | refl => simp [hempty]
  | @snoc q _ actions action hprefix hlast ih =>
      have hreach : Reachable (Step start act) _ q := ⟨_, hprefix⟩
      rcases step_cases hlast with
        ⟨job, rfl, rfl⟩ | ⟨j, a, phase, shared, phase', rfl, hphase, hact, rfl⟩
      · intro i other hother'
        rcases getElem?_concat_cases hother' with hold | ⟨rfl, rfl⟩
        · obtain ⟨old, hjob, hQ⟩ := ih i other hold
          exact ⟨old, by simpa using getElem?_concat_of_some hjob job, by simpa using hQ⟩
        · refine ⟨job, ?_, ?_⟩
          · simp [length_tasks hprefix hempty]
          · rw [acts_concat_spawn, acts_eq_nil hprefix le_rfl]
            exact hspawn q job hreach
      · intro i other hother'
        rw [jobs_concat_act]
        rcases getElem?_set_cases hother' with ⟨rfl, rfl⟩ | ⟨hne, hold⟩
        · obtain ⟨job, hjob, hQ⟩ := ih i phase hphase
          rw [acts_concat_own]
          exact ⟨job, hjob, hown q i phase a shared other job _ hreach hphase hact hQ⟩
        · obtain ⟨job, hjob, hQ⟩ := ih i other hold
          rw [acts_concat_other _ (Ne.symm hne)]
          exact ⟨job, hjob, hother q j phase a shared phase' i job _ other hreach hphase hact
            (Ne.symm hne) hQ⟩

end Pool

end Breaker.Foundation
