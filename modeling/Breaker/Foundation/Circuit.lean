import Breaker.Foundation.Runs
import Mathlib.Data.List.Induction

/-!
# Circuits

What a circuit breaker is for, over any outcomes, any clock and any waits.  A
circuit remembers every outcome since it was closed, and every one since it
became half-open; a policy says which of these histories open the circuit, which
end the half-open mode, and how long the circuit then stays open.  A wait that
cannot be computed leaves the circuit open with the wait that it had.
-/

namespace Breaker.Foundation

variable {α τ δ ω : Type*}

/-! ## Circuits and policies -/

inductive Standing where
  | closed
  | opened
  | halfOpen
  deriving DecidableEq, Repr

inductive Mode (α τ : Type*) where
  | closed (history : List α)
  | opened (since : τ)
  | halfOpen (probes : List α)

def Mode.standing : Mode α τ → Standing
  | closed _ => .closed
  | opened _ => .opened
  | halfOpen _ => .halfOpen

theorem Mode.standing_closed_iff {mode : Mode α τ} :
    mode.standing = .closed ↔ ∃ history, mode = .closed history := by
  cases mode <;> simp [standing]

structure Circuit (α τ δ : Type*) where
  mode : Mode α τ
  attempts : Nat
  wait : δ

structure Policy (α τ δ ω : Type*) where
  trips : List α → Prop
  /-- Whether the probes of a half-open circuit have recovered it, or not, or neither yet. -/
  verdict : List α → Option Bool
  nextAttempt : Nat → Nat
  waitFor : Nat → ω → Option δ
  elapsed : τ → δ → τ → Prop

/-- Another rule for opening the circuit. -/
def Policy.withTrips (p : Policy α τ δ ω) (trips : List α → Prop) : Policy α τ δ ω :=
  { p with trips := trips }

/-- The readings of the clock and the random choice that an operation depends on. -/
structure Moment (τ ω : Type*) where
  now : τ
  stamp : τ
  draw : ω

inductive Signal (α : Type*) where
  | record (outcome : α)
  | forceOpen
  | forceClosed

inductive Report where
  | silent
  | moved (prev next : Standing)
  | failed
  deriving DecidableEq

namespace Circuit

open Classical in
/-- An open circuit whose wait has elapsed is half-open. -/
noncomputable def ripen (p : Policy α τ δ ω) (c : Circuit α τ δ) (now : τ) : Circuit α τ δ :=
  match c.mode with
  | .opened since => if p.elapsed since c.wait now then { c with mode := .halfOpen [] } else c
  | .closed _ | .halfOpen _ => c

noncomputable def reading (p : Policy α τ δ ω) (c : Circuit α τ δ) (now : τ) : Standing :=
  (c.ripen p now).mode.standing

def trip (p : Policy α τ δ ω) (c : Circuit α τ δ) (m : Moment τ ω) (prev : Standing) :
    Circuit α τ δ × Report :=
  match p.waitFor (p.nextAttempt c.attempts) m.draw with
  | some wait => (⟨.opened m.stamp, p.nextAttempt c.attempts, wait⟩, .moved prev .opened)
  | none => (⟨.opened m.stamp, p.nextAttempt c.attempts, c.wait⟩, .failed)

def recover (c : Circuit α τ δ) (prev : Standing) : Circuit α τ δ × Report :=
  (⟨.closed [], 0, c.wait⟩, .moved prev .closed)

open Classical in
noncomputable def settle (p : Policy α τ δ ω) (c : Circuit α τ δ) (outcome : α)
    (m : Moment τ ω) : Circuit α τ δ × Report :=
  match c.mode with
  | .closed history =>
      if p.trips (history ++ [outcome]) then c.trip p m .closed
      else ({ c with mode := .closed (history ++ [outcome]) }, .silent)
  | .opened _ => (c, .silent)
  | .halfOpen probes =>
      match p.verdict (probes ++ [outcome]) with
      | some true => c.recover .halfOpen
      | some false => c.trip p m .halfOpen
      | none => ({ c with mode := .halfOpen (probes ++ [outcome]) }, .silent)

noncomputable def step (p : Policy α τ δ ω) (c : Circuit α τ δ) :
    Signal α × Moment τ ω → Circuit α τ δ × Report
  | (.record outcome, m) => (c.ripen p m.now).settle p outcome m
  | (.forceOpen, m) => c.trip p m (c.reading p m.now)
  | (.forceClosed, m) => c.recover (c.reading p m.now)

def fresh (wait : δ) : Circuit α τ δ := ⟨.closed [], 0, wait⟩

noncomputable def reports (p : Policy α τ δ ω) (c : Circuit α τ δ)
    (inputs : List (Signal α × Moment τ ω)) : List Report :=
  (trace (step p) c inputs).map Prod.snd

theorem trip_ne_silent (p : Policy α τ δ ω) (c : Circuit α τ δ) (m : Moment τ ω)
    (prev : Standing) : (c.trip p m prev).2 ≠ .silent := by
  unfold trip
  split <;> simp

/-! ## Live histories -/

/-- No outcome of the history has opened the circuit. -/
def Live (trips : List α → Prop) (history : List α) : Prop :=
  ∀ before outcome, before ++ [outcome] <+: history → ¬ trips (before ++ [outcome])

variable {trips trips' : List α → Prop} {history : List α}

theorem live_nil : Live trips [] := fun before outcome h => by simp at h

theorem live_concat_iff {outcome : α} : Live trips (history ++ [outcome]) ↔
    Live trips history ∧ ¬ trips (history ++ [outcome]) := by
  constructor
  · intro h
    exact ⟨fun before a ha => h before a (ha.trans (List.prefix_append _ _)),
      h history outcome (List.prefix_refl _)⟩
  · rintro ⟨hlive, hstay⟩ before a ha
    rcases List.prefix_concat_iff.mp ha with heq | hold
    · rw [heq]
      exact hstay
    · exact hlive before a hold

def AgreeLive (trips trips' : List α → Prop) : Prop :=
  ∀ history outcome, Live trips history →
    (trips (history ++ [outcome]) ↔ trips' (history ++ [outcome]))

theorem AgreeLive.live (h : AgreeLive trips trips') (hlive : Live trips' history) :
    Live trips history := by
  induction history using List.reverseRecOn with
  | nil => exact live_nil
  | append_singleton history outcome ih =>
      obtain ⟨hbefore, hstay⟩ := live_concat_iff.mp hlive
      exact live_concat_iff.mpr
        ⟨ih hbefore, (not_congr (h history outcome (ih hbefore))).mpr hstay⟩

variable {p : Policy α τ δ ω} {c : Circuit α τ δ}

theorem settle_closed (hmode : c.mode = .closed history) (outcome : α) (m : Moment τ ω) :
    (c.settle p outcome m).2 = .silent ↔ ¬ p.trips (history ++ [outcome]) := by
  unfold settle
  rw [hmode]
  dsimp only
  split_ifs with htrip
  · simp [htrip, trip_ne_silent]
  · simp [htrip]

theorem runFrom_live (hlive : Live p.trips history) (hmode : c.mode = .closed []) (m : Moment τ ω) :
    (runFrom (step p) c (history.map fun outcome => (.record outcome, m))).mode =
      .closed history := by
  induction history using List.reverseRecOn with
  | nil => exact hmode
  | append_singleton history outcome ih =>
      obtain ⟨hbefore, hstay⟩ := live_concat_iff.mp hlive
      have hclosed := ih hbefore
      rw [List.map_append, runFrom_append]
      generalize runFrom (step p) c (history.map _) = d at hclosed ⊢
      simp [step, ripen, hclosed, settle, hstay]

/-! ## Two rules for one circuit -/

def LiveMode (trips : List α → Prop) (c : Circuit α τ δ) : Prop :=
  ∀ history, c.mode = .closed history → Live trips history

theorem liveMode_trip (p : Policy α τ δ ω) (c : Circuit α τ δ) (m : Moment τ ω)
    (prev : Standing) : LiveMode trips (c.trip p m prev).1 := by
  unfold trip
  split <;> exact fun history h => by cases h

theorem liveMode_recover (c : Circuit α τ δ) (prev : Standing) :
    LiveMode trips (c.recover prev).1 := by
  intro history h
  cases h
  exact live_nil

theorem liveMode_ripen (h : LiveMode trips c) (now : τ) : LiveMode trips (c.ripen p now) := by
  unfold ripen
  split
  · split_ifs
    · exact fun history heq => by cases heq
    · exact h
  · exact h
  · exact h

theorem liveMode_settle (h : LiveMode p.trips c) (outcome : α) (m : Moment τ ω) :
    LiveMode p.trips (c.settle p outcome m).1 := by
  unfold settle
  split
  · rename_i history hmode
    split_ifs with htrip
    · exact liveMode_trip p c m _
    · intro history' heq
      cases heq
      exact live_concat_iff.mpr ⟨h history hmode, htrip⟩
  · exact h
  · split
    · exact liveMode_recover c _
    · exact liveMode_trip p c m _
    · exact fun history heq => by cases heq

theorem liveMode_step (h : LiveMode p.trips c) (input : Signal α × Moment τ ω) :
    LiveMode p.trips (c.step p input).1 := by
  obtain ⟨signal, m⟩ := input
  cases signal with
  | record outcome => exact liveMode_settle (liveMode_ripen h m.now) outcome m
  | forceOpen => exact liveMode_trip p c m _
  | forceClosed => exact liveMode_recover c _

theorem settle_withTrips (hagree : AgreeLive p.trips trips') (h : LiveMode p.trips c)
    (outcome : α) (m : Moment τ ω) :
    c.settle (p.withTrips trips') outcome m = c.settle p outcome m := by
  unfold settle
  split
  · rename_i history hmode
    have hiff : p.trips (history ++ [outcome]) ↔
        (p.withTrips trips').trips (history ++ [outcome]) :=
      hagree history outcome (h history hmode)
    by_cases htrip : p.trips (history ++ [outcome])
    · rw [if_pos htrip, if_pos (hiff.mp htrip)]
      rfl
    · rw [if_neg htrip, if_neg (mt hiff.mpr htrip)]
  · rfl
  · rfl

theorem step_withTrips (hagree : AgreeLive p.trips trips') (h : LiveMode p.trips c)
    (input : Signal α × Moment τ ω) : c.step (p.withTrips trips') input = c.step p input := by
  obtain ⟨signal, m⟩ := input
  cases signal with
  | record outcome => exact settle_withTrips hagree (liveMode_ripen h m.now) outcome m
  | forceOpen => rfl
  | forceClosed => rfl

/-- Rules that agree on the live histories cannot be told apart at all. -/
theorem run_withTrips (hagree : AgreeLive p.trips trips') (h : LiveMode p.trips c)
    (inputs : List (Signal α × Moment τ ω)) :
    reports (p.withTrips trips') c inputs = reports p c inputs ∧
      runFrom (step (p.withTrips trips')) c inputs = runFrom (step p) c inputs := by
  induction inputs generalizing c with
  | nil => exact ⟨rfl, rfl⟩
  | cons input inputs ih =>
      obtain ⟨hreports, hrun⟩ := ih (liveMode_step h input)
      unfold reports at hreports ⊢
      rw [trace_cons, trace_cons, runFrom_cons, runFrom_cons, step_withTrips hagree h,
        List.map_cons, List.map_cons, hreports]
      exact ⟨rfl, hrun⟩

theorem reports_concat (hlive : Live p.trips history) (hmode : c.mode = .closed [])
    (outcome : α) (m : Moment τ ω) :
    (reports p c ((history ++ [outcome]).map fun outcome => (.record outcome, m))).getLast? =
        some .silent ↔ ¬ p.trips (history ++ [outcome]) := by
  have hclosed := runFrom_live hlive hmode m
  rw [reports, List.map_append, List.map_singleton, trace_concat, List.map_append,
    List.map_singleton, List.getLast?_append, List.getLast?_singleton, Option.some_or,
    Option.some_inj]
  generalize runFrom (step p) c (history.map _) = d at hclosed ⊢
  rw [← settle_closed (p := p) hclosed outcome m, step, ripen, hclosed]

theorem agreeLive_of_reports (hmode : c.mode = .closed []) (m : Moment τ ω)
    (h : ∀ inputs, reports (p.withTrips trips') c inputs = reports p c inputs) :
    AgreeLive p.trips trips' := by
  have hagree : ∀ history outcome, Live p.trips history → Live trips' history →
      (p.trips (history ++ [outcome]) ↔ trips' (history ++ [outcome])) := by
    intro history outcome hlive hlive'
    have hlast := reports_concat (p := p) hlive hmode outcome m
    rw [← h] at hlast
    exact not_iff_not.mp
      (hlast.symm.trans (reports_concat (p := p.withTrips trips') hlive' hmode outcome m))
  have hboth : ∀ history, Live p.trips history → Live trips' history := by
    intro history
    induction history using List.reverseRecOn with
    | nil => exact fun _ => live_nil
    | append_singleton history outcome ih =>
        intro hlive
        obtain ⟨hbefore, hstay⟩ := live_concat_iff.mp hlive
        exact live_concat_iff.mpr
          ⟨ih hbefore, (not_congr (hagree history outcome hbefore (ih hbefore))).mp hstay⟩
  exact fun history outcome hlive => hagree history outcome hlive (hboth history hlive)

end Circuit

end Breaker.Foundation
