import Breaker.Call.Tower
import Breaker.Tasks.Accounting

/-!
# Clients of the Tower service

The clones of a `BreakerService` share one breaker.  Their clients poll them for
readiness and call them; any number of response futures is in flight at a time.
A future is a task of the breaker, and what it awaits is the future that the
inner service has returned.  An error of `poll_ready` reaches the client as a
`Failure` too, but no task carries it: it is surfaced without being recorded.
-/

namespace Breaker

open Foundation PoolAction CircuitBreaker

universe u

variable {arith : RateArithmetic} {ε : Type u} {σ Req T E : Type*}

inductive Poll (α : Type*) where
  | ready (result : α)
  | pending

structure ReadyService (σ Req T E : Type*) extends Service σ Req T E where
  pollReady : σ → σ × Poll (Except E Unit)

namespace BreakerService

def mapErr : Poll (Except E Unit) → Poll (Except (CallError E) Unit)
  | .ready (.ok _) => .ready (.ok ())
  | .ready (.error err) => .ready (.error (.failure err))
  | .pending => .pending

/-- `BreakerService::poll_ready`; the breaker is not asked. -/
def pollReady (inner : ReadyService σ Req T E) (x : σ) :
    σ × Poll (Except (CallError E) Unit) :=
  let (x, poll) := inner.pollReady x
  (x, mapErr poll)

end BreakerService

/--
The breaker with its calls in flight, the world of the inner services, the
futures that they have returned, and the errors that `poll_ready` has returned.
-/
structure Clients (ε : Type u) (σ T E : Type*) where
  system : System ε
  world : σ
  futures : List (Future σ T E)
  unready : List (CallError E)

inductive ClientAction (Req : Type*) (ε : Type u) where
  | pollReady (clone : Nat)
  | call (clone : Nat) (req : Req)
  /-- The future of task `i` completes under its task. -/
  | complete (i : Nat)
  /-- The timer of task `i` fires at `instant`, and the future is dropped there. -/
  | elapse (i instant : Nat)
  | act (i : Nat) (a : TaskAction ε)

/-- The end of an await that the future decides. -/
def Outcome.awaited : Outcome ε → Bool
  | ok _ | err _ | elapsed => true
  | dropped | panicked => false

namespace Clients

variable (config : CircuitBreakerConfig arith ε) (value : T → ε) (erase : E → ε)
  (inner : Nat → ReadyService σ Req T E)

def outcome : Except E T → Outcome ε
  | .ok v => .ok (value v)
  | .error err => .err (erase err)

def taskStep (c : Clients ε σ T E) (i : Nat) (a : TaskAction ε) (x : σ) :
    Option (Clients ε σ T E) :=
  (Pool.step Phase.start (System.act config) c.system (.act i a)).map fun system =>
    { c with system := system, world := x }

def step (c : Clients ε σ T E) : ClientAction Req ε → Option (Clients ε σ T E)
  | .pollReady clone =>
      match BreakerService.pollReady (inner clone) c.world with
      | (x, .ready (.error err)) => some { c with world := x, unready := c.unready ++ [err] }
      | (x, .ready (.ok _)) | (x, .pending) => some { c with world := x }
  -- The inner service is called at once; admission waits for the first poll of the future.
  | .call clone req =>
      let (x, fut) := (inner clone).call c.world req
      some { c with
        system := { c.system with tasks := c.system.tasks ++ [Phase.start .call] }
        world := x
        futures := c.futures ++ [fut] }
  | .complete i =>
      match c.futures[i]? with
      | some fut =>
          let (x, result) := fut.run c.world
          c.taskStep config i (.finish (outcome value erase result)) x
      | none => none
  | .elapse i instant =>
      match c.futures[i]?, config.callTimeout with
      | some fut, some _ => c.taskStep config i (.finish .elapsed) (fut.dropAt instant c.world)
      | _, _ => none
  | .act i a =>
      if a.outcome.any Outcome.awaited then none else c.taskStep config i a c.world

abbrev Step (c : Clients ε σ T E) (action : ClientAction Req ε) (c' : Clients ε σ T E) : Prop :=
  step config value erase inner c action = some c'

def start (system : System ε) (x : σ) : Clients ε σ T E := ⟨system, x, [], []⟩

/-! ## What the clients see -/

def counts : CallError E → Bool
  | .failure err => config.isBreakerFailure (erase err)
  | .timeout => true
  | .circuitOpen | .rejected => false

def surfaced (c : Clients ε σ T E) : Nat :=
  c.unready.countP (counts config erase) + System.countedAnswers config c.system true

def AccountsExactly (c : Clients ε σ T E) : Prop :=
  surfaced config erase c = c.system.shared.state.totalFailures

def failsReadiness (c : Clients ε σ T E) : ClientAction Req ε → Bool
  | .pollReady clone =>
      match (BreakerService.pollReady (inner clone) c.world).2 with
      | .ready (.error err) => counts config erase err
      | .ready (.ok _) | .pending => false
  | .call .. | .complete _ | .elapse .. | .act .. => false

def unwinds (c : Clients ε σ T E) : ClientAction Req ε → Bool
  | .act i a => System.unwinds config c.system (.act i a)
  | .pollReady _ | .call .. | .complete _ | .elapse .. => false

/-! ## A client run is a run of the breaker -/

variable {config value erase inner} {c c' : Clients ε σ T E} {action : ClientAction Req ε}

theorem taskStep_eq_some {i : Nat} {a : TaskAction ε} {x : σ}
    (h : c.taskStep config i a x = some c') :
    System.Step config c.system (.act i a) c'.system ∧ c'.unready = c.unready := by
  obtain ⟨system, hstep, rfl⟩ := Option.map_eq_some_iff.mp h
  exact ⟨hstep, rfl⟩

variable (config erase inner c c' action) in
inductive Moves : Prop
  | polled : c'.system = c.system → unwinds config c action = false →
      c'.unready.countP (counts config erase) =
        c.unready.countP (counts config erase) +
          (failsReadiness config erase inner c action).toNat →
      Moves
  | called : System.Step config c.system (.spawn .call) c'.system →
      c'.unready = c.unready → failsReadiness config erase inner c action = false →
      unwinds config c action = false → Moves
  | acted {i : Nat} {a : TaskAction ε} : System.Step config c.system (.act i a) c'.system →
      c'.unready = c.unready → failsReadiness config erase inner c action = false →
      unwinds config c action = System.unwinds config c.system (.act i a) → Moves

theorem moves_of_step (h : Step config value erase inner c action c') :
    Moves config erase inner c c' action := by
  unfold Step at h
  cases action with
  | pollReady clone =>
      simp only [step] at h
      split at h
      · rename_i x err hpoll
        cases h
        refine .polled rfl rfl ?_
        cases hcounts : counts config erase err <;> simp [failsReadiness, hpoll, hcounts]
      · rename_i x hpoll
        cases h
        refine .polled rfl rfl ?_
        simp [failsReadiness, hpoll]
      · rename_i x hpoll
        cases h
        refine .polled rfl rfl ?_
        simp [failsReadiness, hpoll]
  | call clone req =>
      cases h
      exact .called (Pool.step_spawn _ _) rfl rfl rfl
  | complete i =>
      simp only [step] at h
      split at h
      · obtain ⟨hstep, hunready⟩ := taskStep_eq_some h
        exact .acted hstep hunready rfl rfl
      · cases h
  | elapse i instant =>
      simp only [step] at h
      split at h
      · obtain ⟨hstep, hunready⟩ := taskStep_eq_some h
        exact .acted hstep hunready rfl rfl
      · cases h
  | act i a =>
      simp only [step] at h
      split_ifs at h
      obtain ⟨hstep, hunready⟩ := taskStep_eq_some h
      exact .acted hstep hunready rfl rfl

variable {system : System ε} {x : σ} {actions : List (ClientAction Req ε)}

theorem projected (hrun : Runs (Step config value erase inner) (start system x) actions c) :
    ∃ sub, Runs (System.Step config) system sub c.system ∧
      (∀ job, .spawn job ∈ sub → job = .call) ∧
      countSteps (Pool.step Phase.start (System.act config)) (System.unwinds config) system sub =
        countSteps (step config value erase inner) (unwinds config) (start system x) actions := by
  induction hrun with
  | refl => exact ⟨[], .refl _, by simp, rfl⟩
  | @snoc c _ actions action hprefix hlast ih =>
      obtain ⟨sub, hsub, hjobs, hcount⟩ := ih
      rw [countSteps_concat _ hprefix]
      cases moves_of_step hlast with
      | polled hsystem hquiet =>
          rw [hsystem, hquiet]
          exact ⟨sub, hsub, hjobs, hcount⟩
      | called hspawn _ _ hquiet =>
          refine ⟨_, hsub.snoc hspawn, fun job hjob => ?_, ?_⟩
          · rcases List.mem_append.mp hjob with hold | hnew
            · exact hjobs job hold
            · simpa using hnew
          · rw [countSteps_concat _ hsub, hcount, hquiet]
            rfl
      | acted hstep _ _ hunwinds =>
          refine ⟨_, hsub.snoc hstep, fun job hjob => ?_, ?_⟩
          · rcases List.mem_append.mp hjob with hold | hnew
            · exact hjobs job hold
            · simp at hnew
          · rw [countSteps_concat _ hsub, hcount, hunwinds]

theorem unready_counts (hrun : Runs (Step config value erase inner) (start system x) actions c) :
    c.unready.countP (counts config erase) =
      countSteps (step config value erase inner) (failsReadiness config erase inner)
        (start system x) actions := by
  induction hrun with
  | refl => rfl
  | snoc hprefix hlast ih =>
      rw [countSteps_concat _ hprefix, ← ih]
      cases moves_of_step hlast with
      | polled _ _ hunready => exact hunready
      | called _ hunready hready => rw [hunready, hready]; rfl
      | acted _ hunready hready => rw [hunready, hready]; rfl

/--
When every response has been driven to its end, the clients have seen as many
counted errors as the breaker has failures, if and only if as many errors of
`poll_ready` count as records have unwound.
-/
theorem tower_accounting_iff (b : CircuitBreakerConfigBuilder arith ε) (value : T → ε)
    (erase : E → ε) (inner : Nat → ReadyService σ Req T E) {draw : Draw}
    (hnew : System.new b.build draw = some system)
    (hrun : Runs (Step b.build value erase inner) (start system x) actions c)
    (hquiet : System.Quiescent c.system) :
    AccountsExactly b.build erase c ↔
      countSteps (step b.build value erase inner) (failsReadiness b.build erase inner)
          (start system x) actions =
        countSteps (step b.build value erase inner) (unwinds b.build) (start system x) actions := by
  obtain ⟨sub, hsub, hjobs, hcount⟩ := projected hrun
  have hmanual : ∀ failed, .spawn (Job.record failed) ∉ sub := by
    intro failed hmem
    cases hjobs _ hmem
  obtain ⟨-, hfailures⟩ := System.totals (build_wellFormed b) hnew hmanual hsub
  rw [hquiet.contributed, hcount] at hfailures
  rw [AccountsExactly, surfaced, unready_counts hrun]
  change c.system.shared.state.totalFailures = _ at hfailures
  omega

def broken : ReadyService Unit Unit Unit Unit where
  call x _ := (x, {
    takes := 0
    run := fun x => (x, .error ())
    dropAt := fun _ x => x })
  pollReady x := (x, .ready (.error ()))

def failedCall : List (ClientAction Unit Unit) :=
  [.call 0 (), .act 0 (.check 0), .complete 0, .act 0 (.record ⟨0, 0, 0⟩), .act 0 .announce,
   .act 0 .release]

theorem tower_accounting_iff_failedCall :
    ∃ system c, System.new hairTrigger.build 0 = some system ∧
      Runs (Step hairTrigger.build id id fun _ => broken) (start system ()) failedCall c ∧
      System.Quiescent c.system ∧
      (AccountsExactly hairTrigger.build id c ↔
        countSteps (step hairTrigger.build id id fun _ => broken)
            (failsReadiness hairTrigger.build id fun _ => broken) (start system ()) failedCall =
          countSteps (step hairTrigger.build id id fun _ => broken) (unwinds hairTrigger.build)
            (start system ()) failedCall) :=
  ⟨_, _, rfl, runs_of_execute rfl, System.quiescent_of_all rfl,
    @tower_accounting_iff _ _ _ _ _ _ _ _ () failedCall hairTrigger id id (fun _ => broken) 0 rfl
      (runs_of_execute rfl) (System.quiescent_of_all rfl)⟩

/-- One failed `poll_ready` surfaces a `Failure`, and nothing is recorded. -/
theorem tower_accounting_unready :
    ¬ ∀ (b : CircuitBreakerConfigBuilder .single Unit)
      (inner : Nat → ReadyService Unit Unit Unit Unit) (draw : Draw) (system : System Unit)
      (actions : List (ClientAction Unit Unit)) (c : Clients Unit Unit Unit Unit),
      System.new b.build draw = some system →
      Runs (Step b.build id id inner) (start system ()) actions c →
      System.Quiescent c.system → AccountsExactly b.build id c := by
  intro hlaw
  have hexact := hlaw hairTrigger (fun _ => broken) 0 _ [.pollReady 0] _ rfl
    (runs_of_execute rfl) (System.quiescent_of_all rfl)
  cases hexact

end Clients

end Breaker
