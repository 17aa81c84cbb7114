import Breaker.Call.CircuitBreaker

/-!
# The Tower service

`BreakerService.call` calls the inner service at once and hands the breaker an
operation that returns the future it got; the breaker decides about admission
only when that future is polled.  So the two paths of this module differ
exactly on the calls that are not admitted: there the service has been called.
-/

namespace Breaker

universe u

variable {arith : RateArithmetic} {ε : Type u} {σ Req T E : Type*}

structure Service (σ Req T E : Type*) where
  call : σ → Req → σ × CircuitBreaker.Future σ T E

/-- The service with a counter of its executions beside its state. -/
def Service.counting (inner : Service σ Req T E) : Service (σ × Nat) Req T E where
  call x req :=
    let (world, fut) := inner.call x.1 req
    ((world, x.2 + 1), {
      takes := fut.takes
      run := fun x => (((fut.run x.1).1, x.2), (fut.run x.1).2)
      dropAt := fun instant x => (fut.dropAt instant x.1, x.2) })

structure BreakerService (σ Req T E : Type*) where
  breaker : CircuitBreaker
  inner : Service σ Req T E

namespace BreakerService

open CircuitBreaker

variable (config : CircuitBreakerConfig arith ε) (rule : TimeoutRule) (erase : E → ε)

/-- `BreakerService::call`, with the returned future driven to completion. -/
def call (service : BreakerService σ Req T E) (readings : Readings) (req : Req) (x : σ) :
    Driven σ T E :=
  let (x, fut) := service.inner.call x req
  service.breaker.call config rule erase readings (fun x => (x, fut)) x

def direct (service : BreakerService σ Req T E) (readings : Readings) (req : Req) (x : σ) :
    Driven σ T E :=
  service.breaker.call config rule erase readings (fun x => service.inner.call x req) x

def counting (service : BreakerService σ Req T E) : BreakerService (σ × Nat) Req T E where
  breaker := service.breaker
  inner := service.inner.counting

def FailsFast (service : BreakerService σ Req T E) (readings : Readings) (req : Req) (x : σ) :
    Prop :=
  Refused (service.counting.call config rule erase readings req (x, 0)).answer →
    (service.counting.call config rule erase readings req (x, 0)).world = (x, 0)

/-! ## Admission decides -/

variable {config rule erase} {service : BreakerService σ Req T E} {readings : Readings}

theorem call_eq (service : BreakerService σ Req T E) (readings : Readings) (req : Req) (x : σ) :
    service.call config rule erase readings req x =
      service.breaker.call config rule erase readings
        (fun world => (world, (service.inner.call x req).2)) (service.inner.call x req).1 := rfl

theorem call_eq_direct_of_admits (h : Admits config service.breaker readings.admission)
    (req : Req) (x : σ) :
    service.call config rule erase readings req x =
      service.direct config rule erase readings req x := by
  obtain ⟨b, permit, -, hcall⟩ := call_of_admits (E := E) (T := T) (σ := σ) h
  rw [call_eq, direct, hcall, hcall]
  rfl

theorem call_of_not_admits (service : BreakerService σ Req T E) (rule : TimeoutRule)
    (erase : E → ε)
    (h : ¬ Admits config service.breaker readings.admission) (req : Req) (x : σ) :
    ∃ answer, Refused answer ∧
      service.call config rule erase readings req x =
        ⟨service.breaker, (service.inner.call x req).1, answer⟩ ∧
      service.direct config rule erase readings req x = ⟨service.breaker, x, answer⟩ := by
  obtain ⟨answer, hrefused, hcall⟩ :=
    CircuitBreaker.call_of_not_admits (E := E) (T := T) (σ := σ) h
  exact ⟨answer, hrefused, hcall _ _, hcall _ _⟩

theorem call_eq_direct_iff (req : Req) (x : σ) :
    service.call config rule erase readings req x =
        service.direct config rule erase readings req x ↔
      Admits config service.breaker readings.admission ∨ (service.inner.call x req).1 = x := by
  by_cases h : Admits config service.breaker readings.admission
  · simp only [h, true_or, iff_true]
    exact call_eq_direct_of_admits h req x
  · obtain ⟨answer, -, hcall, hdirect⟩ := call_of_not_admits service rule erase h req x
    rw [hcall, hdirect]
    simp [h]

theorem failsFast_iff (req : Req) (x : σ) :
    service.FailsFast config rule erase readings req x ↔
      Admits config service.breaker readings.admission := by
  by_cases h : Admits config service.breaker readings.admission
  · have hanswer :
        ¬ Refused (service.counting.call config rule erase readings req (x, 0)).answer := by
      rw [call_eq, refused_iff]
      exact not_not.mpr h
    simp [FailsFast, h, hanswer]
  · obtain ⟨answer, hrefused, hcall, -⟩ :=
      call_of_not_admits service.counting rule erase h req (x, 0)
    have hcounted : (service.counting.inner.call (x, 0) req).1 ≠ (x, 0) := fun heq =>
      Nat.one_ne_zero (congrArg Prod.snd heq)
    simp only [FailsFast, hcall, hrefused, hcounted, imp_false, not_true_eq_false, h]

/--
The Tower service is the breaker's call around the inner service, and fails
fast, if and only if the call is admitted.  The states agree without admission
only where the call of the inner service has no effect.
-/
theorem tower_call_iff (config : CircuitBreakerConfig arith ε) (rule : TimeoutRule)
    (erase : E → ε) (service : BreakerService σ Req T E) (readings : Readings) (req : Req) (x : σ) :
    (service.call config rule erase readings req x =
          service.direct config rule erase readings req x ∧
        service.FailsFast config rule erase readings req x ↔
      Admits config service.breaker readings.admission) ∧
    (service.call config rule erase readings req x =
        service.direct config rule erase readings req x ↔
      Admits config service.breaker readings.admission ∨ (service.inner.call x req).1 = x) := by
  refine ⟨⟨fun h => (failsFast_iff req x).mp h.2, fun h => ?_⟩, call_eq_direct_iff req x⟩
  exact ⟨call_eq_direct_of_admits h req x, (failsFast_iff req x).mpr h⟩

def tally : Service Nat Unit Unit Unit where
  call n _ := (n + 1, {
    takes := 0
    run := fun n => (n, .ok ())
    dropAt := fun _ n => n })

def openedBreaker : CircuitBreaker where
  state := (StateMachine.fresh hairTrigger.build (.fromNanos 1)).tripped 0 (.fromNanos 1)
  halfOpenPermits := 0
  callbacks := []

/-- The response is `CircuitOpen`, and the inner service has been called. -/
theorem tower_call_opened :
    ¬ ∀ (builder : CircuitBreakerConfigBuilder .single Unit)
      (service : BreakerService Nat Unit Unit Unit) (readings : Readings) (x : Nat),
      StateMachine.Reachable builder.build service.breaker.state →
      service.call builder.build .millis id readings () x =
        service.direct builder.build .millis id readings () x := by
  intro hlaw
  have hnew : StateMachine.new hairTrigger.build 0 =
      some (StateMachine.fresh hairTrigger.build (.fromNanos 1)) := rfl
  have hreach : StateMachine.Reachable hairTrigger.build openedBreaker.state :=
    StateMachine.Reachable.apply ⟨0, _, hnew, .refl _⟩ (.forceOpen, ⟨0, 0, 0⟩)
  have heq := hlaw hairTrigger ⟨openedBreaker, tally⟩ ⟨0, ⟨0, 0, 0⟩⟩ 0 hreach
  rw [call_eq_direct_iff] at heq
  exact absurd heq (by decide)

end BreakerService

end Breaker
