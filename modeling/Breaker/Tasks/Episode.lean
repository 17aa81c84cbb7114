import Breaker.Config.Builder
import Breaker.Tasks.Lock
import Breaker.Tasks.Permits

/-!
# Half-open episodes

An episode runs from one applied transition to the next; the lazy upgrade to
`HalfOpen` is not one of them.  The `probes` of an episode are the calls that
were admitted with a permit in it, and its `verdicts` the tasks that recorded an
outcome while the circuit read `HalfOpen`.  `Ledger` ties the two to the phases
of the tasks and to the success count of the machine.
-/

namespace Breaker

open Foundation

universe u

variable {arith : RateArithmetic} {ε : Type u}

namespace Event

/-- The event is an applied transition, other than the upgrade. -/
def ends : Event → Bool
  | wrote _ op _ prev next => op == .forceOpen || op == .forceClosed || prev != next
  | admitted .. | called .. | released _ => false

def probe : Event → Option Nat
  | admitted i true => some i
  | admitted _ false | wrote .. | called .. | released _ => none

def verdict : Event → Option Nat
  | wrote i _ _ .halfOpen _ => some i
  | wrote _ _ _ .opened _ | wrote _ _ _ .closed _ | admitted .. | called .. | released _ => none

end Event

namespace Phase

def entered : Phase ε → Bool
  | running _ | recording .. | announcing .. | leaving .. | done _ => true
  | idle | loading | acquiring _ | forcing _ | forced .. => false

def written : Phase ε → Bool
  | announcing .. | leaving .. | done _ => true
  | idle | loading | acquiring _ | running _ | recording .. | forcing _ | forced .. => false

theorem entered_of_written {phase : Phase ε} (h : phase.written = true) :
    phase.entered = true := by
  cases phase <;> first | rfl | cases h

end Phase

/-! ## Episodes of a log -/

/-- The events since the last applied transition, newest first. -/
def episode (log : List Event) : List Event := log.takeWhile fun e => !e.ends

def probes (log : List Event) : List Nat := (episode log).filterMap Event.probe

def verdicts (log : List Event) : List Nat := (episode log).filterMap Event.verdict

theorem episode_cons_of_ends {e : Event} (h : e.ends = true) (log : List Event) :
    episode (e :: log) = [] := by
  simp [episode, h]

theorem episode_cons {e : Event} (h : e.ends = false) (log : List Event) :
    episode (e :: log) = e :: episode log := by
  simp [episode, h]

theorem probes_cons {e : Event} (h : e.ends = false) (log : List Event) :
    probes (e :: log) = e.probe.toList ++ probes log := by
  rw [probes, episode_cons h, List.filterMap_cons]
  cases e.probe <;> rfl

theorem verdicts_cons {e : Event} (h : e.ends = false) (log : List Event) :
    verdicts (e :: log) = e.verdict.toList ++ verdicts log := by
  rw [verdicts, episode_cons h, List.filterMap_cons]
  cases e.verdict <;> rfl

theorem mem_of_mem_episode {e : Event} {log : List Event} (h : e ∈ episode log) : e ∈ log :=
  (List.takeWhile_prefix _).subset h

theorem mem_probes {i : Nat} {log : List Event} :
    i ∈ probes log ↔ .admitted i true ∈ episode log := by
  rw [probes, List.mem_filterMap]
  constructor
  · rintro ⟨e, he, hprobe⟩
    unfold Event.probe at hprobe
    split at hprobe <;> cases hprobe
    exact he
  · exact fun h => ⟨_, h, rfl⟩

theorem mem_verdicts {i : Nat} {log : List Event} :
    i ∈ verdicts log ↔ ∃ op tick next, .wrote i op tick .halfOpen next ∈ episode log := by
  rw [verdicts, List.mem_filterMap]
  constructor
  · rintro ⟨e, he, hverdict⟩
    unfold Event.verdict at hverdict
    split at hverdict <;> cases hverdict
    exact ⟨_, _, _, he⟩
  · rintro ⟨op, tick, next, h⟩
    exact ⟨_, h, rfl⟩

namespace System

variable {config : CircuitBreakerConfig arith ε} {s s' : System ε} {i : Nat}
  {phase phase' : Phase ε}
  {a : TaskAction ε} {shared : Shared}

/-! ## The ledger -/

structure Ledger (s : System ε) : Prop where
  admitted : ∀ i permit, .admitted i permit ∈ s.shared.log →
    ∃ phase, s.tasks[i]? = some phase ∧ phase.entered = true
  wrote : ∀ i op tick prev next, .wrote i op tick prev next ∈ s.shared.log →
    ∃ phase, s.tasks[i]? = some phase ∧ phase.written = true
  probes_nodup : (probes s.shared.log).Nodup
  verdicts_nodup : (verdicts s.shared.log).Nodup
  /-- A probe of the episode still has its guard, unless it gave it back in the episode. -/
  owners : ∀ i ∈ probes s.shared.log, .released i ∈ episode s.shared.log ∨
    ∃ phase, s.tasks[i]? = some phase ∧ phase.holdsPermit = true
  reading : probes s.shared.log ≠ [] →
    s.shared.state.currentAt s.shared.clock = .halfOpen
  counted : s.shared.state.successCount = (verdicts s.shared.log).length
  /-- What a probe records in its episode it records while the circuit reads `HalfOpen`. -/
  heard : ∀ i ∈ probes s.shared.log, ∀ op tick prev next,
    .wrote i op tick prev next ∈ episode s.shared.log → prev = .halfOpen

theorem ledger_new {draw : Draw} (h : new config draw = some s) : Ledger s := by
  obtain ⟨state, hstate, rfl⟩ := Option.map_eq_some_iff.mp h
  obtain ⟨wait, -, rfl⟩ := StateMachine.new_eq hstate
  exact {
    admitted := by simp
    wrote := by simp
    probes_nodup := .nil
    verdicts_nodup := .nil
    owners := by simp [probes, episode]
    reading := by simp [probes, episode]
    counted := rfl
    heard := by simp [probes, episode] }

theorem Ledger.spawn (h : Ledger s) (job : Job) :
    Ledger { s with tasks := s.tasks ++ [Phase.start job] } := by
  have hkeep : ∀ {i : Nat} {q : Phase ε → Bool},
      (∃ phase, s.tasks[i]? = some phase ∧ q phase = true) →
      ∃ phase, (s.tasks ++ [Phase.start job])[i]? = some phase ∧ q phase = true := by
    rintro i q ⟨phase, hphase, hq⟩
    exact ⟨phase, Pool.getElem?_concat_of_some hphase _, hq⟩
  exact {
    admitted := fun i permit hmem => hkeep (h.admitted i permit hmem)
    wrote := fun i op tick prev next hmem => hkeep (h.wrote i op tick prev next hmem)
    probes_nodup := h.probes_nodup
    verdicts_nodup := h.verdicts_nodup
    owners := fun i hmem => (h.owners i hmem).imp_right hkeep
    reading := h.reading
    counted := h.counted
    heard := h.heard }

theorem Acts.entered (h : Acts config s i phase a shared phase')
    (hentered : phase.entered = true) : phase'.entered = true := by
  cases h with
  | finish hfinish => obtain ⟨answer, -, ⟨failed, rfl⟩ | rfl⟩ := finish_cases hfinish <;> rfl
  | record =>
      unfold afterRecord
      split <;> rfl
  | announce => rfl
  | release => rfl
  | _ => cases hentered

theorem Acts.written (h : Acts config s i phase a shared phase')
    (hwritten : phase.written = true) : phase'.written = true := by
  cases h with
  | announce => rfl
  | release => rfl
  | _ => cases hwritten

/-! ## Acts outside the write lock -/

inductive Logged (i : Nat) (phase : Phase ε) (shared : Shared) (phase' : Phase ε) : Event → Prop
  | unprobed : phase'.entered = true → Logged i phase shared phase' (.admitted i false)
  | probed : phase.entered = false → phase'.entered = true → phase'.holdsPermit = true →
      shared.state.currentAt shared.clock = .halfOpen →
      Logged i phase shared phase' (.admitted i true)
  | called {pair : State × State} : Logged i phase shared phase' (.called i pair)
  | released : Logged i phase shared phase' (.released i)

theorem Logged.not_ends {e : Event} (h : Logged i phase shared phase' e) : e.ends = false := by
  cases h <;> rfl

theorem Logged.verdict {e : Event} (h : Logged i phase shared phase' e) : e.verdict = none := by
  cases h <;> rfl

/-- An act outside the write lock: the machine stays, and at most one event is logged. -/
structure Unlocked (s : System ε) (i : Nat) (phase : Phase ε) (shared : Shared)
    (phase' : Phase ε) (news : Option Event) : Prop where
  state : shared.state = s.shared.state
  log : shared.log = news.toList ++ s.shared.log
  logged : ∀ e ∈ news, Logged i phase shared phase' e
  guard : phase.holdsPermit = true → phase'.holdsPermit = true ∨ news = some (.released i)

theorem unlocked_quiet (hstate : shared.state = s.shared.state)
    (hlog : shared.log = s.shared.log)
    (hguard : phase.holdsPermit = true → phase'.holdsPermit = true) :
    ∃ news, Unlocked s i phase shared phase' news :=
  ⟨none, hstate, hlog, by simp, fun hholds => .inl (hguard hholds)⟩

/-- The write-locked section of a task, after which the task has written. -/
structure Locked (config : CircuitBreakerConfig arith ε) (s : System ε) (i : Nat) (phase : Phase ε)
    (a : TaskAction ε) (shared : Shared) (phase' : Phase ε) (op : Op) (tick : Tick) : Prop where
  canWrite : CanWrite s tick
  shared_eq : shared = write config s.shared i op tick
  before : phase.written = false
  after : phase'.written = true
  guard : phase.holdsPermit = true → phase'.holdsPermit = true
  op_eq : (op = .forceOpen ∨ op = .forceClosed) ∨
    a = .record tick ∧ ∃ failed, op = recordOp failed

theorem Acts.locked_or_unlocked (h : Acts config s i phase a shared phase')
    (hreach : Reachable config s) (hphase : s.tasks[i]? = some phase) :
    (∃ news, Unlocked s i phase shared phase' news) ∨
      ∃ op tick, Locked config s i phase a shared phase' op tick := by
  have hhalf : phase.reads = true → s.shared.state.currentAt s.shared.clock = .halfOpen :=
    hreach.reading phase (List.mem_of_getElem? hphase)
  cases h with
  | enter =>
      refine .inl ⟨some (.admitted i false), rfl, rfl, ?_, fun hholds => by cases hholds⟩
      rintro e ⟨⟩
      exact .unprobed rfl
  | acquire =>
      refine .inl ⟨some (.admitted i true), rfl, rfl, ?_, fun hholds => by cases hholds⟩
      rintro e ⟨⟩
      exact .probed rfl rfl rfl (hhalf rfl)
  | announce =>
      refine .inl ⟨some (.called i _), rfl, rfl, ?_, .inl⟩
      rintro e ⟨⟩
      exact .called
  | @release permit =>
      cases permit with
      | false =>
          exact .inl (unlocked_quiet rfl rfl id)
      | true =>
          refine .inl ⟨some (.released i), rfl, rfl, ?_, fun _ => .inr rfl⟩
          rintro e ⟨⟩
          exact .released
  | finish hfinish =>
      refine .inl (unlocked_quiet rfl rfl fun hholds => ?_)
      rw [finish_holdsPermit hfinish]
      exact hholds
  | record hwrite =>
      refine .inr ⟨_, _, hwrite, rfl, rfl, ?_, fun hholds => ?_, .inr ⟨rfl, _, rfl⟩⟩
      · unfold afterRecord
        split <;> rfl
      · rw [afterRecord_holdsPermit]
        exact hholds
  | @force f _ _ hwrite =>
      refine .inr ⟨_, _, hwrite, rfl, rfl, ?_, fun hholds => (by cases hholds), .inl ?_⟩
      · unfold afterForce
        split <;> rfl
      · cases f with
        | trip => exact .inl rfl
        | reset => exact .inr rfl
  | _ => exact .inl (unlocked_quiet rfl rfl fun hholds => (by cases hholds))

theorem Ledger.not_mem_probes (h : Ledger s) (hphase : s.tasks[i]? = some phase)
    (hentered : phase.entered = false) : i ∉ probes s.shared.log := by
  intro hmem
  obtain ⟨other, hother, hyes⟩ := h.admitted i true (mem_of_mem_episode (mem_probes.mp hmem))
  rw [hphase, Option.some.injEq] at hother
  subst hother
  simp [hentered] at hyes

theorem Ledger.not_wrote (h : Ledger s) (hphase : s.tasks[i]? = some phase)
    (hwritten : phase.written = false) (op : Op) (tick : Tick) (prev next : State) :
    .wrote i op tick prev next ∉ s.shared.log := by
  intro hmem
  obtain ⟨other, hother, hyes⟩ := h.wrote i op tick prev next hmem
  rw [hphase, Option.some.injEq] at hother
  subst hother
  simp [hwritten] at hyes

theorem Ledger.not_mem_verdicts (h : Ledger s) (hphase : s.tasks[i]? = some phase)
    (hwritten : phase.written = false) : i ∉ verdicts s.shared.log := by
  intro hmem
  obtain ⟨op, tick, next, hold⟩ := mem_verdicts.mp hmem
  exact h.not_wrote hphase hwritten _ _ _ _ (mem_of_mem_episode hold)

theorem Unlocked.mem_probes {news : Option Event} (h : Unlocked s i phase shared phase' news)
    {j : Nat} (hmem : j ∈ probes shared.log) : j ∈ probes s.shared.log ∨
      j = i ∧ phase.entered = false ∧ phase'.holdsPermit = true ∧
        shared.state.currentAt shared.clock = .halfOpen := by
  rw [h.log] at hmem
  cases news with
  | none => exact .inl hmem
  | some e =>
      have hlogged := h.logged e rfl
      rw [Option.toList_some, List.singleton_append, probes_cons hlogged.not_ends,
        List.mem_append] at hmem
      rcases hmem with hnew | hold
      · right
        cases hlogged with
        | probed hbefore _ hholds hcurrent =>
            exact ⟨by simpa [Event.probe] using hnew, hbefore, hholds, hcurrent⟩
        | _ => simp [Event.probe] at hnew
      · exact .inl hold

theorem Unlocked.mem_episode {news : Option Event} (h : Unlocked s i phase shared phase' news)
    {e : Event} : e ∈ episode shared.log ↔ e ∈ news ∨ e ∈ episode s.shared.log := by
  rw [h.log]
  cases hnews : news with
  | none => simp
  | some last =>
      rw [Option.toList_some, List.singleton_append,
        episode_cons (h.logged last hnews).not_ends, List.mem_cons]
      simp [eq_comm]

theorem Unlocked.verdicts_eq {news : Option Event}
    (h : Unlocked s i phase shared phase' news) : verdicts shared.log = verdicts s.shared.log := by
  rw [h.log]
  cases hnews : news with
  | none => rfl
  | some e =>
      have hlogged := h.logged e hnews
      rw [Option.toList_some, List.singleton_append, verdicts_cons hlogged.not_ends,
        hlogged.verdict]
      rfl

theorem Ledger.unlocked_probes_nodup {news : Option Event} (h : Ledger s)
    (hphase : s.tasks[i]? = some phase)
    (hunlocked : Unlocked s i phase shared phase' news) : (probes shared.log).Nodup := by
  rw [hunlocked.log]
  cases hnews : news with
  | none => exact h.probes_nodup
  | some e =>
      have hlogged := hunlocked.logged e hnews
      rw [Option.toList_some, List.singleton_append, probes_cons hlogged.not_ends]
      cases hlogged with
      | probed hbefore =>
          exact List.nodup_cons.mpr ⟨h.not_mem_probes hphase hbefore, h.probes_nodup⟩
      | _ => exact h.probes_nodup

theorem Ledger.unlocked_owners {news : Option Event} (h : Ledger s)
    (hphase : s.tasks[i]? = some phase)
    (hunlocked : Unlocked s i phase shared phase' news) {j : Nat} (hmem : j ∈ probes shared.log) :
    .released j ∈ episode shared.log ∨
      ∃ other, (s.tasks.set i phase')[j]? = some other ∧ other.holdsPermit = true := by
  have hown := Pool.getElem?_set_own hphase phase'
  rcases hunlocked.mem_probes hmem with hold | ⟨rfl, -, hholds, -⟩
  · rcases h.owners j hold with hreleased | ⟨other, hother, hholds⟩
    · exact .inl (hunlocked.mem_episode.mpr (.inr hreleased))
    · by_cases hij : i = j
      · subst hij
        rw [hphase, Option.some.injEq] at hother
        subst hother
        -- The acting task keeps its guard, or logs that it has dropped it.
        rcases hunlocked.guard hholds with hkept | hreleased
        · exact .inr ⟨phase', hown, hkept⟩
        · exact .inl (hunlocked.mem_episode.mpr (.inl hreleased))
      · exact .inr ⟨other, by rw [List.getElem?_set_ne hij]; exact hother, hholds⟩
  · exact .inr ⟨phase', hown, hholds⟩

theorem Ledger.unlocked_heard {news : Option Event} (h : Ledger s)
    (hphase : s.tasks[i]? = some phase)
    (hunlocked : Unlocked s i phase shared phase' news) {j : Nat} (hmem : j ∈ probes shared.log)
    {op : Op} {tick : Tick} {prev next : State}
    (hwrote : .wrote j op tick prev next ∈ episode shared.log) : prev = .halfOpen := by
  have hold : .wrote j op tick prev next ∈ episode s.shared.log := by
    rcases hunlocked.mem_episode.mp hwrote with hnew | hold
    · cases hunlocked.logged _ hnew
    · exact hold
  rcases hunlocked.mem_probes hmem with hprobe | ⟨rfl, hbefore, -, -⟩
  · exact h.heard j hprobe op tick prev next hold
  · -- A task that is only now admitted has not written before.
    have hwritten : phase.written = false := by
      by_contra hyes
      simp [Phase.entered_of_written (Bool.not_eq_false _ ▸ hyes)] at hbefore
    exact absurd (mem_of_mem_episode hold) (h.not_wrote hphase hwritten op tick prev next)

theorem Ledger.unlocked {news : Option Event} (h : Ledger s)
    (hphase : s.tasks[i]? = some phase) (hacts : Acts config s i phase a shared phase')
    (hunlocked : Unlocked s i phase shared phase' news) :
    Ledger { shared := shared, tasks := s.tasks.set i phase' } := by
  have hverdicts := hunlocked.verdicts_eq
  have hown := Pool.getElem?_set_own hphase phase'
  exact {
    admitted := by
      intro j permit hmem
      rw [hunlocked.log, List.mem_append] at hmem
      rcases hmem with hnew | hold
      · cases hunlocked.logged _ (by simpa using hnew) with
        | unprobed hentered => exact ⟨phase', hown, hentered⟩
        | probed _ hentered => exact ⟨phase', hown, hentered⟩
      · exact Pool.exists_set hphase hacts.entered (h.admitted j permit hold)
    wrote := by
      intro j op tick prev next hmem
      rw [hunlocked.log, List.mem_append] at hmem
      rcases hmem with hnew | hold
      · cases hunlocked.logged _ (by simpa using hnew)
      · exact Pool.exists_set hphase hacts.written (h.wrote j op tick prev next hold)
    probes_nodup := h.unlocked_probes_nodup hphase hunlocked
    verdicts_nodup := hverdicts ▸ h.verdicts_nodup
    owners := fun j hmem => h.unlocked_owners hphase hunlocked hmem
    reading := by
      intro hne
      obtain ⟨j, hj⟩ := List.exists_mem_of_ne_nil _ hne
      rcases hunlocked.mem_probes hj with hold | ⟨-, -, -, hcurrent⟩
      · dsimp only
        rw [hunlocked.state]
        exact StateMachine.currentAt_halfOpen_mono (h.reading (List.ne_nil_of_mem hold))
          hacts.clock_le
      · exact hcurrent
    counted := by
      dsimp only
      rw [hunlocked.state, hverdicts]
      exact h.counted
    heard := fun j hmem _ _ _ _ hwrote => h.unlocked_heard hphase hunlocked hmem hwrote }

/-! ## Write-locked sections -/

theorem Ledger.locked_tasks {op : Op} {tick : Tick} (h : Ledger s)
    (hphase : s.tasks[i]? = some phase) (hacts : Acts config s i phase a shared phase')
    (hlocked : Locked config s i phase a shared phase' op tick) :
    (∀ j permit, .admitted j permit ∈ shared.log →
      ∃ other, (s.tasks.set i phase')[j]? = some other ∧ other.entered = true) ∧
    (∀ j op tick prev next, .wrote j op tick prev next ∈ shared.log →
      ∃ other, (s.tasks.set i phase')[j]? = some other ∧ other.written = true) := by
  have hown := Pool.getElem?_set_own hphase phase'
  rw [hlocked.shared_eq, write]
  refine ⟨fun j permit hmem => ?_, fun j op tick prev next hmem => ?_⟩
  · rcases List.mem_cons.mp hmem with heq | hold
    · cases heq
    · exact Pool.exists_set hphase hacts.entered (h.admitted j permit hold)
  · rcases List.mem_cons.mp hmem with heq | hold
    · cases heq
      exact ⟨phase', hown, hlocked.after⟩
    · exact Pool.exists_set hphase hacts.written (h.wrote j op tick prev next hold)

theorem Ledger.locked_ends {op : Op} {tick : Tick} (h : Ledger s)
    (hphase : s.tasks[i]? = some phase) (hacts : Acts config s i phase a shared phase')
    (hlocked : Locked config s i phase a shared phase' op tick)
    (hepisode : episode shared.log = []) (hcount : shared.state.successCount = 0) :
    Ledger { shared := shared, tasks := s.tasks.set i phase' } := by
  obtain ⟨hadmitted, hwrote⟩ := h.locked_tasks hphase hacts hlocked
  have hprobes : probes shared.log = [] := by rw [probes, hepisode]; rfl
  have hverdicts : verdicts shared.log = [] := by rw [verdicts, hepisode]; rfl
  exact {
    admitted := hadmitted
    wrote := hwrote
    probes_nodup := hprobes ▸ .nil
    verdicts_nodup := hverdicts ▸ .nil
    owners := by simp [hprobes]
    reading := by simp [hprobes]
    counted := by simp [hverdicts, hcount]
    heard := by simp [hprobes] }

theorem Locked.log_eq {op : Op} {tick : Tick}
    (h : Locked config s i phase a shared phase' op tick) :
    shared.log = .wrote i op tick (s.shared.state.currentAt tick.now) shared.state.current ::
      s.shared.log := by
  rw [h.shared_eq]
  rfl

theorem Locked.episode_eq {failed : Bool} {tick : Tick}
    (h : Locked config s i phase a shared phase' (recordOp failed) tick)
    (hsame : s.shared.state.currentAt tick.now = shared.state.current) :
    episode shared.log = .wrote i (recordOp failed) tick shared.state.current
        shared.state.current :: episode s.shared.log ∧
      probes shared.log = probes s.shared.log ∧
      verdicts shared.log =
        (if shared.state.current = .halfOpen then [i] else []) ++ verdicts s.shared.log := by
  have hends : (Event.wrote i (recordOp failed) tick shared.state.current
      shared.state.current).ends = false := by
    cases failed <;> simp [Event.ends, recordOp]
  have hlog := h.log_eq
  rw [hsame] at hlog
  rw [hlog]
  refine ⟨episode_cons hends _, probes_cons hends _, ?_⟩
  rw [verdicts_cons hends]
  cases shared.state.current <;> rfl

theorem Ledger.locked_record {failed : Bool} {tick : Tick} (h : Ledger s)
    (hphase : s.tasks[i]? = some phase) (hacts : Acts config s i phase a shared phase')
    (hlocked : Locked config s i phase a shared phase' (recordOp failed) tick)
    (hsame : s.shared.state.currentAt tick.now = shared.state.current)
    (hcount : shared.state.successCount = s.shared.state.successCount +
      if shared.state.current = .halfOpen then 1 else 0) :
    Ledger { shared := shared, tasks := s.tasks.set i phase' } := by
  obtain ⟨hadmitted, hwrote⟩ := h.locked_tasks hphase hacts hlocked
  obtain ⟨hepisode, hprobes, hverdicts⟩ := hlocked.episode_eq hsame
  have hhalf : probes s.shared.log ≠ [] → shared.state.current = .halfOpen := fun hne =>
    hsame ▸ StateMachine.currentAt_halfOpen_mono (h.reading hne) hlocked.canWrite.2.1
  have hfresh := h.not_mem_verdicts hphase hlocked.before
  exact {
    admitted := hadmitted
    wrote := hwrote
    probes_nodup := hprobes ▸ h.probes_nodup
    verdicts_nodup := by
      dsimp only
      rw [hverdicts]
      split_ifs
      · exact List.nodup_cons.mpr ⟨hfresh, h.verdicts_nodup⟩
      · exact h.verdicts_nodup
    owners := by
      intro j hmem
      dsimp only at hmem ⊢
      rw [hprobes] at hmem
      rw [hepisode]
      rcases h.owners j hmem with hreleased | hholds
      · exact .inl (List.mem_cons_of_mem _ hreleased)
      · exact .inr (Pool.exists_set hphase hlocked.guard hholds)
    reading := by
      intro hne
      dsimp only at hne ⊢
      have hcurrent := hhalf (hprobes ▸ hne)
      rw [StateMachine.currentAt_of_ne_opened (by simp [hcurrent]), hcurrent]
    counted := by
      dsimp only
      rw [hcount, hverdicts, h.counted]
      split_ifs <;> simp
    heard := by
      intro j hmem op tick' prev next hwrote
      dsimp only at hmem hwrote
      rw [hprobes] at hmem
      rw [hepisode, List.mem_cons] at hwrote
      rcases hwrote with heq | hold
      · cases heq
        exact hhalf (List.ne_nil_of_mem hmem)
      · exact h.heard j hmem op tick' prev next hold }

theorem Locked.op_cases {op : Op} {tick : Tick} (hconfig : config.WellFormed)
    (hreach : Reachable config s) (h : Locked config s i phase a shared phase' op tick) :
    (op = .forceOpen ∨ op = .forceClosed) ∧ shared.state.successCount = 0 ∨
      ∃ failed, op = recordOp failed ∧ a = .record tick ∧
        StateMachine.Recorded config s.shared.state (s.shared.state.currentAt tick.now) failed
          shared.state := by
  have hstate : shared.state = (s.shared.state.apply config (op, tick)).1 := by
    rw [h.shared_eq]
    rfl
  rcases h.op_eq with (rfl | rfl) | ⟨ha, failed, rfl⟩
  · obtain ⟨wait, heq⟩ := StateMachine.transition_opened_cases config tick s.shared.state
    exact .inl ⟨.inl rfl, by rw [hstate]; exact congrArg StateMachine.successCount heq⟩
  · exact .inl ⟨.inr rfl, by rw [hstate]; rfl⟩
  · rw [StateMachine.apply_recordOp] at hstate
    exact .inr ⟨failed, rfl, ha, hstate ▸ (hreach.machine.shape hconfig).recorded failed tick⟩

theorem Ledger.locked {op : Op} {tick : Tick} (h : Ledger s) (hconfig : config.WellFormed)
    (hreach : Reachable config s) (hphase : s.tasks[i]? = some phase)
    (hacts : Acts config s i phase a shared phase')
    (hlocked : Locked config s i phase a shared phase' op tick) :
    Ledger { shared := shared, tasks := s.tasks.set i phase' } := by
  have hends : (Event.wrote i op tick (s.shared.state.currentAt tick.now)
      shared.state.current).ends = true → shared.state.successCount = 0 →
      Ledger { shared := shared, tasks := s.tasks.set i phase' } := fun hends =>
    h.locked_ends hphase hacts hlocked (by rw [hlocked.log_eq, episode_cons_of_ends hends])
  rcases hlocked.op_cases hconfig hreach with ⟨hforce, hcount⟩ | ⟨failed, rfl, -, hrecorded⟩
  · rcases hforce with rfl | rfl <;> exact hends rfl hcount
  · cases hrecorded with
    | counted hprev hcurrent hcount =>
        exact h.locked_record hphase hacts hlocked (hprev.trans hcurrent.symm)
          (by simp [hcurrent, hcount])
    | waiting hprev hcurrent hcount =>
        exact h.locked_record hphase hacts hlocked (hprev.trans hcurrent.symm)
          (by simp [hcurrent, hcount])
    | probed hprev _ _ hcurrent hcount =>
        exact h.locked_record hphase hacts hlocked (hprev.trans hcurrent.symm)
          (by simp [hcurrent, hcount])
    | tripped hprev _ hcurrent hcount =>
        exact hends (by simp [Event.ends, hprev, hcurrent]) hcount
    | recovered hprev _ _ hcurrent hcount =>
        exact hends (by simp [Event.ends, hprev, hcurrent]) hcount
    | retripped hprev _ hcurrent hcount =>
        exact hends (by simp [Event.ends, hprev, hcurrent]) hcount

theorem Ledger.step (h : Ledger s) (hconfig : config.WellFormed) (hreach : Reachable config s)
    {action : PoolAction Job (TaskAction ε)} (hstep : Step config s action s') : Ledger s' := by
  rcases step_cases hstep with
    ⟨job, -, rfl⟩ | ⟨i, a, phase, shared, phase', -, hphase, hacts, rfl⟩
  · exact h.spawn job
  · rcases hacts.locked_or_unlocked hreach hphase with ⟨news, hunlocked⟩ | ⟨op, tick, hlocked⟩
    · exact h.unlocked hphase hacts hunlocked
    · exact h.locked hconfig hreach hphase hacts hlocked

theorem Reachable.ledger (hconfig : config.WellFormed) (h : Reachable config s) : Ledger s :=
  h.invariant (fun _ _ hnew => ledger_new hnew) fun _ _ _ hreach hledger hstep =>
    hledger.step hconfig hreach hstep

end System

end Breaker
