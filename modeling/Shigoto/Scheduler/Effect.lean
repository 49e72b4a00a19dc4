import Shigoto.Scheduler.State

/-!
# What one command can do

For each part of the scheduler, one lemma that says which commands change it and how. Later proofs
use these and do not unfold `effect`.

* `phase_handle` — the phase of a job changes by a signal, by an operator's write or by a restore.
* `emitted_of_not_emits` — only signals and operators emit events.
* `budget_handle` — slots are taken and given back one by one.
* `InProcessScheduler.running` — the Running jobs, and how they follow the phases.
-/

namespace Shigoto

open Atomic

variable (w : World)

/-! ## Phases -/

theorem phaseIn_seedPhase (phases : Map JobId JobPhase) (id id' : JobId) :
    phaseIn (seedPhase phases id) id' = phaseIn phases id' := by
  unfold seedPhase
  split
  · rfl
  · next hnone =>
    by_cases h : id' = id
    · subst h
      simp [phaseIn, hnone]
    · exact phaseIn_insert_ne phases .pending h

/-- An accepted signal stores the phase it leads to, and emits one event. -/
theorem effect_dispatch_ok {id : JobId} {signal : Signal} {s : InProcessScheduler}
    {target : JobPhase} (h : advance (s.phase id) signal = .ok target) :
    effect w (.dispatch id signal) s =
      (.ok (dispatchEvent w s id signal target), { s with
        state.phases := s.state.phases.insert id target
        emitted := s.emitted ++ [dispatchEvent w s id signal target] }) := by
  simp only [effect, h]

theorem answer_dispatch_ok {id : JobId} {signal : Signal} {s : InProcessScheduler}
    {target : JobPhase} (h : advance (s.phase id) signal = .ok target) :
    (handle w (.dispatch id signal) s).1 = .ok (dispatchEvent w s id signal target) := by
  simp only [handle, effect_dispatch_ok w h]

/-- A refused signal changes nothing. -/
theorem effect_dispatch_error {id : JobId} {signal : Signal} {s : InProcessScheduler}
    {e : IllegalTransition} (h : advance (s.phase id) signal = .error e) :
    effect w (.dispatch id signal) s = (.error e, s) := by
  simp only [effect, h]

/-- A signal changes nothing but the phases and the events. -/
theorem dispatch_frame (id : JobId) (signal : Signal) (s : InProcessScheduler) :
    (handle w (.dispatch id signal) s).2.budget = s.budget ∧
    (handle w (.dispatch id signal) s).2.state =
      { s.state with phases := (handle w (.dispatch id signal) s).2.state.phases } := by
  cases hadvance : advance (s.phase id) signal with
  | error e => simp only [handle, effect_dispatch_error w hadvance, and_self]
  | ok target => simp only [handle, effect_dispatch_ok w hadvance, and_self]

theorem phase_dispatch_ok {id : JobId} {signal : Signal} {s : InProcessScheduler}
    {target : JobPhase} (h : advance (s.phase id) signal = .ok target) (id' : JobId) :
    (handle w (.dispatch id signal) s).2.phase id' =
      if id' = id then target else s.phase id' := by
  simp only [handle, effect_dispatch_ok w h]
  exact phaseIn_insert s.state.phases id id' target

/-- Commands that may move a job to another phase. -/
def Cmd.moves : Cmd → Bool
  | .dispatch _ _ | .overwrite _ _ | .restoreState _ => true
  | _ => false

theorem phase_of_not_moves {c : Cmd} (hc : c.moves = false) (s : InProcessScheduler)
    (id : JobId) : (handle w c s).2.phase id = s.phase id := by
  cases c with
  | dispatch id' signal => simp [Cmd.moves] at hc
  | overwrite id' phase => simp [Cmd.moves] at hc
  | restoreState saved => simp [Cmd.moves] at hc
  | seed id' => exact phaseIn_seedPhase s.state.phases id' id
  | registerJob job => exact phaseIn_seedPhase s.state.phases job.id id
  | spawn id' job timeout => cases job <;> rfl
  | _ => rfl

/-- **How the phase of a job can change**: by a signal the table accepts, by an operator's write, or
by a restored snapshot. -/
theorem phase_handle (c : Cmd) (s : InProcessScheduler) (id : JobId) :
    (handle w c s).2.phase id = s.phase id ∨
    (∃ signal, c = .dispatch id signal ∧
      advance (s.phase id) signal = .ok ((handle w c s).2.phase id)) ∨
    c = .overwrite id ((handle w c s).2.phase id) ∨
    ∃ saved, c = .restoreState saved := by
  cases c with
  | dispatch id' signal =>
    cases hadvance : advance (s.phase id') signal with
    | error e =>
      left
      simp only [handle, effect_dispatch_error w hadvance]
      rfl
    | ok target =>
      rw [phase_dispatch_ok w hadvance]
      by_cases h : id = id'
      · subst h
        simp [hadvance]
      · simp [h]
  | overwrite id' phase =>
    have hphase : (handle w (.overwrite id' phase) s).2.phase id =
        if id = id' then phase else s.phase id := phaseIn_insert s.state.phases id' id phase
    rw [hphase]
    by_cases h : id = id'
    · subst h
      simp
    · simp [h]
  | restoreState saved => exact .inr (.inr (.inr ⟨saved, rfl⟩))
  | _ => exact .inl (phase_of_not_moves w rfl s id)

theorem size_le_size_seedPhase (phases : Map JobId JobPhase) (id : JobId) :
    phases.size ≤ (seedPhase phases id).size := by
  unfold seedPhase
  split
  · exact le_rfl
  · exact Map.size_le_size_insert phases id .pending

/-- A job once known stays known. -/
theorem size_phases_le (c : Cmd) (s : InProcessScheduler) :
    s.state.phases.size ≤ (handle w c s).2.state.phases.size := by
  cases c with
  | seed id => exact size_le_size_seedPhase s.state.phases id
  | registerJob job => exact size_le_size_seedPhase s.state.phases job.id
  | overwrite id phase => exact Map.size_le_size_insert s.state.phases id phase
  | dispatch id signal =>
    cases hadvance : advance (s.phase id) signal with
    | error e => simp only [handle, effect_dispatch_error w hadvance]; exact le_rfl
    | ok target =>
      simp only [handle, effect_dispatch_ok w hadvance]
      exact Map.size_le_size_insert s.state.phases id target
  | restoreState saved =>
    show s.state.phases.size ≤ (saved.jobs.foldl SchedulerState.restore s.state).phases.size
    induction saved.jobs generalizing s with
    | nil => exact le_rfl
    | cons job jobs ih =>
      exact (Map.size_le_size_insert s.state.phases job.id job.phase).trans
        (ih { s with state := s.state.restore job })
  | spawn id job timeout => cases job <;> exact le_rfl
  | _ => exact le_rfl

theorem isSome_get?_seedPhase {phases : Map JobId JobPhase} {id : JobId}
    (h : (phases.get? id).isSome = true) (id' : JobId) :
    ((seedPhase phases id').get? id).isSome = true := by
  unfold seedPhase
  split
  · exact h
  · exact Map.isSome_get?_insert h id' .pending

/-- A job once known stays known. -/
theorem known_handle (c : Cmd) (s : InProcessScheduler) {id : JobId}
    (h : (s.state.phases.get? id).isSome = true) :
    ((handle w c s).2.state.phases.get? id).isSome = true := by
  cases c with
  | seed id' => exact isSome_get?_seedPhase h id'
  | registerJob job => exact isSome_get?_seedPhase h job.id
  | overwrite id' phase => exact Map.isSome_get?_insert h id' phase
  | dispatch id' signal =>
    cases hadvance : advance (s.phase id') signal with
    | error e => simp only [handle, effect_dispatch_error w hadvance]; exact h
    | ok target =>
      simp only [handle, effect_dispatch_ok w hadvance]
      exact Map.isSome_get?_insert h id' target
  | restoreState saved =>
    show ((saved.jobs.foldl SchedulerState.restore s.state).phases.get? id).isSome = true
    induction saved.jobs generalizing s with
    | nil => exact h
    | cons job jobs ih =>
      exact ih { s with state := s.state.restore job } (Map.isSome_get?_insert h job.id job.phase)
  | spawn id' job timeout => cases job <;> exact h
  | _ => exact h

/-! ## Failure counts -/

/-- **How attempt counts and histories can change**: a failure is recorded, the failures of a job are
cleared, or a snapshot is restored. -/
theorem failures_handle (c : Cmd) (s : InProcessScheduler) :
    ((handle w c s).2.state.attempts, (handle w c s).2.state.failureHistory) = match c with
      | .recordFailure id => ((s.state.recordFailure id (w.clock s.time)).attempts,
          (s.state.recordFailure id (w.clock s.time)).failureHistory)
      | .clearFailures id => (s.state.attempts.erase id, s.state.failureHistory.erase id)
      | .restoreState saved => ((saved.jobs.foldl SchedulerState.restore s.state).attempts,
          (saved.jobs.foldl SchedulerState.restore s.state).failureHistory)
      | _ => (s.state.attempts, s.state.failureHistory) := by
  cases c with
  | dispatch id signal => rw [(dispatch_frame w id signal s).2]
  | spawn id job timeout => cases job <;> rfl
  | _ => rfl

/-! ## Registries -/

/-- A restore leaves the registered jobs, timeouts, gates and policies alone. -/
theorem registries_restore (jobs : List StoredJobState) (state : SchedulerState) :
    (jobs.foldl SchedulerState.restore state).jobs = state.jobs ∧
    (jobs.foldl SchedulerState.restore state).timeouts = state.timeouts ∧
    (jobs.foldl SchedulerState.restore state).gates = state.gates ∧
    (jobs.foldl SchedulerState.restore state).retryPolicies = state.retryPolicies := by
  induction jobs generalizing state with
  | nil => exact ⟨rfl, rfl, rfl, rfl⟩
  | cons job jobs ih => exact ih (state.restore job)

/-- Policies change by registration only. -/
theorem retryPolicies_handle (c : Cmd) (s : InProcessScheduler) :
    (handle w c s).2.state.retryPolicies = match c with
      | .registerRetryPolicy kind policy => s.state.retryPolicies.insert kind policy
      | _ => s.state.retryPolicies := by
  cases c with
  | dispatch id signal => rw [(dispatch_frame w id signal s).2]
  | spawn id job timeout => cases job <;> rfl
  | restoreState saved => exact (registries_restore saved.jobs s.state).2.2.2
  | _ => rfl

/-- Gates change by registration only. -/
theorem gates_handle (c : Cmd) (s : InProcessScheduler) :
    (handle w c s).2.state.gates = match c with
      | .registerGate kind gate =>
        s.state.gates.insert kind ((s.state.gates.get? kind).getD [] ++ [gate])
      | _ => s.state.gates := by
  cases c with
  | dispatch id signal => rw [(dispatch_frame w id signal s).2]
  | spawn id job timeout => cases job <;> rfl
  | restoreState saved => exact (registries_restore saved.jobs s.state).2.2.1
  | _ => rfl

/-! ## Budget -/

/-- **How the budget can change**: a slot is asked for, a slot is given back, or the whole tree is
replaced. -/
theorem budget_handle (c : Cmd) (s : InProcessScheduler) :
    (handle w c s).2.budget = match c with
      | .tryAllocate id => (s.budget.tryAllocate id).2
      | .release id => s.budget.release id
      | .installBudget budget => budget
      | _ => s.budget := by
  cases c with
  | dispatch id signal => exact (dispatch_frame w id signal s).1
  | spawn id job timeout => cases job <;> rfl
  | _ => rfl

/-! ## Events -/

/-- Commands that may emit an event. -/
def Cmd.emits : Cmd → Bool
  | .dispatch _ _ | .emit _ _ _ _ _ => true
  | _ => false

theorem emitted_of_not_emits {c : Cmd} (hc : c.emits = false) (s : InProcessScheduler) :
    (handle w c s).2.emitted = s.emitted := by
  cases c with
  | dispatch id signal => simp [Cmd.emits] at hc
  | emit time id source target reason => simp [Cmd.emits] at hc
  | spawn id job timeout => cases job <;> rfl
  | _ => rfl

theorem emitted_dispatch_ok {id : JobId} {signal : Signal} {s : InProcessScheduler}
    {target : JobPhase} (h : advance (s.phase id) signal = .ok target) :
    (handle w (.dispatch id signal) s).2.emitted =
      s.emitted ++ [dispatchEvent w s id signal target] := by
  simp only [handle, effect_dispatch_ok w h]

/-- No event is ever taken back. -/
theorem emitted_grows (c : Cmd) (s : InProcessScheduler) : s.emitted <+: (handle w c s).2.emitted := by
  cases hemits : c.emits with
  | false => exact (emitted_of_not_emits w hemits s).symm ▸ List.prefix_rfl
  | true =>
    cases c with
    | dispatch id signal =>
      cases hadvance : advance (s.phase id) signal with
      | error e =>
        simp only [handle, effect_dispatch_error w hadvance]
        exact List.prefix_rfl
      | ok target =>
        rw [emitted_dispatch_ok w hadvance]
        exact List.prefix_append _ _
    | emit time id source target reason => exact List.prefix_append _ _
    | _ => simp [Cmd.emits] at hemits

/-! ## Running jobs -/

namespace InProcessScheduler

/-- The jobs in phase Running. -/
def running (s : InProcessScheduler) : Multiset JobId :=
  s.state.phases.keysWith fun p => p = .running

variable {s s' : InProcessScheduler} {id : JobId}

theorem mem_running : id ∈ s.running ↔ s.phase id = .running := by
  rw [running, Map.mem_keysWith]
  constructor
  · rintro ⟨p, hget, hp⟩
    obtain rfl : p = .running := by simpa using hp
    simp [phase, phaseIn, hget]
  · intro h
    exact ⟨.running, get?_of_phaseIn h (by simp), by simp⟩

theorem running_eq_zero (h : ∀ id, s.phase id ≠ .running) : s.running = 0 :=
  Multiset.eq_zero_of_forall_notMem fun id hid => h id (mem_running.mp hid)

theorem running_nodup (s : InProcessScheduler) : s.running.Nodup := Map.keysWith_nodup _ _

theorem running_congr (h : ∀ id, s'.phase id = .running ↔ s.phase id = .running) :
    s'.running = s.running :=
  (Multiset.Nodup.ext s'.running_nodup s.running_nodup).mpr fun id => by
    rw [mem_running, mem_running, h id]

theorem running_cons (hid : s.phase id ≠ .running)
    (h : ∀ id', s'.phase id' = .running ↔ id' = id ∨ s.phase id' = .running) :
    s'.running = id ::ₘ s.running := by
  have hnotMem : id ∉ s.running := fun hmem => hid (mem_running.mp hmem)
  refine (Multiset.Nodup.ext s'.running_nodup
    (Multiset.nodup_cons.mpr ⟨hnotMem, s.running_nodup⟩)).mpr fun id' => ?_
  rw [mem_running, Multiset.mem_cons, mem_running, h id']

theorem running_erase
    (h : ∀ id', s'.phase id' = .running ↔ id' ≠ id ∧ s.phase id' = .running) :
    s'.running = s.running.erase id := by
  refine (Multiset.Nodup.ext s'.running_nodup (s.running_nodup.erase id)).mpr fun id' => ?_
  rw [mem_running, s.running_nodup.mem_erase_iff, mem_running, h id']

theorem card_running_le (s : InProcessScheduler) :
    Multiset.card s.running ≤ s.state.phases.size := Map.card_keysWith_le _ _

end InProcessScheduler

end Shigoto
