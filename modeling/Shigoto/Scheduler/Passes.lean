import Shigoto.Scheduler.Flight
import Shigoto.Scheduler.Issued
import Shigoto.Scheduler.Unhealed
import Shigoto.Waves

/-!
# What each pass does

PASS 1 and PASS 3 move only jobs of their wave that are neither Running nor terminal (`Drove`). PASS 2
runs the Running jobs of the wave, one task each, and each result moves its job; a task that yields no
result leaves its job Running (`Executed`). `runs` lists the executions of a log, `recordsOf` the
failures of a job that it recorded, and `Tallied` says what an outcome does to them.
-/

namespace Shigoto

open Atomic

variable {w : World} {m : SchedMachine}

/-! ## Executions -/

/-- The tasks that a log has spawned, oldest first. -/
def runs (w : World) : List SchedEvent → List Task
  | [] => []
  | e :: past =>
    match e.cmd with
    | .spawn id job timeout => runs w past ++ [(handle w (.spawn id job timeout) e.pre).1]
    | _ => runs w past

theorem runs_cons_of_ne {c : Cmd} (h : ∀ id job timeout, c ≠ .spawn id job timeout) (t : Nat)
    (s : InProcessScheduler) (log : List SchedEvent) : runs w (⟨t, c, s⟩ :: log) = runs w log := by
  cases c with
  | spawn id job timeout => exact absurd rfl (h id job timeout)
  | _ => rfl

theorem runs_spawn (t : Nat) (id : JobId) (job : Option ErasedJob) (timeout : Option Duration)
    (s : InProcessScheduler) (log : List SchedEvent) :
    runs w (⟨t, .spawn id job timeout, s⟩ :: log) =
      runs w log ++ [(handle w (.spawn id job timeout) s).1] := rfl

/-- Results are lost exactly where an execution panics. -/
theorem exists_lost_iff {log : List SchedEvent} :
    (∃ task ∈ runs w log, task.result = none) ↔ ∃ e ∈ log, panics w e = true := by
  induction log with
  | nil => simp [runs]
  | cons e log ih =>
    rw [List.exists_mem_cons_iff, ← ih]
    obtain ⟨t, c, s⟩ := e
    cases c with
    | spawn id job timeout =>
      rw [runs_spawn]
      simp only [List.mem_append, List.mem_singleton, or_and_right, exists_or, exists_eq_left]
      exact or_comm.trans (or_congr_left Option.isNone_iff_eq_none.symm)
    | _ => simp [runs, panics]

theorem spawns_of_panics {e : SchedEvent} (h : panics w e = true) :
    ∃ id job timeout, e.cmd = .spawn id job timeout := by
  obtain ⟨t, c, s⟩ := e
  cases c with
  | spawn id job timeout => exact ⟨id, job, timeout, rfl⟩
  | _ => exact Bool.noConfusion h

/-- The record of one more failure of `id`. -/
def SchedulerState.failure (state : SchedulerState) (id : JobId) (nowMs : DateTime) : FailureRecord :=
  .new ((state.attempts.get? id).getD 0 + 1) nowMs "execute() returned Err"

/-- The failures of `id` that a log has recorded, oldest first. -/
def recordsOf (w : World) (id : JobId) : List SchedEvent → List FailureRecord
  | [] => []
  | e :: past =>
    match e.cmd with
    | .recordFailure id' =>
      if id' = id then recordsOf w id past ++ [e.pre.state.failure id (w.clock e.pre.time)]
      else recordsOf w id past
    | _ => recordsOf w id past

theorem recordsOf_cons_of_ne {id : JobId} {c : Cmd} (h : c ≠ .recordFailure id) (t : Nat)
    (s : InProcessScheduler) (log : List SchedEvent) :
    recordsOf w id (⟨t, c, s⟩ :: log) = recordsOf w id log := by
  cases c with
  | recordFailure id' => exact if_neg fun hid : id' = id => h (by rw [hid])
  | _ => rfl

theorem recordsOf_recordFailure (id : JobId) (t : Nat) (s : InProcessScheduler)
    (log : List SchedEvent) : recordsOf w id (⟨t, .recordFailure id, s⟩ :: log) =
      recordsOf w id log ++ [s.state.failure id (w.clock s.time)] := if_pos rfl

/-- What an outcome of `id` does to its failures: nothing without a result, a success clears them, and
a failure is counted and recorded. -/
def Tallied (w : World) (id : JobId) (outcome : Option ExecResult) (m m' : SchedMachine) : Prop :=
  match outcome with
  | none => m'.state.state.attempts.get? id = m.state.state.attempts.get? id ∧
      m'.state.state.failureHistory.get? id = m.state.state.failureHistory.get? id ∧
      recordsOf w id m'.log = recordsOf w id m.log
  | some (.ok ()) => m'.state.state.attempts.get? id = none ∧
      m'.state.state.failureHistory.get? id = none ∧ recordsOf w id m'.log = recordsOf w id m.log
  | some (.error ()) => ∃ nowMs,
      m'.state.state.attempts.get? id = some (m.state.state.failure id nowMs).attempt ∧
      m'.state.state.failureHistory.get? id = some (capHistory
        ((m.state.state.failureHistory.get? id).getD [] ++ [m.state.state.failure id nowMs])) ∧
      recordsOf w id m'.log = recordsOf w id m.log ++ [m.state.state.failure id nowMs]

section

variable {id : JobId} {outcome : Option ExecResult} {m' m'' : SchedMachine}

theorem Tallied.refl : Tallied w id none m m := ⟨rfl, rfl, rfl⟩

theorem Tallied.after_none (h : Tallied w id none m m') (h' : Tallied w id outcome m' m'') :
    Tallied w id outcome m m'' := by
  obtain ⟨hattempts, hhistory, hrecords⟩ := h
  unfold Tallied at h' ⊢
  unfold SchedulerState.failure at h' ⊢
  rwa [hattempts, hhistory, hrecords] at h'

theorem Tallied.then_none (h : Tallied w id outcome m m') (h' : Tallied w id none m' m'') :
    Tallied w id outcome m m'' := by
  obtain ⟨hattempts, hhistory, hrecords⟩ := h'
  unfold Tallied at h ⊢
  rwa [hattempts, hhistory, hrecords]

end

/-- A command that neither records nor clears failures of `id`, nor restores them. -/
theorem tallied_step {id : JobId} {c : Cmd} (hrecord : c ≠ .recordFailure id)
    (hclear : c ≠ .clearFailures id) (hrestore : ∀ saved, c ≠ .restoreState saved) (m : SchedMachine) :
    Tallied w id none m (m.step (handle w) 0 c) := by
  obtain ⟨hattempts, hhistory⟩ := Prod.mk.inj (failures_handle w c m.state)
  refine ⟨?_, ?_, recordsOf_cons_of_ne hrecord 0 m.state m.log⟩
  · rw [Machine.step, hattempts]
    cases c with
    | recordFailure id' =>
      exact Map.get?_insert_ne _ _ fun hid : id = id' => hrecord (by rw [hid])
    | clearFailures id' => exact Map.get?_erase_ne _ fun hid : id = id' => hclear (by rw [hid])
    | restoreState saved => exact absurd rfl (hrestore saved)
    | _ => rfl
  · rw [Machine.step, hhistory]
    cases c with
    | recordFailure id' =>
      exact Map.get?_insert_ne _ _ fun hid : id = id' => hrecord (by rw [hid])
    | clearFailures id' => exact Map.get?_erase_ne _ fun hid : id = id' => hclear (by rw [hid])
    | restoreState saved => exact absurd rfl (hrestore saved)
    | _ => rfl

theorem tallied_clearFailures (id : JobId) (m : SchedMachine) :
    Tallied w id (some (.ok ())) m (m.step (handle w) 0 (.clearFailures id)) :=
  ⟨Map.get?_erase_self _ id, Map.get?_erase_self _ id, rfl⟩

theorem tallied_recordFailure (id : JobId) (m : SchedMachine) :
    Tallied w id (some (.error ())) m (m.step (handle w) 0 (.recordFailure id)) :=
  ⟨w.clock m.state.time, Map.get?_insert_self _ id _, Map.get?_insert_self _ id _,
    recordsOf_recordFailure id 0 m.state m.log⟩

/-- The task that an execution of `id` started at `time` is. -/
def SchedulerState.taskOf (state : SchedulerState) (id : JobId) (time : Nat) : Task :=
  match state.jobs.get? id with
  | some job => ⟨id, (job.execute time).within (state.timeouts.get? id)⟩
  | none => ⟨id, some (.error ())⟩

@[simp] theorem SchedulerState.taskOf_id (state : SchedulerState) (id : JobId) (time : Nat) :
    (state.taskOf id time).id = id := by
  unfold taskOf
  split <;> rfl

theorem answer_spawn (s : InProcessScheduler) (id : JobId) :
    (handle w (.spawn id (s.state.jobs.get? id) (s.state.timeouts.get? id)) s).1 =
      s.state.taskOf id s.time := by
  unfold SchedulerState.taskOf
  cases s.state.jobs.get? id <;> rfl

/-- The tasks are executions of the jobs `ids`, one each. -/
def TasksOf (state : SchedulerState) (ids : List JobId) (tasks : List Task) : Prop :=
  List.Forall₂ (fun id task => ∃ time, task = state.taskOf id time) ids tasks

theorem TasksOf.map_id {state : SchedulerState} {ids : List JobId} {tasks : List Task}
    (h : TasksOf state ids tasks) : tasks.map (·.id) = ids := by
  induction h with
  | nil => rfl
  | cons h _ ih =>
    obtain ⟨time, rfl⟩ := h
    rw [List.map_cons, ih, SchedulerState.taskOf_id]

theorem TasksOf.of_mem {state : SchedulerState} {ids : List JobId} {tasks : List Task}
    (h : TasksOf state ids tasks) {task : Task} (htask : task ∈ tasks) :
    ∃ time, task = state.taskOf task.id time := by
  induction h with
  | nil => exact absurd htask List.not_mem_nil
  | cons h _ ih =>
    rcases List.mem_cons.mp htask with rfl | hrest
    · obtain ⟨time, rfl⟩ := h
      exact ⟨time, by rw [SchedulerState.taskOf_id]⟩
    · exact ih hrest

/-- Nothing but the log and the time has changed, and the log by these executions. -/
structure Spawned (w : World) (tasks : List Task) (m m' : SchedMachine) : Prop where
  state : m'.state.state = m.state.state
  budget : m'.state.budget = m.state.budget
  emitted : m'.state.emitted = m.state.emitted
  runs : runs w m'.log = runs w m.log ++ tasks
  records : ∀ id, recordsOf w id m'.log = recordsOf w id m.log

theorem wp_spawnAll (ids : List JobId) (tasks : List Task) :
    wp (handle w) 0 (spawnAll ids tasks)
      (fun tasks' m' => ∃ new, tasks' = tasks ++ new ∧ TasksOf m.state.state ids new ∧
        Spawned w new m m')
      (fun _ _ => False) m := by
  induction ids generalizing m tasks with
  | nil =>
    exact ⟨[], (List.append_nil _).symm, .nil, ⟨rfl, rfl, rfl, (List.append_nil _).symm, fun _ => rfl⟩⟩
  | cons id ids ih =>
    -- the state in which the job is looked up, spawned and left
    set m₁ := m.step (handle w) 0 (.lookupJob id) with hm₁
    set m₂ := m₁.step (handle w) 0
      (.spawn id (m₁.state.state.jobs.get? id) (m₁.state.state.timeouts.get? id)) with hm₂
    have hanswer := answer_spawn (w := w) m₁.state id
    set task := m₁.state.state.taskOf id m₁.state.time with htask
    suffices hrest : wp (handle w) 0 (spawnAll ids (tasks ++ [task])) (fun tasks' m' =>
        ∃ new, tasks' = tasks ++ new ∧ TasksOf m.state.state (id :: ids) new ∧ Spawned w new m m')
        (fun _ _ => False) m₂ by
      rw [← hanswer] at hrest
      exact hrest
    have hframe : m₂.state.state = m.state.state ∧ m₂.state.budget = m.state.budget ∧
        m₂.state.emitted = m.state.emitted := by
      rw [hm₂, hm₁]
      simp only [Machine.step]
      cases Map.get? (handle w (.lookupJob id) m.state).2.state.jobs id <;> exact ⟨rfl, rfl, rfl⟩
    have hruns : runs w m₂.log = runs w m.log ++ [task] := by
      rw [hm₂, Machine.step, runs_spawn, hanswer]
      rfl
    refine wp_mono (ih (m := m₂) (tasks ++ [task])) ?_ fun _ _ h => h
    rintro tasks' m' ⟨new, rfl, hnew, hspawned⟩
    refine ⟨task :: new, by simp, .cons ⟨_, rfl⟩ (hframe.1 ▸ hnew), ?_⟩
    refine ⟨hspawned.state.trans hframe.1, hspawned.budget.trans hframe.2.1,
      hspawned.emitted.trans hframe.2.2, ?_, hspawned.records⟩
    rw [hspawned.runs, hruns, List.append_assoc]
    rfl

/-! ## Results -/

/-- The jobs, timeouts, gates and policies are the same. -/
structure SchedulerState.SameSetup (state state' : SchedulerState) : Prop where
  jobs : state'.jobs = state.jobs
  timeouts : state'.timeouts = state.timeouts
  gates : state'.gates = state.gates
  retryPolicies : state'.retryPolicies = state.retryPolicies

namespace SchedulerState.SameSetup

variable {state state' state'' : SchedulerState}

theorem refl (state : SchedulerState) : state.SameSetup state := ⟨rfl, rfl, rfl, rfl⟩

theorem symm (h : state.SameSetup state') : state'.SameSetup state :=
  ⟨h.jobs.symm, h.timeouts.symm, h.gates.symm, h.retryPolicies.symm⟩

theorem trans (h : state.SameSetup state') (h' : state'.SameSetup state'') :
    state.SameSetup state'' :=
  ⟨h'.jobs.trans h.jobs, h'.timeouts.trans h.timeouts, h'.gates.trans h.gates,
    h'.retryPolicies.trans h.retryPolicies⟩

theorem taskOf (h : state.SameSetup state') (id : JobId) (time : Nat) :
    state'.taskOf id time = state.taskOf id time := by
  unfold SchedulerState.taskOf
  rw [h.jobs, h.timeouts]

end SchedulerState.SameSetup

theorem sameSetup_dispatch (id : JobId) (signal : Signal) (s : InProcessScheduler) :
    s.state.SameSetup (handle w (.dispatch id signal) s).2.state := by
  rw [(dispatch_frame w id signal s).2]
  exact ⟨rfl, rfl, rfl, rfl⟩

/-- Driving and applying register nothing. -/
theorem sameSetup_handle {ids : List JobId} {c : Cmd} (hc : c.drives ids ∨ c.applies ids)
    (s : InProcessScheduler) : s.state.SameSetup (handle w c s).2.state := by
  rcases hc with hc | hc
  · rw [drives_handle hc]
    exact ⟨rfl, rfl, rfl, rfl⟩
  · cases c with
    | dispatch id signal => exact sameSetup_dispatch id signal s
    | clearFailures id => exact ⟨rfl, rfl, rfl, rfl⟩
    | recordFailure id => exact ⟨rfl, rfl, rfl, rfl⟩
    | release id => exact ⟨rfl, rfl, rfl, rfl⟩
    | _ => exact hc.elim

/-- The phase an applied result leads to. -/
def ExecResult.phase : ExecResult → JobPhase
  | .ok _ => .succeeded
  | .error _ => .failed 1

/-- Which job an event moves, and from where to where. -/
def TransitionEvent.step (e : TransitionEvent) : JobId × JobPhase × JobPhase :=
  (e.jobId, e.source, e.target)

/-- An accepted signal, and then the rest. -/
theorem wp_dispatch {id : JobId} {signal : Signal} {target : JobPhase}
    {transitions : List TransitionEvent} {Q : List TransitionEvent → SchedMachine → Prop}
    {E : SchedulerError → SchedMachine → Prop}
    (hadvance : advance (m.state.phase id) signal = .ok target) :
    wp (handle w) 0 (dispatch id signal transitions) Q E m ↔
      Q (transitions ++ [dispatchEvent w m.state id signal target])
        (m.step (handle w) 0 (.dispatch id signal)) := by
  unfold dispatch
  rw [wp_bind]
  show wp (handle w) 0 (match (handle w (.dispatch id signal) m.state).1 with
    | .ok event => _
    | .error e => _) Q E _ ↔ _
  rw [answer_dispatch_ok w hadvance]
  exact Iff.rfl

/-- The results are applied: each moves its job, and nothing else moves. -/
structure Applied (w : World) (results : List (JobId × ExecResult)) (m m' : SchedMachine) : Prop where
  moved : ∀ id result, (id, result) ∈ results → m'.state.phase id = ExecResult.phase result
  others : ∀ id, id ∉ results.map (·.1) → m'.state.phase id = m.state.phase id
  setup : m.state.state.SameSetup m'.state.state
  caps : m'.state.budget.cap = m.state.budget.cap
  runs : runs w m'.log = runs w m.log
  tallied : ∀ id result, (id, result) ∈ results → Tallied w id (some result) m m'
  untallied : ∀ id, id ∉ results.map (·.1) → Tallied w id none m m'

theorem applied_single {id : JobId} {result : ExecResult} {m m' : SchedMachine}
    (hmoved : ∀ id', m'.state.phase id' =
      if id' = id then ExecResult.phase result else m.state.phase id')
    (hsetup : m.state.state.SameSetup m'.state.state) (hcaps : m'.state.budget.cap = m.state.budget.cap)
    (hruns : runs w m'.log = runs w m.log) (htallied : Tallied w id (some result) m m')
    (huntallied : ∀ id', id' ≠ id → Tallied w id' none m m') : Applied w [(id, result)] m m' where
  moved id' result' hmem := by
    cases List.mem_singleton.mp hmem
    rw [hmoved, if_pos rfl]
  others id' hid' := by rw [hmoved, if_neg (by simpa using hid')]
  setup := hsetup
  caps := hcaps
  runs := hruns
  tallied id' result' hmem := by
    cases List.mem_singleton.mp hmem
    exact htallied
  untallied id' hid' := huntallied id' (by simpa using hid')

theorem wp_applyExecutionResult {id : JobId} {result : ExecResult}
    {transitions : List TransitionEvent} (hrunning : m.state.phase id = .running) :
    wp (handle w) 0 (applyExecutionResult id result transitions)
      (fun transitions' m' => Applied w [(id, result)] m m' ∧ ∃ event,
        transitions' = transitions ++ [event] ∧ event.step = (id, .running, ExecResult.phase result))
      (fun _ _ => False) m := by
  have hphase : ∀ signal (m₀ : SchedMachine), m₀.state.phase = m.state.phase →
      advance (m.state.phase id) signal = .ok (ExecResult.phase result) → ∀ id',
      (handle w (.dispatch id signal) m₀.state).2.phase id' =
        if id' = id then ExecResult.phase result else m.state.phase id' := by
    intro signal m₀ hsame hadvance id'
    rw [phase_dispatch_ok w (by rw [hsame]; exact hadvance), hsame]
  cases result with
  | ok u =>
    have hadvance : advance (m.state.phase id) .executionSucceeded = .ok .succeeded :=
      advance_executionSucceeded_iff.mpr ⟨hrunning, rfl⟩
    apply wp_bind.mpr
    apply (wp_dispatch hadvance).mpr
    refine ⟨applied_single (hphase .executionSucceeded m rfl hadvance) ?_ ?_ rfl ?_ fun id' hid' => ?_, _, rfl,
      ?_⟩
    · exact (sameSetup_dispatch id .executionSucceeded m.state).trans ⟨rfl, rfl, rfl, rfl⟩
    · exact (BudgetTree.cap_release _ id).trans
        (congrArg BudgetTree.cap (dispatch_frame w id .executionSucceeded m.state).1)
    · exact (tallied_step (by simp) (by simp) (by simp) m).after_none
        ((tallied_clearFailures id _).then_none (tallied_step (by simp) (by simp) (by simp) _))
    · exact ((tallied_step (by simp) (by simp) (by simp) m).then_none
        (tallied_step (by simp) (by simpa using hid'.symm) (by simp) _)).then_none
        (tallied_step (by simp) (by simp) (by simp) _)
    · exact congrArg (fun p => (id, p, JobPhase.succeeded)) hrunning
  | error u =>
    -- the failure is recorded before its signal
    set m₀ := m.step (handle w) 0 (.recordFailure id) with hm₀
    have hadvance : advance (m₀.state.phase id) .executionFailed = .ok (.failed 1) :=
      advance_executionFailed_iff.mpr ⟨hrunning, rfl⟩
    apply wp_perform_bind.mpr
    apply wp_bind.mpr
    apply (wp_dispatch hadvance).mpr
    have hrecord : m.state.state.SameSetup m₀.state.state := ⟨rfl, rfl, rfl, rfl⟩
    refine ⟨applied_single (hphase .executionFailed m₀ rfl hadvance) ?_ ?_ rfl ?_ fun id' hid' => ?_, _, rfl,
      ?_⟩
    · exact hrecord.trans ((sameSetup_dispatch id .executionFailed m₀.state).trans ⟨rfl, rfl, rfl, rfl⟩)
    · exact (BudgetTree.cap_release _ id).trans
        (congrArg BudgetTree.cap (dispatch_frame w id .executionFailed m₀.state).1)
    · exact ((tallied_recordFailure id m).then_none
        (tallied_step (by simp) (by simp) (by simp) _)).then_none
        (tallied_step (by simp) (by simp) (by simp) _)
    · exact ((tallied_step (by simpa using hid'.symm) (by simp) (by simp) m).then_none
        (tallied_step (by simp) (by simp) (by simp) _)).then_none
        (tallied_step (by simp) (by simp) (by simp) _)
    · exact congrArg (fun p => (id, p, JobPhase.failed 1)) hrunning

theorem wp_applyAll {results : List (JobId × ExecResult)} {transitions : List TransitionEvent}
    (hnodup : (results.map (·.1)).Nodup)
    (hrunning : ∀ id ∈ results.map (·.1), m.state.phase id = .running) :
    wp (handle w) 0 (applyAll results transitions)
      (fun transitions' m' => Applied w results m m' ∧ ∃ new, transitions' = transitions ++ new ∧
        new.map TransitionEvent.step =
          results.map fun result => (result.1, .running, ExecResult.phase result.2))
      (fun _ _ => False) m := by
  induction results generalizing m transitions with
  | nil =>
    exact ⟨⟨by simp, fun _ _ => rfl, .refl _, rfl, rfl, by simp, fun _ _ => .refl⟩, [],
      (List.append_nil _).symm, rfl⟩
  | cons x results ih =>
    obtain ⟨id, result⟩ := x
    obtain ⟨hnew, hrest⟩ := List.nodup_cons.mp hnodup
    apply wp_bind.mpr
    refine wp_mono (wp_applyExecutionResult (hrunning id List.mem_cons_self)) ?_ fun _ _ h => h
    rintro _ m₁ ⟨happlied, event, rfl, hevent⟩
    -- one result per job: the others are still Running
    have hstill : ∀ id' ∈ results.map (·.1), m₁.state.phase id' = .running := by
      intro id' hid'
      have hne : id' ≠ id := fun h => hnew (h ▸ hid')
      rw [happlied.others id' (by simpa using hne)]
      exact hrunning id' (List.mem_cons_of_mem id hid')
    refine wp_mono (ih hrest hstill) ?_ fun _ _ h => h
    rintro _ m₂ ⟨happlied₂, new, rfl, hsteps⟩
    refine ⟨⟨fun id' result' hmem => ?_, fun id' hid' => ?_, happlied.setup.trans happlied₂.setup,
      happlied₂.caps.trans happlied.caps, happlied₂.runs.trans happlied.runs,
      fun id' result' hmem => ?_, fun id' hid' => ?_⟩, event :: new, by simp, by simp [hevent, hsteps]⟩
    · rcases List.mem_cons.mp hmem with heq | hmem
      · cases heq
        rw [happlied₂.others id hnew]
        exact happlied.moved id result (List.mem_singleton_self _)
      · exact happlied₂.moved id' result' hmem
    · rw [List.map_cons, List.mem_cons, not_or] at hid'
      rw [happlied₂.others id' hid'.2, happlied.others id' (by simpa using hid'.1)]
    · rcases List.mem_cons.mp hmem with heq | hmem
      · cases heq
        exact (happlied.tallied id result (List.mem_singleton_self _)).then_none
          (happlied₂.untallied id hnew)
      · have hne : id' ≠ id := fun h => hnew (List.mem_map.mpr ⟨(id', result'), hmem, h⟩)
        exact (happlied.untallied id' (by simpa using hne)).after_none
          (happlied₂.tallied id' result' hmem)
    · rw [List.map_cons, List.mem_cons, not_or] at hid'
      exact (happlied.untallied id' (by simpa using hid'.1)).then_none
        (happlied₂.untallied id' hid'.2)

/-! ## PASS 2 -/

/-- Where a task leaves its job. -/
def Task.phase (task : Task) : JobPhase := task.result.elim .running ExecResult.phase

/-- What a task that yields a result does to its job. -/
def Task.step (task : Task) : Option (JobId × JobPhase × JobPhase) :=
  task.result.map fun result => (task.id, .running, ExecResult.phase result)

/-- The jobs `ids` were executed, and what the tasks yielded was applied. -/
structure Executed (w : World) (ids : List JobId) (tasks : List Task) (m m' : SchedMachine) : Prop where
  ran : TasksOf m.state.state ids tasks
  runs : runs w m'.log = runs w m.log ++ tasks
  moved : ∀ task ∈ tasks, m'.state.phase task.id = task.phase
  others : ∀ id, id ∉ ids → m'.state.phase id = m.state.phase id
  setup : m.state.state.SameSetup m'.state.state
  caps : m'.state.budget.cap = m.state.budget.cap
  tallied : ∀ task ∈ tasks, Tallied w task.id task.result m m'
  untallied : ∀ id, id ∉ ids → Tallied w id none m m'

theorem Task.yield_eq_some {task : Task} {id : JobId} {result : ExecResult} :
    task.yield = some (id, result) ↔ task.id = id ∧ task.result = some result := by
  unfold Task.yield
  cases task.result <;> simp

theorem mem_yields {tasks : List Task} {id : JobId} {result : ExecResult} :
    (id, result) ∈ tasks.filterMap Task.yield ↔
      ∃ task ∈ tasks, task.id = id ∧ task.result = some result := by
  simp only [List.mem_filterMap, Task.yield_eq_some]

/-- The jobs `ids` ran as these tasks, and the results are what the tasks yielded. -/
structure Joined (w : World) (ids : List JobId) (tasks : List Task)
    (results : List (JobId × ExecResult)) (m m' : SchedMachine) : Prop where
  ran : TasksOf m.state.state ids tasks
  spawned : Spawned w tasks m m'
  yielded : results.Perm (tasks.filterMap Task.yield)

theorem wp_executeConcurrent (ids : List JobId) :
    wp (handle w) 0 (executeConcurrent ids)
      (fun results m' => ∃ tasks, Joined w ids tasks results m m') (fun _ _ => False) m := by
  apply wp_bind.mpr
  refine wp_mono (wp_spawnAll ids []) ?_ fun _ _ he => he
  rintro tasks m₁ ⟨_, rfl, htasks, hspawned⟩
  exact ⟨_, htasks,
    ⟨hspawned.state, hspawned.budget, hspawned.emitted, hspawned.runs, hspawned.records⟩,
    answers_handle w (fun _ => True) (.join _) m₁.state⟩

namespace Joined

variable {ids : List JobId} {tasks : List Task} {results : List (JobId × ExecResult)}
  {m₁ m₂ : SchedMachine} {task : Task}

theorem subperm (h : Joined w ids tasks results m m₁) : (results.map (·.1)).Subperm ids :=
  h.ran.map_id ▸ yield_ids_subperm h.yielded

theorem nodup (h : Joined w ids tasks results m m₁) (hnodup : ids.Nodup) :
    (results.map (·.1)).Nodup := by
  obtain ⟨ids', hperm, hsub⟩ := h.subperm
  exact hperm.nodup_iff.mp (hsub.nodup hnodup)

theorem phase (h : Joined w ids tasks results m m₁) (id : JobId) :
    m₁.state.phase id = m.state.phase id :=
  congrArg (fun state : SchedulerState => phaseIn state.phases id) h.spawned.state

theorem running (h : Joined w ids tasks results m m₁)
    (hrunning : ∀ id ∈ ids, m.state.phase id = .running) :
    ∀ id ∈ results.map (·.1), m₁.state.phase id = .running := fun id hid =>
  (h.phase id).trans (hrunning id (h.subperm.subset hid))

theorem mem_results (h : Joined w ids tasks results m m₁) (htask : task ∈ tasks)
    {result : ExecResult} (hresult : task.result = some result) : (task.id, result) ∈ results :=
  h.yielded.mem_iff.mpr (mem_yields.mpr ⟨task, htask, rfl, hresult⟩)

/-- No other task is one of the same job. -/
theorem not_mem_results (h : Joined w ids tasks results m m₁) (hnodup : ids.Nodup)
    (htask : task ∈ tasks) (hresult : task.result = none) : task.id ∉ results.map (·.1) := by
  intro hmem
  obtain ⟨⟨id, result⟩, hyield, hid⟩ := List.mem_map.mp hmem
  obtain ⟨task', htask', hid', hresult'⟩ := mem_yields.mp (h.yielded.mem_iff.mp hyield)
  have htaskNodup : (tasks.map (·.id)).Nodup := h.ran.map_id.symm ▸ hnodup
  have hsame : task' = task := List.inj_on_of_nodup_map htaskNodup htask' htask (hid'.trans hid)
  rw [hsame, hresult] at hresult'
  cases hresult'

/-- Nothing happens to the failures before the results are applied. -/
theorem untallied (h : Joined w ids tasks results m m₁) (id : JobId) : Tallied w id none m m₁ :=
  ⟨congrArg (fun state : SchedulerState => state.attempts.get? id) h.spawned.state,
    congrArg (fun state : SchedulerState => state.failureHistory.get? id) h.spawned.state,
    h.spawned.records id⟩

theorem steps (h : Joined w ids tasks results m m₁) :
    (results.map fun result => (result.1, JobPhase.running, ExecResult.phase result.2)).Perm
      (tasks.filterMap Task.step) := by
  refine (h.yielded.map _).trans (List.Perm.of_eq ?_)
  rw [List.map_filterMap]
  congr 1
  funext task
  unfold Task.yield Task.step
  rw [Option.map_map]
  rfl

theorem executed (h : Joined w ids tasks results m m₁) (happlied : Applied w results m₁ m₂)
    (hnodup : ids.Nodup) (hrunning : ∀ id ∈ ids, m.state.phase id = .running) :
    Executed w ids tasks m m₂ where
  ran := h.ran
  runs := happlied.runs.trans h.spawned.runs
  moved task htask := by
    cases hresult : task.result with
    | some result =>
      rw [happlied.moved task.id result (h.mem_results htask hresult), Task.phase, hresult]
      rfl
    | none =>
      have hid : task.id ∈ ids := h.ran.map_id ▸ List.mem_map_of_mem htask
      rw [happlied.others task.id (h.not_mem_results hnodup htask hresult), h.phase, Task.phase, hresult]
      exact hrunning task.id hid
  others id hid := by
    rw [happlied.others id fun hmem => hid (h.subperm.subset hmem), h.phase]
  setup := h.spawned.state ▸ happlied.setup
  caps := happlied.caps.trans (congrArg BudgetTree.cap h.spawned.budget)
  tallied task htask := by
    cases hresult : task.result with
    | some result =>
      exact (h.untallied task.id).after_none
        (happlied.tallied task.id result (h.mem_results htask hresult))
    | none =>
      exact (h.untallied task.id).then_none
        (happlied.untallied task.id (h.not_mem_results hnodup htask hresult))
  untallied id hid :=
    (h.untallied id).then_none (happlied.untallied id fun hmem => hid (h.subperm.subset hmem))

end Joined

/-- **What PASS 2 does.** -/
theorem wp_pass2 {wave : List JobId} {transitions : List TransitionEvent} (hnodup : wave.Nodup) :
    wp (handle w) 0 (pass2 wave transitions)
      (fun transitions' m' => ∃ tasks new, Executed w (m.state.runningOf wave) tasks m m' ∧
        transitions' = transitions ++ new ∧
        (new.map TransitionEvent.step).Perm (tasks.filterMap Task.step))
      (fun _ _ => False) m := by
  apply wp_perform_bind.mpr
  set m₁ := m.step (handle w) 0 (.runningOf wave) with hm₁
  set ids := m.state.runningOf wave with hids
  show wp (handle w) 0 (if ids.isEmpty then return transitions else do
    let results ← executeConcurrent ids
    applyAll results transitions) _ _ m₁
  split
  · next hempty =>
    rw [List.isEmpty_iff.mp hempty]
    exact ⟨[], [], ⟨.nil, (List.append_nil _).symm, by simp, fun _ _ => rfl, .refl _, rfl,
      by simp, fun _ _ => .refl⟩, (List.append_nil _).symm, .nil⟩
  · have hidsNodup : ids.Nodup := hnodup.filter _
    have hrunning : ∀ id ∈ ids, m₁.state.phase id = .running := fun id hid =>
      (InProcessScheduler.mem_runningOf.mp hid).2
    apply wp_bind.mpr
    refine wp_mono (wp_executeConcurrent ids) ?_ fun _ _ he => he
    rintro results m₂ ⟨tasks, hjoined⟩
    refine wp_mono (wp_applyAll (hjoined.nodup hidsNodup) (hjoined.running hrunning)) ?_
      fun _ _ he => he
    rintro _ m₃ ⟨happlied, new, rfl, hsteps⟩
    have hexecuted := hjoined.executed happlied hidsNodup hrunning
    refine ⟨tasks, new, ⟨hexecuted.ran, hexecuted.runs, hexecuted.moved, hexecuted.others,
      hexecuted.setup, hexecuted.caps, hexecuted.tallied, hexecuted.untallied⟩, rfl, ?_⟩
    rw [hsteps]
    exact hjoined.steps

/-! ## PASS 1 and PASS 3 -/

/-- Only jobs of `ids` were driven: they were not Running and not terminal. -/
structure Drove (w : World) (ids : List JobId) (m m' : SchedMachine) : Prop where
  others : ∀ id, id ∉ ids ∨ m.state.phase id = .running ∨ (m.state.phase id).isTerminal = true →
    m'.state.phase id = m.state.phase id
  setup : m.state.state.SameSetup m'.state.state
  attempts : m'.state.state.attempts = m.state.state.attempts
  failureHistory : m'.state.state.failureHistory = m.state.state.failureHistory
  runs : runs w m'.log = runs w m.log
  records : ∀ id, recordsOf w id m'.log = recordsOf w id m.log

theorem Drove.refl (ids : List JobId) (m : SchedMachine) : Drove w ids m m :=
  ⟨fun _ _ => rfl, .refl _, rfl, rfl, rfl, fun _ => rfl⟩

theorem wp_drives {ids : List JobId} {p : Sched (List TransitionEvent)}
    (hp : Sched.Issues (Cmd.drives ids) p) :
    wp (handle w) 0 p (fun _ m' => Drove w ids m m') (fun e m' => e.refusal ∧ Drove w ids m m') m := by
  refine Issues.wp (J := Drove w ids m) hp (fun m' c hm' hc => ?_) ?_
  · have hstate := drives_handle (w := w) hc m'.state
    refine ⟨fun id hid => ?_, hm'.setup.trans (sameSetup_handle (.inl hc) m'.state), ?_, ?_, ?_,
      fun id => ?_⟩
    · have hsame := hm'.others id hid
      have hstays : id ∉ ids ∨ m'.state.phase id = .running ∨ (m'.state.phase id).isTerminal = true := by
        rwa [hsame]
      exact (phase_of_drives hc m'.state hstays).trans hsame
    · exact (congrArg SchedulerState.attempts hstate).trans hm'.attempts
    · exact (congrArg SchedulerState.failureHistory hstate).trans hm'.failureHistory
    · refine (runs_cons_of_ne ?_ 0 m'.state m'.log).trans hm'.runs
      rintro id job timeout rfl
      exact hc
    · refine (recordsOf_cons_of_ne ?_ 0 m'.state m'.log).trans (hm'.records id)
      rintro rfl
      exact hc
  · exact .refl ids m

/-- **The rule for one job in PASS 3**: it is driven when its turn comes, and left alone otherwise. -/
theorem wp_pass3_job {dag : Dag} {id : JobId} {K J : SchedMachine → Prop}
    (hdrive : ∀ m transitions, K m →
      wp (handle w) 0 (drive dag id 3 transitions) (fun _ => J) (fun e _ => e.refusal) m)
    (hothers : ∀ m m' ids, id ∉ ids → Drove w ids m m' → (K m → K m') ∧ (J m → J m'))
    (hsub : ∀ m, J m → K m) {wave : List JobId} (transitions : List TransitionEvent) (h : K m)
    (hwave : id ∈ wave ∨ J m) :
    wp (handle w) 0 (pass3 dag wave transitions) (fun _ => J) (fun e _ => e.refusal) m := by
  induction wave generalizing m transitions with
  | nil => exact hwave.resolve_left List.not_mem_nil
  | cons id' wave ih =>
    apply wp_bind.mpr
    by_cases hid : id' = id
    · subst hid
      exact wp_mono (hdrive m transitions h)
        (fun transitions' m' hdone => ih transitions' (hsub m' hdone) (.inr hdone)) fun _ _ he => he
    · have hother : id ∉ [id'] := by simpa using Ne.symm hid
      refine wp_mono (wp_drives (issues_drive (List.mem_singleton_self id') dag 3 transitions))
        (fun transitions' m' hdrove => ?_) fun _ _ he => he.1
      obtain ⟨hkept, hstays⟩ := hothers m m' [id'] hother hdrove
      refine ih transitions' (hkept h) (hwave.imp (fun hmem => ?_) hstays)
      exact (List.mem_cons.mp hmem).resolve_left (Ne.symm hid)

/-! ## A tick on an acyclic graph -/

/-- **The rule for a tick on an acyclic graph**: its waves list the jobs of the graph, each after its
predecessors, and what is left after them is the receipt. -/
theorem wp_tick_acyclic {dag : Dag} (hbuilt : dag.Built) (hsort : w.toposort.Sorts dag.graph)
    (hacyclic : ¬ dag.Cyclic) {Q : TickReceipt → SchedMachine → Prop}
    {E : SchedulerError → SchedMachine → Prop}
    (hrun : ∀ ws, dag.Layered (fun _ => False) ws → ws.flatten.Perm dag.graph.ids → ws.flatten.Nodup →
      wp (handle w) 0 (runWaves dag ws [])
        (fun transitions m' => Q
          { tickAt := w.clock m.state.time
            phaseCounts := Snapshot.phaseCounts ⟨m'.state.state.phases⟩
            transitionsThisTick := transitions
            unhealed := collectUnhealed (w.order (m'.state.time + 1)) (w.spelling (m'.state.time + 1))
              m'.state.state.phases }
          ((m'.step (handle w) 0 .snapshotInner).step (handle w) 0 .hashOrder))
        E ((m.step (handle w) 0 .now).step (handle w) 0 (.waves dag))) :
    wp (handle w) 0 (tick dag) Q E m := by
  obtain ⟨ws, hwaves, hlayered, hperm⟩ :=
    Dag.waves_layered (w.order (m.state.time + 1)) hbuilt hsort hacyclic
  refine wp_tick (fun e herror => ?_) fun ws' hok => ?_
  · rw [hwaves] at herror
    cases herror
  · obtain rfl := Except.ok.inj (hwaves.symm.trans hok)
    exact hrun ws hlayered hperm (Dag.waves_nodup hwaves)

/-! ## Before the first tick -/

/-- Nothing was executed, no job moved, and nothing failed. -/
structure Unstarted (w : World) (m : SchedMachine) : Prop where
  runs : runs w m.log = []
  records : ∀ id, recordsOf w id m.log = []
  phase : ∀ id, m.state.phase id = .pending
  attempts : ∀ id, m.state.state.attempts.get? id = none
  failureHistory : ∀ id, m.state.state.failureHistory.get? id = none

namespace Unstarted

theorem new (w : World) (tool : String) : Unstarted w (InProcessScheduler.new tool).start :=
  ⟨rfl, fun _ => rfl, fun _ => rfl, fun id => Map.get?_empty id, fun id => Map.get?_empty id⟩

theorem prepare (h : Unstarted w m) {call : Call} (hcall : call.prepares = true) :
    Unstarted w (call.prog.exec (handle w) 0 m).2 := by
  cases call with
  | registerJob job =>
    exact ⟨h.runs, h.records,
      fun id => (phaseIn_seedPhase m.state.state.phases job.id id).trans (h.phase id), h.attempts, h.failureHistory⟩
  | registerGate kind gate => exact ⟨h.runs, h.records, h.phase, h.attempts, h.failureHistory⟩
  | registerRetryPolicy kind policy => exact ⟨h.runs, h.records, h.phase, h.attempts, h.failureHistory⟩
  | setTimeout id timeout => exact ⟨h.runs, h.records, h.phase, h.attempts, h.failureHistory⟩
  | installBudget budget => exact ⟨h.runs, h.records, h.phase, h.attempts, h.failureHistory⟩
  | _ => exact Bool.noConfusion hcall

theorem prepared (h : Unstarted w m) {setup : List Call}
    (hsetup : ∀ call ∈ setup, call.prepares = true) : Unstarted w (runCalls w setup m) := by
  induction setup generalizing m with
  | nil => exact h
  | cons call setup ih =>
    obtain ⟨hcall, hrest⟩ := List.forall_mem_cons.mp hsetup
    exact ih (h.prepare hcall) hrest

end Unstarted

end Shigoto
